import BufferCheck.Server.Client

/-!
The client with its two threads. The caller hands requests to a writer through one queue; a reader
and the writer put what they find into another, which the caller takes from. Any of the three may
move next. The server's input takes all bytes, or so many of them at most; then it refuses the
others or lets them wait for ever. `Client` is the schedule in which the reader is done before the
caller starts and the writer moves as soon as it has something to write.
-/
namespace BufferCheck.Server

/-- What the caller is doing. -/
inductive Caller where
  | free
  | waiting (seq : Nat) (command : String)

/-- What the writer is doing. -/
inductive Writer where
  | writing
  /-- A write was begun that never ends. -/
  | stalled
  /-- A write failed and the caller is told so, but the queue still takes requests. -/
  | failed
  | stopped
  deriving DecidableEq, Repr

/-- A write has failed. -/
def Writer.HasFailed (w : Writer) : Prop := w = .failed ∨ w = .stopped

/-- The caller, the two queues and the two threads. -/
structure Threads where
  caller : Caller
  nextSeq : Nat
  /-- The requests that are handed over and not yet written. -/
  outbound : List Request
  /-- What is found and not yet taken. -/
  inbound : List Inbound
  /-- What the reader has still to find; it stops after the last item. -/
  unread : List Inbound
  output : Output
  /-- A write that does not fit waits for ever, rather than fail. -/
  patient : Bool
  writer : Writer

namespace Threads

/-- The threads of a client that has just been connected. -/
def start (sent : List UInt8) (room : Option Nat) (patient : Bool) : Threads :=
  { caller := .free, nextSeq := 1, outbound := [], inbound := [], unread := Inbound.ofStream sent,
    output := .fresh room, patient, writer := .writing }

/-- A move that the caller can see, or one of the threads. -/
inductive Action where
  | silent
  /-- A request is handed over under a number, or not at all. -/
  | handed (command : String) (arguments : Json) (seq : Option Nat)
  /-- A wait for the response to a request starts. -/
  | waits (seq : Nat) (command : String)
  /-- A wait ends. -/
  | answered (outcome : Except EngineError (Option Json))

/-- One move of one of the three. -/
inductive Step : Threads → Action → Threads → Prop where
  /-- The reader puts the next item into the queue. -/
  | deliver {s : Threads} {item rest} (h : s.unread = item :: rest) :
      Step s .silent { s with unread := rest, inbound := s.inbound ++ [item] }
  /-- The writer writes the next request. -/
  | write {s : Threads} {r rest out} (hw : s.writer = .writing) (h : s.outbound = r :: rest)
      (ho : s.output.write r.line = (out, true)) :
      Step s .silent { s with outbound := rest, output := out }
  /-- The writer fails and tells so. -/
  | fail {s : Threads} {r rest out} (hw : s.writer = .writing) (h : s.outbound = r :: rest)
      (hp : s.patient = false) (ho : s.output.write r.line = (out, false)) :
      Step s .silent
        { s with
          outbound := rest
          output := out
          writer := .failed
          inbound := s.inbound ++ [.ioError Output.refusal] }
  /-- The writer begins a write that never ends. -/
  | stall {s : Threads} {r rest out} (hw : s.writer = .writing) (h : s.outbound = r :: rest)
      (hp : s.patient = true) (ho : s.output.write r.line = (out, false)) :
      Step s .silent { s with outbound := rest, output := out, writer := .stalled }
  /-- The writer stops. -/
  | stop {s : Threads} (hw : s.writer = .failed) : Step s .silent { s with writer := .stopped }
  /-- The caller hands over a request. -/
  | hand {s : Threads} {command arguments} (hc : s.caller = .free) (hw : s.writer ≠ .stopped) :
      Step s (.handed command arguments (some s.nextSeq))
        { s with
          nextSeq := Client.succSeq s.nextSeq
          outbound := s.outbound ++ [⟨s.nextSeq, command, arguments⟩] }
  /-- Nobody is there to take a request. -/
  | refuse {s : Threads} {command arguments} (hc : s.caller = .free) (hw : s.writer = .stopped) :
      Step s (.handed command arguments none) { s with nextSeq := Client.succSeq s.nextSeq }
  /-- The caller starts to wait. -/
  | wait {s : Threads} {seq command} (hc : s.caller = .free) :
      Step s (.waits seq command) { s with caller := .waiting seq command }
  /-- The caller takes an item that does not decide. -/
  | pass {s : Threads} {seq command item rest} (hc : s.caller = .waiting seq command)
      (h : s.inbound = item :: rest) (hd : item.decides? seq command = none) :
      Step s .silent { s with inbound := rest }
  /-- The caller takes an item that decides. -/
  | decide {s : Threads} {seq command item rest outcome} (hc : s.caller = .waiting seq command)
      (h : s.inbound = item :: rest) (hd : item.decides? seq command = some outcome) :
      Step s (.answered outcome) { s with caller := .free, inbound := rest }
  /-- The queue is empty and will stay so, since both threads have stopped. -/
  | disconnect {s : Threads} {seq command} (hc : s.caller = .waiting seq command)
      (h : s.inbound = []) (hr : s.unread = []) (hw : s.writer = .stopped) :
      Step s (.answered (.error .exited)) { s with caller := .free }

/-- Moves one after the other, with what they show. -/
inductive Run : Threads → List Action → Threads → Prop where
  | refl (s : Threads) : Run s [] s
  | step {s t u : Threads} {a : Action} {as : List Action} :
      Step s a t → Run t as u → Run s (a :: as) u

/-- The writer has nothing to write, or will never be done with what it writes. -/
def Idle (s : Threads) : Prop := s.writer = .writing ∧ s.outbound = [] ∨ s.writer = .stalled

/-- The caller waits for an item that nobody is there to send: the reader has stopped, and nothing
will come of the writer, which still might send one. -/
def Stuck (s : Threads) : Prop :=
  (∃ seq command, s.caller = .waiting seq command) ∧ s.inbound = [] ∧ s.unread = [] ∧ s.Idle

variable {s t u : Threads}

theorem Run.append {as bs : List Action} (h : Run s as t) (k : Run t bs u) :
    Run s (as ++ bs) u := by
  induction h with
  | refl => exact k
  | step hs _ ih => exact .step hs (ih k)

/-- A writer that has not failed moves until it is idle. -/
theorem idle_or_step (hw : ¬ s.writer.HasFailed) : s.Idle ∨ ∃ t, Step s .silent t := by
  cases h : s.writer with
  | failed => exact absurd (.inl h) hw
  | stopped => exact absurd (.inr h) hw
  | stalled => exact .inl (.inr h)
  | writing =>
    cases ho : s.outbound with
    | nil => exact .inl (.inl ⟨h, ho⟩)
    | cons r rest =>
      right
      cases hwrite : s.output.write r.line with
      | mk out done =>
        cases done with
        | true => exact ⟨_, .write h ho hwrite⟩
        | false =>
          cases hp : s.patient with
          | true => exact ⟨_, .stall h ho hp hwrite⟩
          | false => exact ⟨_, .fail h ho hp hwrite⟩

/-- A caller that is stuck can do nothing but wait. -/
theorem not_step_of_stuck {a : Action} (h : Stuck s) : ¬ Step s a t := by
  obtain ⟨⟨seq, command, hc⟩, hi, hu, ⟨hw, ho⟩ | hw⟩ := h
  all_goals
    intro hs
    cases hs <;> simp_all

end Threads
end BufferCheck.Server
