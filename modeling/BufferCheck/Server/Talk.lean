import BufferCheck.Server.Session
import BufferCheck.Server.Threads

/-!
Callers that stop at their first error; a build is one of them. What such a caller does next depends
on what it was told before. Run on a client, a talk takes one course. Between the two threads it
takes any course that their moves allow.
-/
namespace BufferCheck.Server

variable {α : Type}

/-- What an operation tells: the body of a response, if the caller waited for one, or an error. -/
abbrev Outcome := Except EngineError (Option Json)

/-- What a caller does. It may go on only from what succeeds. -/
inductive Talk (α : Type) where
  | finish (result : Except EngineError α)
  | call (command : String) (arguments : Json) (next : Option Json → Talk α)
  | notify (command : String) (arguments : Json) (next : Talk α)

/-- How a talk went: the outcomes of its operations, and what came of them. If nothing came of them,
then its last operation never ends. -/
structure Course (α : Type) where
  outcomes : List Outcome
  result : Except Halt α

namespace Course

/-- The course whose first operation fails, or never ends. -/
def halted : Halt → Course α
  | .failed e => ⟨[.error e], .error (.failed e)⟩
  | .blocked => ⟨[], .error .blocked⟩

/-- How many operations are begun in a course. -/
def operations (course : Course α) : Nat :=
  match course.result with
  | .error .blocked => course.outcomes.length + 1
  | _ => course.outcomes.length

/-- A course with outcomes before its own. -/
def after (course : Course α) (outcomes : List Outcome) : Course α :=
  { course with outcomes := outcomes ++ course.outcomes }

end Course

namespace Talk

/-- The course of a talk on a client. -/
def run : Talk α → Client → Course α
  | finish result, _ => ⟨[], result.mapError .failed⟩
  | call command arguments next, c =>
    match (Client.call command arguments).run.run c with
    | (.ok body, c) => ((next body).run c).after [.ok body]
    | (.error e, _) => .halted e
  | notify command arguments next, c =>
    match (Client.notify command arguments).run.run c with
    | (.ok _, c) => (next.run c).after [.ok none]
    | (.error e, _) => .halted e

/-- The request that a talk hands over next. -/
def request? : Talk α → Option (String × Json)
  | finish _ => none
  | call command arguments _ => some (command, arguments)
  | notify command arguments _ => some (command, arguments)

/-- Make calls one after the other, and go on with their diagnostics. -/
def ofCalls : List PlannedCall → (List Diagnostic → Talk α) → Talk α
  | [], next => next []
  | planned :: rest, next =>
    .call planned.command planned.arguments fun body =>
      match planned.read body with
      | .ok found => ofCalls rest fun more => next (found ++ more)
      | .error e => .finish (.error e)

end Talk

/-- What a build does as a caller. -/
def Session.talk (s : Session) (task : BuildTask) (roots : List Root) : Talk Program :=
  .ofCalls (s.plan task.options roots) fun found =>
    .notify Command.exit .null <|
      .finish (.ok (.ofBuild task.rootNames task.options (roots.map (·.file)) found))

/-- A caller in the middle of its talk. -/
structure Talking (α : Type) where
  threads : Threads
  /-- What the caller has still to do. -/
  talk : Talk α
  /-- The number of the call that the caller has handed over and that is not answered. -/
  pending : Option Nat
  /-- How the operations so far ended. -/
  outcomes : List Outcome

namespace Talking

/-- A caller before its first operation. -/
def start (talk : Talk α) (sent : List UInt8) (room : Option Nat) (patient : Bool) : Talking α :=
  { threads := .start sent room patient, talk, pending := none, outcomes := [] }

/-- One move, of the caller or of one of the threads. -/
inductive Step : Talking α → Talking α → Prop where
  | silent {x : Talking α} {t} (h : x.threads.Step .silent t) : Step x { x with threads := t }
  /-- A call is handed over. -/
  | hand {x : Talking α} {command arguments next seq t}
      (ht : x.talk = .call command arguments next) (hp : x.pending = none)
      (h : x.threads.Step (.handed command arguments (some seq)) t) :
      Step x { x with threads := t, pending := some seq }
  /-- The caller starts to wait for the answer. -/
  | wait {x : Talking α} {command arguments next seq t}
      (ht : x.talk = .call command arguments next) (hp : x.pending = some seq)
      (h : x.threads.Step (.waits seq command) t) :
      Step x { x with threads := t }
  | answer {x : Talking α} {command arguments next seq body t}
      (ht : x.talk = .call command arguments next) (hp : x.pending = some seq)
      (h : x.threads.Step (.answered (.ok body)) t) :
      Step x ⟨t, next body, none, x.outcomes ++ [.ok body]⟩
  | fail {x : Talking α} {command arguments next seq e t}
      (ht : x.talk = .call command arguments next) (hp : x.pending = some seq)
      (h : x.threads.Step (.answered (.error e)) t) :
      Step x ⟨t, .finish (.error e), none, x.outcomes ++ [.error e]⟩
  | notify {x : Talking α} {command arguments next seq t}
      (ht : x.talk = .notify command arguments next) (hp : x.pending = none)
      (h : x.threads.Step (.handed command arguments (some seq)) t) :
      Step x ⟨t, next, none, x.outcomes ++ [.ok none]⟩
  /-- A request is not taken. -/
  | refuse {x : Talking α} {command arguments t} (ht : x.talk.request? = some (command, arguments))
      (hp : x.pending = none) (h : x.threads.Step (.handed command arguments none) t) :
      Step x ⟨t, .finish (.error (.io Client.stoppedText)), none,
        x.outcomes ++ [.error (.io Client.stoppedText)]⟩

/-- So many moves one after the other. -/
inductive Run : Nat → Talking α → Talking α → Prop where
  | refl (x : Talking α) : Run 0 x x
  | step {n : Nat} {x y z : Talking α} : Run n x y → Step y z → Run (n + 1) x z

end Talking
end BufferCheck.Server
