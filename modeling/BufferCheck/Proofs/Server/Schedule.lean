import BufferCheck.Proofs.Server.Mirror
import Mathlib.Logic.Relation

/-! A client is one schedule of the threads: the reader is done before the caller starts, and the
writer moves as soon as it has something to write. -/
namespace BufferCheck.Server

open Relation

variable {α : Type} {c : Client} {seq : Nat} {command : String} {arguments : Json}
  {queue rest : List Inbound} {outcome : Outcome}

namespace Threads

variable {s t : Threads}

/-- A silent move. -/
abbrev Silent (s t : Threads) : Prop := Step s .silent t

/-- The threads have nothing to do, and stand where a client stands whose server has ended. -/
structure Rests (s : Threads) (c : Client) : Prop where
  reading : c.reading = false
  patient : s.patient = false
  nextSeq : s.nextSeq = c.nextSeq
  outbound : s.outbound = []
  unread : s.unread = []
  inbound : s.inbound = c.inbound
  output : s.output = c.output
  writer : s.writer = if c.writing then .writing else .stopped

/-- The reader finds all that there is. -/
theorem reads_all (s : Threads) : ReflTransGen Silent s
    { s with inbound := s.inbound ++ s.unread, unread := [] } := by
  suffices h : ∀ unread s, s.unread = unread → ReflTransGen Silent s
      { s with inbound := s.inbound ++ unread, unread := [] } from h s.unread s rfl
  intro unread
  induction unread with
  | nil =>
    intro s hu
    rw [List.append_nil, ← hu]
  | cons item rest ih =>
    intro s hu
    have hmore := ih { s with inbound := s.inbound ++ [item], unread := rest } rfl
    simp only [List.append_assoc, List.singleton_append] at hmore
    exact .head (.deliver hu) hmore

/-- A request is written, or the writer fails and stops, before the caller goes on. -/
theorem Rests.request (hr : s.Rests c) (hc : s.caller = .free) (hw : c.writing = true) :
    ∃ t u, Step s (.handed command arguments (some c.nextSeq)) t ∧ ReflTransGen Silent t u ∧
      u.caller = .free ∧ u.Rests (c.perform (Client.request command arguments)).2 := by
  obtain ⟨hreading, hpatient, hn, ho, hu, hi, hout, hwriter⟩ := hr
  rw [hw, if_pos rfl] at hwriter
  have hhand : Step s (.handed command arguments (some s.nextSeq))
      { s with
        nextSeq := Client.succSeq s.nextSeq
        outbound := s.outbound ++ [⟨s.nextSeq, command, arguments⟩] } :=
    .hand hc (by simp [hwriter])
  rw [ho, List.nil_append] at hhand
  have hrequest : (c.perform (Client.request command arguments)).2
      = (Client.request command arguments c).2 := rfl
  rw [hrequest, ← hn]
  simp only [Client.request, hw, if_true, ← hn, ← hout]
  cases hwrite : s.output.write (Request.line ⟨s.nextSeq, command, arguments⟩) with
  | mk out written =>
    cases written with
    | true =>
      have hsilent : Silent { s with
          nextSeq := Client.succSeq s.nextSeq
          outbound := [⟨s.nextSeq, command, arguments⟩] } _ := .write hwriter rfl hwrite
      exact ⟨_, _, hhand, .single hsilent, hc, hreading, hpatient, rfl, rfl, hu, hi, rfl, hwriter⟩
    | false =>
      have hfail : Silent { s with
          nextSeq := Client.succSeq s.nextSeq
          outbound := [⟨s.nextSeq, command, arguments⟩] } _ := 
        .fail hwriter rfl hpatient hwrite
      have hi' : s.inbound ++ [.ioError Output.refusal]
          = c.inbound ++ [.ioError Output.refusal] := by rw [hi]
      exact ⟨_, _, hhand, .tail (.single hfail) (.stop rfl), hc, hreading, hpatient, rfl, rfl, hu,
        hi', rfl, rfl⟩

/-- A wait takes items up to the first that decides. -/
theorem awaits (hc : s.caller = .waiting seq command) (hq : s.inbound = queue)
    (ha : Inbound.await? seq command queue = some (outcome, rest)) :
    ∃ t, ReflTransGen Silent s t ∧
      Step t (.answered outcome) { s with caller := .free, inbound := rest } := by
  induction queue generalizing s with
  | nil => simp [Inbound.await?] at ha
  | cons item queue ih =>
    rw [Inbound.await?] at ha
    split at ha
    · next hd =>
      obtain ⟨rfl, rfl⟩ := Prod.mk.inj (Option.some.inj ha)
      exact ⟨s, .refl, .decide hc hq hd⟩
    · next hd =>
      obtain ⟨t, hs, ht⟩ := ih (s := { s with inbound := queue }) hc rfl ha
      exact ⟨t, .head (.pass hc hq hd) hs, ht⟩

/-- If no item decides, it takes them all. -/
theorem awaits_in_vain (hc : s.caller = .waiting seq command) (hq : s.inbound = queue)
    (ha : Inbound.await? seq command queue = none) :
    ReflTransGen Silent s { s with inbound := [] } := by
  induction queue generalizing s with
  | nil => rw [← hq]
  | cons item queue ih =>
    rw [Inbound.await?] at ha
    split at ha
    · cases ha
    · next hd =>
      exact .head (.pass hc hq hd) (ih (s := { s with inbound := queue }) hc rfl ha)

/-- A wait between threads at rest ends as it ends on a client, or it is stuck where the client is
blocked. -/
theorem Rests.await (hr : s.Rests c) (hc : s.caller = .waiting seq command) :
    (∃ outcome t u, (c.perform (Client.await seq command)).1 = outcome.mapError .failed ∧
        ReflTransGen Silent s t ∧ Step t (.answered outcome) u ∧ u.caller = .free ∧
        u.Rests (c.perform (Client.await seq command)).2) ∨
      (c.perform (Client.await seq command)).1 = .error .blocked ∧
        ∃ t, ReflTransGen Silent s t ∧ t.Stuck := by
  obtain ⟨hreading, hpatient, hn, ho, hu, hi, hout, hwriter⟩ := hr
  cases hawait : Inbound.await? seq command c.inbound with
  | some taken =>
    obtain ⟨outcome, rest⟩ := taken
    obtain ⟨t, hs, ht⟩ := awaits hc hi hawait
    rw [Client.perform_await_of_some hawait]
    exact .inl ⟨outcome, t, _, rfl, hs, ht, rfl, hreading, hpatient, hn, ho, hu, rfl, hout, hwriter⟩
  | none =>
    have hs := awaits_in_vain hc hi hawait
    have hrests : Rests { s with caller := .free, inbound := [] } { c with inbound := [] } :=
      ⟨hreading, hpatient, hn, ho, hu, rfl, hout, hwriter⟩
    have hdeserted : c.deserted = if c.writing then .blocked else .failed .exited := by
      rw [Client.deserted, hreading, Bool.false_or]
    rw [Client.perform_await_of_none hawait, hdeserted]
    by_cases hw : c.writing = true
    · rw [if_pos hw] at hwriter ⊢
      exact .inr ⟨rfl, _, hs, ⟨seq, command, hc⟩, rfl, hu, .inl ⟨hwriter, ho⟩⟩
    · rw [if_neg hw] at hwriter ⊢
      exact .inl ⟨.error .exited, _, _, rfl, hs, .disconnect hc rfl hu hwriter, rfl, hrests⟩

end Threads

namespace Talking

variable {x y : Talking α}

theorem exists_run (h : ReflTransGen Step x y) : ∃ n, Run n x y := by
  induction h with
  | refl => exact ⟨0, .refl x⟩
  | tail _ hs ih =>
    obtain ⟨n, hn⟩ := ih
    exact ⟨n + 1, .step hn hs⟩

theorem reaches_of_silent {t : Threads} (h : ReflTransGen Threads.Silent x.threads t) :
    ReflTransGen Step x { x with threads := t } := by
  induction h with
  | refl => exact .refl
  | tail _ hs ih => exact ih.tail (.silent hs)

section Calls

variable {c' : Client} {next : Option Json → Talk α}

/-- A talk came to the end of a course, or it is stuck where the course is blocked. -/
def Completes (course : Course α) (x : Talking α) : Prop :=
  x.outcomes = course.outcomes ∧
    ((∃ result, course.result = result.mapError .failed ∧ x.talk = .finish result) ∨
      course.result = .error .blocked ∧ x.threads.Stuck)

/-- Between threads at rest, a call is handed over, and its wait ends as it ends on a client. -/
theorem reaches_answer (ht : x.talk = .call command arguments next) (hp : x.pending = none)
    (hc : x.threads.caller = .free) (hr : x.threads.Rests c) (hw : c.writing = true)
    (hrequest : c.perform (Client.request command arguments) = (.ok c.nextSeq, c')) :
    let awaited := c'.perform (Client.await c.nextSeq command)
    (∃ outcome s t, awaited.1 = outcome.mapError .failed ∧
        ReflTransGen Step x { x with threads := s, pending := some c.nextSeq } ∧
        s.Step (.answered outcome) t ∧ t.caller = .free ∧ t.Rests awaited.2) ∨
      awaited.1 = .error .blocked ∧
        ∃ s, ReflTransGen Step x { x with threads := s, pending := some c.nextSeq } ∧ s.Stuck := by
  intro awaited
  obtain ⟨s, t, hhand, hsilent, hfree, ht'⟩ := @Threads.Rests.request c command arguments _ hr hc hw
  rw [hrequest] at ht'
  have hwait : t.Step (.waits c.nextSeq command)
      { t with caller := .waiting c.nextSeq command } := .wait hfree
  have hrests : Threads.Rests { t with caller := .waiting c.nextSeq command } c' :=
    ⟨ht'.reading, ht'.patient, ht'.nextSeq, ht'.outbound, ht'.unread, ht'.inbound, ht'.output,
      ht'.writer⟩
  have hreach : ∀ u, ReflTransGen Threads.Silent { t with caller := .waiting c.nextSeq command } u →
      ReflTransGen Step x { x with threads := u, pending := some c.nextSeq } := fun u hu =>
    .head (.hand ht hp hhand)
      ((reaches_of_silent hsilent).trans (.head (.wait ht rfl hwait) (reaches_of_silent hu)))
  rcases hrests.await rfl with ⟨outcome, u, v, heq, hu, hanswered, hv⟩ | ⟨heq, u, hu, hstuck⟩
  · exact .inl ⟨outcome, u, v, heq, hreach u hu, hanswered, hv⟩
  · exact .inr ⟨heq, u, hreach u hu, hstuck⟩

theorem step_refuse (ht : x.talk.request? = some (command, arguments)) (hp : x.pending = none)
    (hc : x.threads.caller = .free) (hr : x.threads.Rests c) (hw : c.writing = false) :
    ∃ y, Step x y ∧
      Completes ((Course.halted (.failed (.io Client.stoppedText))).after x.outcomes) y := by
  have hstopped : x.threads.writer = .stopped := by
    rw [hr.writer, hw]
    rfl
  exact ⟨_, .refuse ht hp (.refuse hc hstopped), rfl, .inl ⟨_, rfl, rfl⟩⟩

end Calls

/-- A caller between threads at rest can take the course that its talk takes on a client. -/
theorem reaches_course (talk : Talk α) (ht : x.talk = talk) (hp : x.pending = none)
    (hc : x.threads.caller = .free) (hr : x.threads.Rests c) :
    ∃ y, ReflTransGen Step x y ∧ Completes ((talk.run c).after x.outcomes) y := by
  induction talk generalizing x c with
  | finish result =>
    exact ⟨x, .refl, by simp [Talk.run, Course.after], .inl ⟨result, rfl, ht⟩⟩
  | call command arguments next ih =>
    cases hw : c.writing with
    | false =>
      have hcall : c.perform (Client.call command arguments) = (.error _, _) :=
        Client.perform_bind_of_error (Client.perform_request_of_stopped hw)
      obtain ⟨y, hy, hcompletes⟩ := step_refuse (by rw [ht]; rfl) hp hc hr hw
      rw [Talk.run_call_of_error next hcall]
      exact ⟨y, .single hy, hcompletes⟩
    | true =>
      obtain ⟨c', hrequest, -⟩ := @Client.perform_request_of_writing c command arguments hw
      have hcall := Client.perform_call hrequest
      rcases reaches_answer ht hp hc hr hw hrequest with
        ⟨outcome, s, t, heq, hs, hanswered, hfree, hrests⟩ | ⟨heq, s, hs, hstuck⟩
      · cases outcome with
        | error e =>
          rw [Talk.run_call_of_error next (hcall.trans (Prod.ext heq rfl))]
          exact ⟨_, hs.tail (.fail ht rfl hanswered), rfl, .inl ⟨_, rfl, rfl⟩⟩
        | ok body =>
          obtain ⟨y, hy, hcompletes⟩ := ih body
            (x := ⟨t, next body, none, x.outcomes ++ [.ok body]⟩) rfl rfl hfree hrests
          rw [Talk.run_call_of_ok next (hcall.trans (Prod.ext heq rfl)), Course.after_after]
          exact ⟨y, .trans (hs.tail (.answer ht rfl hanswered)) hy, hcompletes⟩
      · rw [Talk.run_call_of_error next (hcall.trans (Prod.ext heq rfl))]
        exact ⟨_, hs, by simp [Course.halted, Course.after], .inr ⟨rfl, hstuck⟩⟩
  | notify command arguments next ih =>
    cases hw : c.writing with
    | false =>
      obtain ⟨y, hy, hcompletes⟩ := step_refuse (by rw [ht]; rfl) hp hc hr hw
      rw [Talk.run_notify_of_error next (Client.perform_notify_of_stopped hw)]
      exact ⟨y, .single hy, hcompletes⟩
    | true =>
      obtain ⟨c', hrequest, -⟩ := @Client.perform_request_of_writing c command arguments hw
      obtain ⟨s, t, hhand, hsilent, hfree, hrests⟩ :=
        @Threads.Rests.request c command arguments _ hr hc hw
      rw [hrequest] at hrests
      have hnotify : c.perform (Client.notify command arguments) = (.ok (), c') :=
        Client.perform_bind_of_ok hrequest
      have hs : ReflTransGen Step x ⟨t, next, none, x.outcomes ++ [.ok none]⟩ :=
        .head (.notify ht hp hhand) (reaches_of_silent hsilent)
      obtain ⟨y, hy, hcompletes⟩ := ih
        (x := ⟨t, next, none, x.outcomes ++ [.ok none]⟩) rfl rfl hfree hrests
      rw [Talk.run_notify_of_ok next hnotify, Course.after_after]
      exact ⟨y, hs.trans hy, hcompletes⟩

/-- Whatever the room of its output, the client is one schedule of the threads. -/
theorem exists_run_of_client (talk : Talk α) (sent : List UInt8) (room : Option Nat) :
    ∃ n y, Run n (start talk sent room false) y ∧
      Completes (talk.run (.ofServer sent room)) y := by
  have hread : ReflTransGen Step (start talk sent room false) _ :=
    reaches_of_silent (Threads.reads_all (.start sent room false))
  obtain ⟨y, hy, hcompletes⟩ := reaches_course talk rfl rfl rfl
    (x := { start talk sent room false with
      threads := { Threads.start sent room false with
        inbound := Inbound.ofStream sent
        unread := [] } })
    (c := .ofServer sent room) ⟨rfl, rfl, rfl, rfl, rfl, rfl, rfl, rfl⟩
  obtain ⟨n, hn⟩ := exists_run (hread.trans hy)
  exact ⟨n, y, hn, hcompletes⟩

end Talking
end BufferCheck.Server
