import BufferCheck.Proofs.Server.Schedule
import BufferCheck.Proofs.Server.Stream

/-! A caller between the threads keeps to the course that its talk takes if no write fails, until a
failed write ends it. -/
namespace BufferCheck.Server

variable {α : Type}

namespace Talking
open Talk

variable {x y : Talking α} {course : Course α}

/-- A caller keeps to a course, so far or to its end, unless a failed write has ended its talk. -/
inductive Follows (course : Course α) (x : Talking α) : Prop
  /-- The course goes on with the next operation. -/
  | ready (c : Client) (hm : x.threads.Mirrors c) (hc : x.threads.caller = .free)
      (hp : x.pending = none) (h : course = (x.talk.run c).after x.outcomes)
  /-- It goes on with the response to a call. -/
  | pending (c : Client) (next : Option Json → Talk α) (seq : Nat) (command : String)
      (arguments : Json) (hm : x.threads.Mirrors c)
      (hc : x.threads.caller = .free ∨ x.threads.caller = .waiting seq command)
      (hp : x.pending = some seq) (ht : x.talk = .call command arguments next)
      (h : course = (resume next seq command c).after x.outcomes)
  | ended (result : Except EngineError α) (hp : x.pending = none) (ht : x.talk = .finish result)
      (hr : course.result = result.mapError .failed) (h : x.outcomes = course.outcomes)
  | broken (before : List Outcome) (text : String) (hw : x.threads.writer.HasFailed)
      (hp : x.pending = none) (ht : x.talk = .finish (.error (.io text)))
      (h : before <+: course.outcomes) (hlt : before.length < course.operations)
      (ho : x.outcomes = before ++ [.error (.io text)])

theorem follows_start (talk : Talk α) (sent : List UInt8) (room : Option Nat) (patient : Bool) :
    Follows (talk.run (.ofServer sent none)) (start talk sent room patient) :=
  .ready (.ofServer sent none) (Threads.mirrors_start sent room patient) rfl rfl rfl

/-- A failed write can end any operation of a course. -/
theorem Follows.of_failed {more : Course α} {before : List Outcome} {text : String}
    (hw : x.threads.writer.HasFailed) (hp : x.pending = none)
    (ht : x.talk = .finish (.error (.io text))) (ho : x.outcomes = before ++ [.error (.io text)])
    (hcourse : course = more.after before) (hmore : 0 < more.operations) : Follows course x := by
  subst hcourse
  refine .broken before text hw hp ht ⟨more.outcomes, rfl⟩ ?_ ho
  rw [Course.operations_after]
  omega

/-- A caller that has finished makes no move. -/
theorem silent_of_finished {result : Except EngineError α} (ht : x.talk = .finish result)
    (h : Step x y) : ∃ t, x.threads.Step .silent t ∧ y = { x with threads := t } := by
  cases h with
  | silent h => exact ⟨_, h, rfl⟩
  | refuse hr => simp [ht, request?] at hr
  | _ => simp_all

theorem Follows.step_ready {c : Client} (hm : x.threads.Mirrors c) (hc : x.threads.caller = .free)
    (hp : x.pending = none) (hcourse : course = (x.talk.run c).after x.outcomes) (h : Step x y) :
    Follows course y := by
  cases h with
  | silent h =>
    obtain ⟨htc, hm | ⟨seq, command, -, -, hwait, -⟩⟩ := hm.of_silent h
    · exact .ready c hm (htc.trans hc) hp hcourse
    · cases hc.symm.trans hwait
  | @hand command arguments next seq t ht _ h =>
    obtain ⟨c', he, hn, hq, hrun⟩ := run_call next command arguments hm.endless
    obtain ⟨rfl, htc, hm⟩ := hm.of_handed h he hn hq
    rw [ht, hrun] at hcourse
    exact .pending c' next _ command arguments hm (.inl htc) rfl ht hcourse
  | @notify command arguments next seq t ht _ h =>
    obtain ⟨c', he, hn, hq, hrun⟩ := run_notify next command arguments hm.endless
    obtain ⟨-, htc, hm⟩ := hm.of_handed h he hn hq
    rw [ht, hrun, Course.after_after] at hcourse
    exact .ready c' hm htc rfl hcourse
  | refuse ht _ h =>
    exact .of_failed (Threads.writer_of_refused h) rfl rfl rfl hcourse (operations_run_pos ht c)
  | _ => simp_all

theorem Follows.step_pending {c : Client} {next : Option Json → Talk α} {seq : Nat}
    {command : String} {arguments : Json} (hm : x.threads.Mirrors c)
    (hc : x.threads.caller = .free ∨ x.threads.caller = .waiting seq command)
    (hp : x.pending = some seq) (ht : x.talk = .call command arguments next)
    (hcourse : course = (resume next seq command c).after x.outcomes) (h : Step x y) :
    Follows course y := by
  have hown : ∀ seq' command', x.threads.caller = .waiting seq' command' →
      seq' = seq ∧ command' = command := by
    intro seq' command' hwait
    rcases hc with hc | hc
    · cases hc.symm.trans hwait
    · cases hc.symm.trans hwait
      exact ⟨rfl, rfl⟩
  cases h with
  | silent h =>
    obtain ⟨htc, hm | ⟨seq', command', item, more, hwait, hq, hd, hm⟩⟩ := hm.of_silent h
    · exact .pending c next seq command arguments hm (htc ▸ hc) hp ht hcourse
    · obtain ⟨rfl, rfl⟩ := hown _ _ hwait
      rw [resume_of_none hq hd] at hcourse
      exact .pending _ next _ _ arguments hm (.inr (htc.trans hwait)) hp ht hcourse
  | wait ht' hp' h =>
    obtain rfl : seq = _ := Option.some.inj (hp.symm.trans hp')
    obtain ⟨rfl, -, -⟩ := Talk.call.inj (ht.symm.trans ht')
    obtain ⟨hwait, hm⟩ := hm.of_waits h
    exact .pending c next _ _ arguments hm (.inr hwait) hp ht hcourse
  | answer ht' hp' h =>
    obtain ⟨rfl, -, rfl⟩ := Talk.call.inj (ht.symm.trans ht')
    obtain ⟨seq', command', hwait, hfree, ⟨item, more, hq, hd, hm⟩ | ⟨-, hio⟩⟩ := hm.of_answered h
    · obtain ⟨rfl, rfl⟩ := hown _ _ hwait
      rw [resume_of_ok hq hd, Course.after_after] at hcourse
      exact .ready _ (hm _ rfl) hfree rfl hcourse
    · cases hio
  | fail ht' hp' h =>
    obtain ⟨rfl, -, rfl⟩ := Talk.call.inj (ht.symm.trans ht')
    obtain ⟨seq', command', hwait, -, ⟨item, more, hq, hd, -⟩ | ⟨hw, hio⟩⟩ := hm.of_answered h
    · obtain ⟨rfl, rfl⟩ := hown _ _ hwait
      rw [resume_of_error hq hd] at hcourse
      exact .ended _ rfl rfl (by rw [hcourse]; rfl) (by rw [hcourse]; rfl)
    · obtain rfl := Except.error.inj hio
      exact .of_failed hw rfl rfl rfl hcourse (operations_resume_pos next _ _ c)
  | _ => simp_all

theorem Follows.step (hx : Follows course x) (h : Step x y) : Follows course y := by
  cases hx with
  | ready c hm hc hp hcourse => exact step_ready hm hc hp hcourse h
  | pending c next seq command arguments hm hc hp ht hcourse =>
    exact step_pending hm hc hp ht hcourse h
  | ended result hp ht hr ho =>
    obtain ⟨t, -, rfl⟩ := silent_of_finished ht h
    exact .ended result hp ht hr ho
  | broken before text hw hp ht hpre hlt ho =>
    obtain ⟨t, hs, rfl⟩ := silent_of_finished ht h
    exact .broken before text (Threads.hasFailed_of_step hs hw) hp ht hpre hlt ho

/-- A caller that has not finished has a move, or it is stuck where its course is blocked. -/
theorem Follows.finished_or_step (hx : Follows course x) :
    (∃ result, x.talk = .finish result) ∨ (∃ y, Step x y) ∨
      x.threads.Stuck ∧ x.outcomes = course.outcomes ∧ course.result = .error .blocked := by
  cases hx with
  | ready c hm hc hp _ =>
    cases ht : x.talk with
    | finish result => exact .inl ⟨result, rfl⟩
    | call command arguments next =>
      by_cases hw : x.threads.writer = .stopped
      · exact .inr (.inl ⟨_, .refuse (by rw [ht]; rfl) hp (.refuse hc hw)⟩)
      · exact .inr (.inl ⟨_, .hand ht hp (.hand hc hw)⟩)
    | notify command arguments next =>
      by_cases hw : x.threads.writer = .stopped
      · exact .inr (.inl ⟨_, .refuse (by rw [ht]; rfl) hp (.refuse hc hw)⟩)
      · exact .inr (.inl ⟨_, .notify ht hp (.hand hc hw)⟩)
  | pending c next seq command arguments hm hc hp ht hcourse =>
    refine .inr ?_
    rcases hc with hc | hc
    · exact .inl ⟨_, .wait ht hp (.wait hc)⟩
    cases hi : x.threads.inbound with
    | nil =>
      cases hm.left with
      | broken before after _ hi' => simp [hi] at hi'
      | whole hw hq =>
        cases hu : x.threads.unread with
        | cons item rest => exact .inl ⟨_, .silent (.deliver hu)⟩
        | nil =>
          -- Nothing is left, so the course is blocked here as well.
          rw [resume_of_nil (by rw [hq, hi, hu]; rfl)] at hcourse
          rcases Threads.idle_or_step hw with hidle | ⟨t, hs⟩
          · refine .inr ⟨⟨⟨seq, command, hc⟩, hi, hu, hidle⟩, ?_, by rw [hcourse]; rfl⟩
            rw [hcourse]
            simp [Course.after, Course.halted]
          · exact .inl ⟨_, .silent hs⟩
    | cons item rest =>
      left
      cases hd : item.decides? seq command with
      | none => exact ⟨_, .silent (.pass hc hi hd)⟩
      | some outcome =>
        cases outcome with
        | ok body => exact ⟨_, .answer ht hp (.decide hc hi hd)⟩
        | error e => exact ⟨_, .fail ht hp (.decide hc hi hd)⟩
  | ended result _ ht _ _ => exact .inl ⟨_, ht⟩
  | broken _ _ _ _ ht _ _ _ => exact .inl ⟨_, ht⟩

theorem Follows.run {n : Nat} (hx : Follows course x) (h : Run n x y) : Follows course y := by
  induction h with
  | refl => exact hx
  | step _ hs ih => exact (ih hx).step hs

theorem Step.threads (h : Step x y) : ∃ a, x.threads.Step a y.threads := by
  cases h <;> exact ⟨_, ‹_›⟩

/-- An output without bounds lets no write fail. -/
theorem endless_of_run {n : Nat} (h : Run n x y)
    (hx : x.threads.output.room = none ∧ x.threads.writer = .writing) :
    y.threads.output.room = none ∧ y.threads.writer = .writing := by
  induction h with
  | refl => exact hx
  | step _ hs ih =>
    obtain ⟨a, hs⟩ := hs.threads
    exact Threads.endless_of_step hs (ih hx)

/-- The caller was told what a course begins with, and all of it if it has finished; or a failed
write has ended its talk, with the error of a stream in place of an operation of the course. -/
def KeepsTo (course : Course α) (x : Talking α) : Prop :=
  (x.outcomes <+: course.outcomes ∧ ∀ result, x.talk = .finish result →
    x.outcomes = course.outcomes ∧ course.result = result.mapError .failed) ∨
  (x.threads.writer.HasFailed ∧ ∃ before text, before <+: course.outcomes ∧
    before.length < course.operations ∧ x.outcomes = before ++ [.error (.io text)] ∧
    x.talk = .finish (.error (.io text)))

theorem Follows.keepsTo (hx : Follows course x) : KeepsTo course x := by
  cases hx with
  | ready c _ _ _ h =>
    refine .inl ⟨⟨(x.talk.run c).outcomes, by rw [h]; rfl⟩, fun result ht => ?_⟩
    simp [h, ht, Talk.run, Course.after]
  | pending c next seq command arguments _ _ _ ht h =>
    refine .inl ⟨⟨(resume next seq command c).outcomes, by rw [h]; rfl⟩, fun result ht' => ?_⟩
    cases ht.symm.trans ht'
  | ended result _ ht hr h =>
    refine .inl ⟨h ▸ List.prefix_rfl, fun result' ht' => ⟨h, ?_⟩⟩
    obtain rfl := Talk.finish.inj (ht'.symm.trans ht)
    exact hr
  | broken before text hw _ ht hpre hlt ho => exact .inr ⟨hw, before, text, hpre, hlt, ho, ht⟩

section Bound

/-- How many moves the threads can make by themselves, at most. -/
def work (s : Threads) : Nat :=
  2 * s.unread.length + s.inbound.length + s.outbound.length +
    match s.writer with
    | .writing => 3
    | .failed => 1
    | .stalled | .stopped => 0

/-- How far the caller has come with its operation. -/
def stage (x : Talking α) : Nat :=
  match x.pending, x.threads.caller with
  | none, _ => 0
  | some _, .free => 2
  | some _, .waiting _ _ => 3

theorem work_lt_of_silent {s t : Threads} (h : s.Step .silent t) :
    work t < work s ∧ t.caller = s.caller := by
  cases h <;> simp_all [work] <;> omega

/-- A move uses up work of the threads, or it takes the caller on. -/
theorem work_add_lt (h : Step x y) :
    work y.threads + 4 * x.outcomes.length + stage x
      < work x.threads + 4 * y.outcomes.length + stage y := by
  cases h with
  | silent h =>
    have hstage : ∀ t : Threads, t.caller = x.threads.caller →
        stage { x with threads := t } = stage x := by
      intro t ht
      simp only [stage, ht]
    obtain ⟨hlt, hcaller⟩ := work_lt_of_silent h
    rw [hstage _ hcaller]
    simp only
    omega
  | hand ht hp h =>
    cases h with
    | hand hc hw => simp [stage, work, hp, hc]; omega
  | wait ht hp h =>
    cases h with
    | wait hc => simp [stage, work, hp, hc]
  | answer ht hp h =>
    cases h with
    | decide hc hi hd => simp [stage, work, hp, hc, hi]; omega
  | fail ht hp h =>
    cases h with
    | decide hc hi hd => simp [stage, work, hp, hc, hi]; omega
    | disconnect hc hi hu hw => simp [stage, work, hp, hc, hi]; omega
  | notify ht hp h =>
    cases h with
    | hand hc hw => simp [stage, work, hp, hc]; omega
  | refuse ht hp h =>
    cases h with
    | refuse hc hw => simp [stage, work, hp]

theorem Run.work_add_le {n : Nat} (h : Run n x y) :
    n + work y.threads + 4 * x.outcomes.length + stage x
      ≤ work x.threads + 4 * y.outcomes.length + stage y := by
  induction h with
  | refl => omega
  | step _ hs ih =>
    have := work_add_lt hs
    omega

/-- A caller is not told more than its course has, and less while it waits for an answer. -/
theorem Follows.stage_add_le (hx : Follows course x) :
    4 * x.outcomes.length + stage x ≤ 4 * course.operations := by
  cases hx with
  | ready c _ _ hp h =>
    rw [h, Course.operations_after]
    simp only [stage, hp]
    omega
  | pending c next seq command arguments _ _ hp ht h =>
    have hown := operations_resume_pos next seq command c
    have hstage : stage x ≤ 3 := by
      unfold stage
      split <;> omega
    rw [h, Course.operations_after]
    omega
  | ended _ hp _ _ h =>
    have hle := course.length_le_operations
    simp only [h, stage, hp]
    omega
  | broken before text _ hp _ _ hlt ho =>
    simp only [ho, stage, hp, List.length_append, List.length_singleton]
    omega

end Bound

end Talking

section Build

theorem Talk.result_ofCalls (calls : List PlannedCall) (next : List Diagnostic → Talk α)
    (c : Client) : ((ofCalls calls next).run c).result =
      match c.perform (runCalls calls) with
      | (.ok found, c') => ((next found).run c').result
      | (.error e, _) => .error e := by
  induction calls generalizing c next with
  | nil => rfl
  | cons planned rest ih =>
    rw [ofCalls]
    cases hcall : c.perform (Client.call planned.command planned.arguments) with
    | mk outcome c' =>
      cases outcome with
      | error e =>
        have hask : c.perform (ask planned) = (.error e, c') := Client.perform_bind_of_error hcall
        rw [run_call_of_error _ hcall, runCalls_of_error hask, Course.result_halted]
      | ok body =>
        have hask : c.perform (ask planned) = ((planned.read body).mapError .failed, c') :=
          Client.perform_bind_of_ok hcall
        rw [run_call_of_ok _ hcall]
        cases hread : planned.read body with
        | error e =>
          rw [hread] at hask
          rw [runCalls_of_error hask]
          rfl
        | ok found =>
          rw [hread] at hask
          rw [runCalls_of_ok hask]
          simp only [Course.after, ih]
          obtain ⟨outcome, last⟩ := c'.perform (runCalls rest)
          cases outcome <;> rfl

/-- What comes of the talk of a build is the outcome of the build. -/
theorem Session.result_talk (s : Session) (task : BuildTask) (roots : List Root) (c : Client) :
    ((s.talk task roots).run c).result = (c.perform (s.buildRoots task roots)).1 := by
  rw [talk, Talk.result_ofCalls]
  cases hcalls : c.perform (runCalls (s.plan task.options roots)) with
  | mk outcome c' =>
    cases outcome with
    | error e => rw [buildRoots_of_error hcalls]
    | ok found =>
      rw [buildRoots_of_ok hcalls]
      cases hexit : c'.perform (Client.notify Command.exit .null) with
      | mk outcome last =>
        cases outcome with
        | error e =>
          simp only [Talk.run_notify_of_error _ hexit, Course.result_halted]
          rfl
        | ok _ =>
          simp only [Talk.run_notify_of_ok _ hexit]
          rfl

end Build

namespace Talking

/-- However the threads move and whenever a write fails, a caller is told what it is told if no
write fails, or the error of a stream instead of it, and then nothing more. A build gives what it
gives if no write fails, or the error of a stream. After so many moves at most no move is left; then
the caller is at its end, or it waits for ever as it does if no write fails. That takes a reader
that dies without a word. -/
theorem keepsTo_of_run (sent : List UInt8) (room : Option Nat) (patient : Bool) :
    (∀ {α : Type} (talk : Talk α) (n : Nat) (x : Talking α),
      Run n (start talk sent room patient) x →
      let course := talk.run (.ofServer sent none)
      KeepsTo course x ∧
        (room = none → x.threads.writer = .writing) ∧
        ((∃ result, x.talk = .finish result) ∨ (∃ y, Step x y) ∨
          x.threads.Stuck ∧ x.outcomes = course.outcomes ∧ course.result = .error .blocked) ∧
        (course.result = .error .blocked → (Frame.readAll sent).2 = some .oversizedBody) ∧
        n ≤ 2 * (Inbound.ofStream sent).length + 3 + 4 * course.operations) ∧
    ∀ (s : Session) (task : BuildTask) (host : SourceProvider) (n : Nat) (x : Talking Program)
      (result : Except EngineError Program),
      Run n (start (s.talk task (s.given task host)) sent room patient) x →
        x.talk = .finish result →
        result.mapError .failed = (s.build task host (.ofServer sent none)).1.outcome ∨
          ∃ text, result = .error (.io text) := by
  refine ⟨fun talk n x h => ?_, fun s task host n x result h ht => ?_⟩
  · intro course
    have hx : Follows course x := (follows_start talk sent room patient).run h
    have hblocked : course.result = .error .blocked →
        (Frame.readAll sent).2 = some .oversizedBody := by
      intro hcourse
      by_contra hmarked
      exact talk.result_ne_blocked ⟨rfl, rfl⟩ (closing_ofStream hmarked) hcourse
    refine ⟨hx.keepsTo, fun hroom => (endless_of_run h ⟨hroom, rfl⟩).2, hx.finished_or_step,
      hblocked, ?_⟩
    have hwork := h.work_add_le
    have hstage := hx.stage_add_le
    have hstart : work (start talk sent room patient).threads
        = 2 * (Inbound.ofStream sent).length + 3 := by
      simp [work, start, Threads.start]
    have hnone : (start talk sent room patient).outcomes.length = 0 := rfl
    have hidle : stage (start talk sent room patient) = 0 := rfl
    omega
  · have hx := (follows_start (s.talk task (s.given task host)) sent room patient).run h
    have hbuild : ((s.talk task (s.given task host)).run (.ofServer sent none)).result
        = (s.build task host (.ofServer sent none)).1.outcome :=
      (s.result_talk task _ _).trans (s.build_eq task host _).1.symm
    rcases hx.keepsTo with ⟨-, hfinish⟩ | ⟨-, before, text, -, -, -, hio⟩
    · exact .inl ((hfinish result ht).2.symm.trans hbuild)
    · exact .inr ⟨text, Talk.finish.inj (ht.symm.trans hio)⟩

section Sample

/-- A response to the first request. -/
def sampleResponse : Json :=
  .array [.string "response", .number (.integer ⟨1, by decide, by decide⟩), .bool true]

/-- The talk of a build without roots. -/
def sampleTalk : Talk Program := (⟨"/p", "q"⟩ : Session).talk ⟨[], .empty⟩ []

theorem ofStream_sampleResponse :
    Inbound.ofStream (Frame.ofJson sampleResponse) = [.message sampleResponse, .closed] := by
  have hplain : sampleResponse.Plain Json.Reader.maxLevels := by
    refine .array ?_
    rintro v (_ | ⟨_, _ | ⟨_, _ | ⟨_, ⟨⟩⟩⟩⟩)
    · exact .string _ _
    · exact .integer _ _
    · exact .bool _ _
  have hs : ∀ v ∈ [sampleResponse], Frame.Sendable v := by
    simpa using ⟨hplain, by decide +kernel⟩
  simpa using Frame.ofStream_frames hs

/-- If no write fails, the second call finds that the server has ended. -/
theorem run_sampleTalk :
    sampleTalk.run (.ofServer (Frame.ofJson sampleResponse) none)
      = ⟨[.ok none, .error .exited], .error (.failed .exited)⟩ := by
  rw [Client.ofServer, ofStream_sampleResponse]
  rfl

/-- An input that takes nothing lets every request fail. -/
theorem write_line_of_full (r : Request) :
    (Output.fresh (some 0)).write r.line = (⟨[[]], some 0⟩, false) := by
  simp [Output.write, Output.fresh, Request.line]

/-- If the first write fails, the first call is answered all the same, but the second is not taken.
-/
theorem run_sampleTalk_of_full :
    sampleTalk.run (.ofServer (Frame.ofJson sampleResponse) (some 0))
      = ⟨[.ok none, .error (.io Client.stoppedText)],
        .error (.failed (.io Client.stoppedText))⟩ := by
  rw [Client.ofServer, ofStream_sampleResponse]
  have hrequest : ∀ command arguments, Client.perform
      { inbound := [.message sampleResponse, .closed], output := .fresh (some 0) }
      (Client.request command arguments)
      = (.ok 1, ⟨2, [.message sampleResponse, .closed, .ioError Output.refusal], ⟨[[]], some 0⟩,
        false, false, [⟨1, command, arguments⟩]⟩) := by
    intro command arguments
    change Client.request command arguments
      { inbound := [.message sampleResponse, .closed], output := .fresh (some 0) } = _
    simp only [Client.request, write_line_of_full]
    rfl
  rw [sampleTalk, Session.talk, Session.plan, List.cons_append, List.cons_append, Talk.ofCalls,
    Talk.run_call_of_ok _ (Client.perform_call (hrequest _ _))]
  rfl

end Sample

theorem keepsTo_sampleTalk :
    ∃ n y, Run n (start sampleTalk (Frame.ofJson sampleResponse) (some 0) false) y ∧
      y.outcomes = [.ok none, .error (.io Client.stoppedText)] ∧
      KeepsTo (sampleTalk.run (.ofServer (Frame.ofJson sampleResponse) none)) y ∧ n ≤ 15 := by
  obtain ⟨n, y, hrun, houtcomes, -⟩ :=
    exists_run_of_client sampleTalk (Frame.ofJson sampleResponse) (some 0)
  rw [run_sampleTalk_of_full] at houtcomes
  obtain ⟨hkeeps, -, -, -, hn⟩ :=
    (keepsTo_of_run (Frame.ofJson sampleResponse) (some 0) false).1 sampleTalk n y hrun
  rw [ofStream_sampleResponse, run_sampleTalk] at hn
  exact ⟨n, y, hrun, houtcomes, hkeeps, hn⟩

end Talking
end BufferCheck.Server
