import BufferCheck.Proofs.Server.Exchange
import BufferCheck.Server.Talk

/-! A write that fails puts one error among the items that the caller takes, at a place that depends
on how the threads moved, and changes nothing else of what the caller is told. -/
namespace BufferCheck.Server

variable {α : Type}

namespace Threads

variable {s t : Threads} {queue : List Inbound} {a : Action} {outcome : Outcome}

/-- The items that the caller has still to take are these, but for the error of a failed write. -/
inductive Left (s : Threads) (queue : List Inbound) : Prop
  | whole (hw : ¬ s.writer.HasFailed) (h : queue = s.inbound ++ s.unread)
  | broken (before after : List Inbound) (hw : s.writer.HasFailed)
      (hi : s.inbound = before ++ .ioError Output.refusal :: after)
      (h : queue = before ++ (after ++ s.unread))

/-- A writer that has failed is not seen to write again. -/
theorem hasFailed_of_step (h : Step s a t) (hw : s.writer.HasFailed) : t.writer.HasFailed := by
  cases h <;> simp_all [Writer.HasFailed]

theorem endless_of_step (h : Step s a t)
    (hs : s.output.room = none ∧ s.writer = .writing) :
    t.output.room = none ∧ t.writer = .writing := by
  cases h with
  | @write r rest out hw ho hout =>
    rw [Output.write, hs.1] at hout
    obtain rfl := (Prod.mk.inj hout).1
    exact ⟨rfl, hw⟩
  | fail hw ho hp hout => simp [Output.write, hs.1] at hout
  | stall hw ho hp hout => simp [Output.write, hs.1] at hout
  | stop hw => simp [hs.2] at hw
  | _ => exact hs

theorem Left.congr (hl : s.Left queue) (hw : t.writer = s.writer) (hi : t.inbound = s.inbound)
    (hu : t.unread = s.unread) : t.Left queue := by
  cases hl with
  | whole hw' h => exact .whole (hw ▸ hw') (by rw [h, hi, hu])
  | broken before after hw' hi' h =>
    exact .broken before after (hw ▸ hw') (hi.trans hi') (by rw [h, hu])

/-- The first item that the caller takes is the first that is left, or the error. -/
theorem Left.of_taken {item : Inbound} {rest : List Inbound} (hl : s.Left queue)
    (hi : s.inbound = item :: rest) :
    (∃ more, queue = item :: more ∧
      ∀ t : Threads, t.writer = s.writer → t.inbound = rest → t.unread = s.unread → t.Left more) ∨
      (s.writer.HasFailed ∧ item = .ioError Output.refusal) := by
  cases hl with
  | whole hw h =>
    refine .inl ⟨rest ++ s.unread, by simp [h, hi], fun t htw hti htu => ?_⟩
    exact .whole (htw ▸ hw) (by rw [hti, htu])
  | broken before after hw hi' h =>
    rw [hi] at hi'
    cases before with
    | nil => exact .inr ⟨hw, (List.cons.inj hi').1⟩
    | cons first before =>
      obtain ⟨rfl, rfl⟩ := List.cons.inj hi'
      refine .inl ⟨before ++ (after ++ s.unread), h, fun t htw hti htu => ?_⟩
      exact .broken before after (htw ▸ hw) hti (by rw [htu])

/-- Silent moves keep what is left, or the caller passes over the first of it. -/
theorem Left.of_silent (hl : s.Left queue) (h : Step s .silent t) :
    t.nextSeq = s.nextSeq ∧ t.caller = s.caller ∧
      (t.Left queue ∨ ∃ seq command item more, s.caller = .waiting seq command ∧
        queue = item :: more ∧ item.decides? seq command = none ∧ t.Left more) := by
  cases h with
  | @deliver item rest hu =>
    refine ⟨rfl, rfl, .inl ?_⟩
    cases hl with
    | whole hw h => exact .whole hw (by simp [h, hu])
    | broken before after hw hi h =>
      exact .broken before (after ++ [item]) hw (by simp [hi]) (by simp [h, hu])
  | write => exact ⟨rfl, rfl, .inl (hl.congr rfl rfl rfl)⟩
  | fail hw ho hp hout =>
    refine ⟨rfl, rfl, .inl ?_⟩
    cases hl with
    | whole _ h => exact .broken s.inbound [] (.inl rfl) rfl h
    | broken _ _ hfailed => simp [Writer.HasFailed, hw] at hfailed
  | stall hw ho hp hout =>
    refine ⟨rfl, rfl, .inl ?_⟩
    cases hl with
    | whole _ h => exact .whole (by simp [Writer.HasFailed]) h
    | broken _ _ hfailed => simp [Writer.HasFailed, hw] at hfailed
  | stop hw =>
    refine ⟨rfl, rfl, .inl ?_⟩
    cases hl with
    | whole hw' => exact absurd (.inl hw) hw'
    | broken before after _ hi h => exact .broken before after (.inr rfl) hi h
  | @pass seq command item rest hc hi hd =>
    refine ⟨rfl, rfl, .inr ?_⟩
    rcases hl.of_taken hi with ⟨more, rfl, hmore⟩ | ⟨-, rfl⟩
    · exact ⟨seq, command, item, more, hc, rfl, hd, hmore _ rfl rfl rfl⟩
    · simp [Inbound.decides?] at hd

/-- A wait ends with what the first item left means for it, or with the error of a failed write. -/
theorem Left.of_answered (hl : s.Left queue) (h : Step s (.answered outcome) t) :
    ∃ seq command, s.caller = .waiting seq command ∧ t.caller = .free ∧ t.nextSeq = s.nextSeq ∧
      ((∃ item more, queue = item :: more ∧ item.decides? seq command = some outcome ∧
        t.Left more) ∨ (t.writer.HasFailed ∧ outcome = .error (.io Output.refusal))) := by
  cases h with
  | @decide seq command item rest _ hc hi hd =>
    refine ⟨seq, command, hc, rfl, rfl, ?_⟩
    rcases hl.of_taken hi with ⟨more, rfl, hmore⟩ | ⟨hw, rfl⟩
    · exact .inl ⟨item, more, rfl, hd, hmore _ rfl rfl rfl⟩
    · exact .inr ⟨hw, (Option.some.inj hd).symm⟩
  | disconnect hc hi hu hw =>
    -- The error of a failed write is in the queue before the writer stops.
    cases hl with
    | whole hw' => exact absurd (.inr hw) hw'
    | broken before after _ hi' => simp [hi] at hi'

end Threads

/-- The last item ends with an error each wait that takes it. -/
def Closing (queue : List Inbound) : Prop :=
  ∃ items last, queue = items ++ [last] ∧
    ∀ seq command, ∃ e, last.decides? seq command = some (.error e)

section Closing

variable {item : Inbound} {rest : List Inbound}

/-- A reader that does not die tells how the stream ended. -/
theorem closing_ofStream {sent : List UInt8}
    (h : (Frame.readAll sent).2 ≠ some .oversizedBody) : Closing (Inbound.ofStream sent) := by
  have hending : ∀ e, e ≠ some .oversizedBody → ∃ last, Inbound.ending? e = some last ∧
      ∀ seq command, ∃ e, last.decides? seq command = some (.error e) := by
    rintro (_ | _ | _ | _ | _ | _ | _ | _) he
    all_goals first | exact absurd rfl he | exact ⟨_, rfl, fun _ _ => ⟨_, rfl⟩⟩
  obtain ⟨last, hlast, hends⟩ := hending _ h
  exact ⟨_, last, by rw [Inbound.ofStream, hlast]; rfl, hends⟩

theorem Closing.tail (h : Closing (item :: rest)) (seq : Nat) (command : String)
    (hd : ∀ e, item.decides? seq command ≠ some (.error e)) : Closing rest := by
  obtain ⟨items, last, hq, hlast⟩ := h
  cases items with
  | nil =>
    obtain ⟨e, he⟩ := hlast seq command
    obtain rfl : item = last := (List.cons.inj hq).1
    exact absurd he (hd e)
  | cons first items => exact ⟨items, last, (List.cons.inj hq).2, hlast⟩

theorem Closing.of_await {queue : List Inbound} (h : Closing queue) (seq : Nat)
    (command : String) : (∃ e rest, Inbound.await? seq command queue = some (.error e, rest)) ∨
      ∃ body rest, Inbound.await? seq command queue = some (.ok body, rest) ∧ Closing rest := by
  induction queue with
  | nil =>
    obtain ⟨items, last, hnil, -⟩ := h
    simp at hnil
  | cons item queue ih =>
    rw [Inbound.await?]
    cases hd : item.decides? seq command with
    | none => exact ih (h.tail seq command (by simp [hd]))
    | some outcome =>
      cases outcome with
      | error e => exact .inl ⟨e, queue, rfl⟩
      | ok body => exact .inr ⟨body, queue, rfl, h.tail seq command (by simp [hd])⟩

end Closing

namespace Course

theorem after_after (course : Course α) (as bs : List Outcome) :
    (course.after bs).after as = course.after (as ++ bs) := by
  simp [after]

theorem length_le_operations (course : Course α) :
    course.outcomes.length ≤ course.operations := by
  unfold operations
  split <;> omega

theorem operations_after (course : Course α) (as : List Outcome) :
    (course.after as).operations = as.length + course.operations := by
  simp only [after, operations, List.length_append]
  split <;> omega

@[simp] theorem result_halted (e : Halt) : (halted e : Course α).result = .error e := by
  cases e <;> rfl

theorem operations_halted (e : Halt) : (halted e : Course α).operations = 1 := by
  cases e <;> rfl

end Course

/-- A call is the request and the wait for its response. -/
theorem Client.perform_call {c c' : Client} {seq : Nat} {command : String} {arguments : Json}
    (hr : c.perform (request command arguments) = (.ok seq, c')) :
    c.perform (call command arguments) = c'.perform (await seq command) := by
  rw [call, perform_bind_of_ok hr]

namespace Talk

variable {c : Client} {next : Option Json → Talk α} {item : Inbound} {rest : List Inbound}
  {seq : Nat} {command : String} {arguments : Json} {body : Option Json}

theorem run_call_of_ok {c' : Client} (next : Option Json → Talk α)
    (h : c.perform (Client.call command arguments) = (.ok body, c')) :
    (call command arguments next).run c = ((next body).run c').after [.ok body] := by
  rw [Client.perform] at h
  rw [run, h]

theorem run_call_of_error {c' : Client} {e : Halt} (next : Option Json → Talk α)
    (h : c.perform (Client.call command arguments) = (.error e, c')) :
    (call command arguments next).run c = .halted e := by
  rw [Client.perform] at h
  rw [run, h]

theorem run_notify_of_ok {c' : Client} (next : Talk α)
    (h : c.perform (Client.notify command arguments) = (.ok (), c')) :
    (notify command arguments next).run c = (next.run c').after [.ok none] := by
  rw [Client.perform] at h
  rw [run, h]

theorem run_notify_of_error {c' : Client} {e : Halt} (next : Talk α)
    (h : c.perform (Client.notify command arguments) = (.error e, c')) :
    (notify command arguments next).run c = .halted e := by
  rw [Client.perform] at h
  rw [run, h]

/-- The course of a talk after a call is handed over, as long as the writer may still tell
something. -/
def resume (next : Option Json → Talk α) (seq : Nat) (command : String) (c : Client) : Course α :=
  match Inbound.await? seq command c.inbound with
  | some (.ok body, rest) => ((next body).run { c with inbound := rest }).after [.ok body]
  | some (.error e, _) => .halted (.failed e)
  | none => .halted .blocked

/-- Without bounds, a call is handed over, and nothing else is done. -/
theorem run_call (next : Option Json → Talk α) (command : String) (arguments : Json)
    (he : c.Endless) : ∃ c' : Client, c'.Endless ∧ c'.nextSeq = Client.succSeq c.nextSeq ∧
      c'.inbound = c.inbound ∧
      (call command arguments next).run c = resume next c.nextSeq command c' := by
  obtain ⟨c', hr, hc⟩ := @Client.perform_request_of_writing c command arguments he.1
  have he' := hc.endless he
  have hcall := Client.perform_call hr
  refine ⟨c', he', hc.nextSeq, hc.inbound he'.1, ?_⟩
  rw [resume]
  cases hawait : Inbound.await? c.nextSeq command c'.inbound with
  | none =>
    rw [Client.perform_await_of_none hawait, Client.deserted, he'.1, Bool.or_true, if_pos rfl]
      at hcall
    exact run_call_of_error next hcall
  | some taken =>
    obtain ⟨outcome, rest⟩ := taken
    rw [Client.perform_await_of_some hawait] at hcall
    cases outcome with
    | ok body => exact run_call_of_ok next hcall
    | error e => exact run_call_of_error next hcall

theorem run_notify (next : Talk α) (command : String) (arguments : Json) (he : c.Endless) :
    ∃ c' : Client, c'.Endless ∧ c'.nextSeq = Client.succSeq c.nextSeq ∧ c'.inbound = c.inbound ∧
      (notify command arguments next).run c = (next.run c').after [.ok none] := by
  obtain ⟨c', hc, hr⟩ := @Client.perform_notify_of_writing c command arguments he.1
  have he' := hc.endless he
  exact ⟨c', he', hc.nextSeq, hc.inbound he'.1, run_notify_of_ok next hr⟩

theorem resume_of_none (hq : c.inbound = item :: rest) (hd : item.decides? seq command = none) :
    resume next seq command c = resume next seq command { c with inbound := rest } := by
  simp only [resume, hq, Inbound.await?, hd]

theorem resume_of_ok (hq : c.inbound = item :: rest)
    (hd : item.decides? seq command = some (.ok body)) :
    resume next seq command c = ((next body).run { c with inbound := rest }).after [.ok body] := by
  simp only [resume, hq, Inbound.await?, hd]

theorem resume_of_error {e : EngineError} (hq : c.inbound = item :: rest)
    (hd : item.decides? seq command = some (.error e)) :
    resume next seq command c = .halted (.failed e) := by
  simp only [resume, hq, Inbound.await?, hd]

theorem resume_of_nil (hq : c.inbound = []) : resume next seq command c = .halted .blocked := by
  simp only [resume, hq, Inbound.await?]

/-- A course that goes on with a call begins one more operation at least. -/
theorem operations_resume_pos (next : Option Json → Talk α) (seq : Nat) (command : String)
    (c : Client) : 0 < (resume next seq command c).operations := by
  unfold resume
  split
  · rw [Course.operations_after]
    exact Nat.add_pos_left Nat.one_pos _
  · rw [Course.operations_halted]
    exact Nat.one_pos
  · rw [Course.operations_halted]
    exact Nat.one_pos

/-- A queue that ends every wait lets no operation wait for ever. -/
theorem result_ne_blocked (talk : Talk α) (he : c.Endless) (hclosing : Closing c.inbound) :
    (talk.run c).result ≠ .error .blocked := by
  induction talk generalizing c with
  | finish result =>
    intro h
    cases result <;> cases h
  | call command arguments next ih =>
    obtain ⟨c', he', -, hq, hrun⟩ := run_call next command arguments he
    rw [← hq] at hclosing
    rw [hrun, resume]
    rcases hclosing.of_await c.nextSeq command with
      ⟨e, rest, ha⟩ | ⟨body, rest, ha, hrest⟩
    · simp [ha, Course.halted]
    · rw [ha]
      exact ih body ⟨he'.1, he'.2⟩ hrest
  | notify command arguments next ih =>
    obtain ⟨c', he', -, hq, hrun⟩ := run_notify next command arguments he
    rw [← hq] at hclosing
    rw [hrun]
    exact ih he' hclosing

theorem operations_run_pos {talk : Talk α} {request : String × Json}
    (h : talk.request? = some request) (c : Client) : 0 < (talk.run c).operations := by
  cases talk with
  | finish => simp [request?] at h
  | call | notify =>
    unfold run
    split
    · rw [Course.operations_after]
      exact Nat.add_pos_left Nat.one_pos _
    · rw [Course.operations_halted]
      exact Nat.one_pos

end Talk

namespace Threads

variable {s t : Threads} {c c' : Client} {seq : Nat} {command : String} {arguments : Json}
  {outcome : Outcome}

/-- A client without bounds that stands where the threads stand. -/
structure Mirrors (s : Threads) (c : Client) : Prop where
  endless : c.Endless
  nextSeq : s.nextSeq = c.nextSeq
  left : s.Left c.inbound

theorem mirrors_start (sent : List UInt8) (room : Option Nat) (patient : Bool) :
    (start sent room patient).Mirrors (.ofServer sent none) :=
  ⟨⟨rfl, rfl⟩, rfl, .whole (by simp [start, Writer.HasFailed]) rfl⟩

theorem Mirrors.of_silent (hm : s.Mirrors c) (h : Step s .silent t) :
    t.caller = s.caller ∧ (t.Mirrors c ∨ ∃ seq command item more, s.caller = .waiting seq command ∧
      c.inbound = item :: more ∧ item.decides? seq command = none ∧
      t.Mirrors { c with inbound := more }) := by
  obtain ⟨hn, hc, hl | ⟨seq, command, item, more, hwait, hq, hd, hl⟩⟩ := hm.left.of_silent h
  · exact ⟨hc, .inl ⟨hm.endless, hn.trans hm.nextSeq, hl⟩⟩
  · exact ⟨hc, .inr ⟨seq, command, item, more, hwait, hq, hd, hm.endless, hn.trans hm.nextSeq, hl⟩⟩

theorem Mirrors.of_handed (hm : s.Mirrors c) (h : Step s (.handed command arguments (some seq)) t)
    (he : c'.Endless) (hn : c'.nextSeq = Client.succSeq c.nextSeq) (hq : c'.inbound = c.inbound) :
    seq = c.nextSeq ∧ t.caller = .free ∧ t.Mirrors c' := by
  obtain ⟨-, hnext, hl⟩ := hm
  cases h with
  | hand hc hw => exact ⟨hnext, hc, he, hn ▸ hnext ▸ rfl, hq ▸ hl.congr rfl rfl rfl⟩

theorem Mirrors.of_answered (hm : s.Mirrors c) (h : Step s (.answered outcome) t) :
    ∃ seq command, s.caller = .waiting seq command ∧ t.caller = .free ∧
      ((∃ item more, c.inbound = item :: more ∧ item.decides? seq command = some outcome ∧
        ∀ body, outcome = .ok body → t.Mirrors { c with inbound := more }) ∨
        (t.writer.HasFailed ∧ outcome = .error (.io Output.refusal))) := by
  obtain ⟨seq, command, hwait, hfree, hn, ⟨item, more, hq, hd, hl⟩ | hfailed⟩ :=
    hm.left.of_answered h
  · refine ⟨seq, command, hwait, hfree, .inl ⟨item, more, hq, hd, ?_⟩⟩
    exact fun _ _ => ⟨hm.endless, hn.trans hm.nextSeq, hl⟩
  · exact ⟨seq, command, hwait, hfree, .inr hfailed⟩

theorem Mirrors.of_waits (hm : s.Mirrors c) (h : Step s (.waits seq command) t) :
    t.caller = .waiting seq command ∧ t.Mirrors c := by
  obtain ⟨he, hn, hl⟩ := hm
  cases h with
  | wait hc => exact ⟨rfl, he, hn, hl.congr rfl rfl rfl⟩

theorem writer_of_refused (h : Step s (.handed command arguments none) t) :
    t.writer.HasFailed := by
  cases h with
  | refuse hc hw => exact .inr hw

end Threads

end BufferCheck.Server
