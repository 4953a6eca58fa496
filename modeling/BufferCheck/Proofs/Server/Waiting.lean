import BufferCheck.Proofs.Server.Course

/-! Waits after the end of the server's output. The end is told once, to the wait that takes it, or
not at all if the reader dies. A writer that has nothing to write, or that never gets done with what
it writes, keeps the queue open, so a later wait is never answered. In all other states a wait goes
on to its answer. -/
namespace BufferCheck.Server

variable {sent : List UInt8} {seq : Nat} {command : String} {e : EngineError}

/-- What a caller is told when the server's output ends, if it is told. -/
def endError? (sent : List UInt8) : Option EngineError :=
  match (Frame.readAll sent).2 with
  | none => some .exited
  | some .oversizedBody => none
  | some e => some (.io e.message)

/-- How an output can end, and what a caller is told then. -/
theorem ending_cases (sent : List UInt8) :
    ((Frame.readAll sent).2 = some .oversizedBody ∧ endError? sent = none ∧
        Inbound.ending? (Frame.readAll sent).2 = none) ∨
      endError? sent = some .exited ∧ Inbound.ending? (Frame.readAll sent).2 = some .closed ∨
      ∃ text, text ≠ Output.refusal ∧ endError? sent = some (.io text) ∧
        Inbound.ending? (Frame.readAll sent).2 = some (.ioError text) := by
  unfold endError?
  generalize (Frame.readAll sent).2 = ending
  rcases ending with _ | _ | _ | _ | _ | _ | _
  all_goals first
    | exact .inl ⟨rfl, rfl, rfl⟩
    | exact .inr (.inl ⟨rfl, rfl⟩)
    | exact .inr (.inr ⟨_, by decide, rfl, rfl⟩)

theorem endError?_ne_refusal : endError? sent ≠ some (.io Output.refusal) := by
  rcases ending_cases sent with ⟨-, h, -⟩ | ⟨h, -⟩ | ⟨text, hne, h, -⟩
  · simp [h]
  · simp [h]
  · simpa [h] using hne

namespace Inbound

/-- The item tells that a write failed. -/
def isRefusal : Inbound → Bool
  | ioError text => text = Output.refusal
  | _ => false

/-- The item that ends the output decides whatever a caller waits for. -/
theorem decides?_ending {item : Inbound} (h : ending? (Frame.readAll sent).2 = some item)
    (seq : Nat) (command : String) :
    ∃ e, endError? sent = some e ∧ item.decides? seq command = some (.error e) := by
  rcases ending_cases sent with ⟨-, -, hnone⟩ | ⟨he, hclosed⟩ | ⟨text, -, he, hio⟩
  · cases hnone.symm.trans h
  · cases hclosed.symm.trans h
    exact ⟨_, he, rfl⟩
  · cases hio.symm.trans h
    exact ⟨_, he, rfl⟩

theorem isRefusal_ending {item : Inbound} (h : ending? (Frame.readAll sent).2 = some item) :
    item.isRefusal = false := by
  rcases ending_cases sent with ⟨-, -, hnone⟩ | ⟨-, hclosed⟩ | ⟨text, hne, -, hio⟩
  · cases hnone.symm.trans h
  · cases hclosed.symm.trans h
    rfl
  · cases hio.symm.trans h
    exact decide_eq_false hne

theorem eq_of_isRefusal {item : Inbound} (h : item.isRefusal = true) :
    item = .ioError Output.refusal := by
  cases item <;> simp_all [isRefusal]

/-- No message is taken for the end of the output. -/
theorem decides?_message_ne (v : Json) (he : endError? sent = some e) :
    (message v).decides? seq command ≠ some (.error e) := by
  intro h
  have hend : e = .exited ∨ ∃ text, e = .io text := by
    rcases ending_cases sent with ⟨-, h, -⟩ | ⟨h, -⟩ | ⟨text, -, h, -⟩
    · cases h.symm.trans he
    · exact .inl (Option.some.inj (he.symm.trans h))
    · exact .inr ⟨text, Option.some.inj (he.symm.trans h)⟩
  simp only [decides?] at h
  split at h
  · simp [← Except.error.inj (Option.some.inj h)] at hend
  · split at h
    · split at h
      · cases h
      · simp [← Except.error.inj (Option.some.inj h)] at hend
    · cases h
  · cases h

theorem exists_of_decides?_eq_none {item : Inbound} (h : item.decides? seq command = none) :
    ∃ v, item = message v := by
  cases item with
  | message v => exact ⟨v, rfl⟩
  | ioError | closed => cases h

end Inbound

namespace Threads
open Inbound

variable {s t : Threads} {a : Action} {as before : List Action} {room : Option Nat}
  {outcome : Outcome}

/-- A wait was told that the server's output has ended. -/
def Told (sent : List UInt8) (as : List Action) : Prop :=
  ∃ e, endError? sent = some e ∧ .answered (.error e) ∈ as

/-- What the server has sent and the caller has not taken. -/
def untaken (s : Threads) : List Inbound := (s.inbound ++ s.unread).filter (!·.isRefusal)

/-- What the server sends does not look like a failed write, and none is told before one fails. -/
structure Faithful (s : Threads) : Prop where
  unread : ∀ item ∈ s.unread, item.isRefusal = false
  inbound : ¬ s.writer.HasFailed → ∀ item ∈ s.inbound, item.isRefusal = false

/-- What is left after some moves: messages and the end, which nobody was told; or nothing. A reader
that dies leaves messages only. -/
inductive Account (sent : List UInt8) (as : List Action) (s : Threads) : Prop
  | ahead (vs : List Json)
      (huntaken : s.untaken = vs.map .message ++ (ending? (Frame.readAll sent).2).toList)
      (hnot : ¬ Told sent as)
  | past (huntaken : s.untaken = []) (htold : Told sent as)

theorem told_append {as bs : List Action} : Told sent (as ++ bs) ↔ Told sent as ∨ Told sent bs := by
  simp only [Told, List.mem_append, and_or_left, exists_or]

section Step

theorem faithful_start (sent : List UInt8) (room : Option Nat) (patient : Bool) :
    (start sent room patient).Faithful := by
  refine ⟨fun item hitem => ?_, fun _ item hitem => absurd hitem List.not_mem_nil⟩
  have hsplit : (start sent room patient).unread
      = (Frame.readAll sent).1.map .message ++ (ending? (Frame.readAll sent).2).toList := rfl
  rw [hsplit, List.mem_append, List.mem_map, Option.mem_toList] at hitem
  obtain ⟨v, -, rfl⟩ | hitem := hitem
  · rfl
  · exact isRefusal_ending hitem

theorem Faithful.step (h : s.Faithful) (hs : Step s a t) : t.Faithful := by
  obtain ⟨hu, hi⟩ := h
  cases hs with
  | @deliver item rest hunread =>
    rw [hunread, List.forall_mem_cons] at hu
    refine ⟨hu.2, fun hw other hother => ?_⟩
    obtain hother | hother := List.mem_append.mp hother
    · exact hi hw other hother
    · exact List.mem_singleton.mp hother ▸ hu.1
  | write hw | stall hw => exact ⟨hu, fun _ => hi (by simp [Writer.HasFailed, hw])⟩
  | fail => exact ⟨hu, fun hw => absurd (.inl rfl) hw⟩
  | stop => exact ⟨hu, fun hw => absurd (.inr rfl) hw⟩
  | pass _ hq _ | decide _ hq _ =>
    exact ⟨hu, fun hw item hitem => hi hw item (hq ▸ List.mem_cons_of_mem _ hitem)⟩
  | _ => exact ⟨hu, hi⟩

/-- Nothing is left to take but what the server sent, as long as no write has failed. -/
theorem Faithful.untaken_eq (h : s.Faithful) (hw : ¬ s.writer.HasFailed) :
    s.untaken = s.inbound ++ s.unread := by
  refine List.filter_eq_self.mpr fun item hitem => ?_
  obtain hitem | hitem := List.mem_append.mp hitem
  · rw [h.inbound hw item hitem]
    rfl
  · rw [h.unread item hitem]
    rfl

/-- A move leaves all that the server sent, and ends no wait unless a write failed or nothing was
left; or the caller takes the first of it. -/
theorem untaken_of_step (hs : Step s a t) :
    (t.untaken = s.untaken ∧ ∀ outcome, a = .answered outcome →
      outcome = .error (.io Output.refusal) ∨ s.untaken = [] ∧ outcome = .error .exited) ∨
    ∃ item seq command, s.untaken = item :: t.untaken ∧
      (a = .silent ∧ item.decides? seq command = none ∨
        ∃ outcome, a = .answered outcome ∧ item.decides? seq command = some outcome) := by
  cases hs with
  | deliver hu => exact .inl ⟨by simp [untaken, hu], nofun⟩
  | fail => exact .inl ⟨by simp [untaken, isRefusal], nofun⟩
  | @pass seq command item rest hc hq hd =>
    obtain ⟨v, rfl⟩ := exists_of_decides?_eq_none hd
    exact .inr ⟨_, seq, command, by simp [untaken, hq, isRefusal], .inl ⟨rfl, hd⟩⟩
  | @decide seq command item rest outcome hc hq hd =>
    by_cases hr : item.isRefusal = true
    · refine .inl ⟨by simp [untaken, hq, hr], ?_⟩
      rintro _ ⟨⟩
      rw [eq_of_isRefusal hr] at hd
      exact .inl (Option.some.inj hd).symm
    · exact .inr ⟨item, seq, command, by simp [untaken, hq, hr], .inr ⟨outcome, rfl, hd⟩⟩
  | disconnect hc hq hu hw =>
    refine .inl ⟨rfl, ?_⟩
    rintro _ ⟨⟩
    exact .inr ⟨by simp [untaken, hq, hu], rfl⟩
  | _ => exact .inl ⟨rfl, nofun⟩

theorem account_start (sent : List UInt8) (room : Option Nat) (patient : Bool) :
    Account sent [] (start sent room patient) := by
  refine .ahead (Frame.readAll sent).1 ?_ fun ⟨_, _, h⟩ => List.not_mem_nil h
  exact List.filter_eq_self.mpr fun item hitem => by
    rw [(faithful_start sent room patient).unread item hitem]
    rfl

theorem Account.step (h : Account sent before s) (hs : Step s a t) :
    Account sent (before ++ [a]) t := by
  have htold : Told sent [a] ↔ ∃ e, endError? sent = some e ∧ a = .answered (.error e) := by
    simp only [Told, List.mem_singleton, eq_comm]
  obtain ⟨huntaken, hother⟩ | ⟨item, seq, command, huntaken, htaken⟩ := untaken_of_step hs
  · cases h with
    | past hnone h => exact .past (huntaken.trans hnone) (told_append.mpr (.inl h))
    | ahead vs hvs hnot =>
      refine .ahead vs (huntaken.trans hvs) fun h => ?_
      obtain ⟨e, he, ha⟩ := htold.mp ((told_append.mp h).resolve_left hnot)
      obtain hrefused | ⟨hnone, -⟩ := hother _ ha
      · cases hrefused
        exact endError?_ne_refusal he
      · -- The end is told while it is still left to take.
        rw [hvs, List.append_eq_nil_iff, Option.toList_eq_nil_iff] at hnone
        rcases ending_cases sent with ⟨-, hlost, -⟩ | ⟨-, hend⟩ | ⟨text, -, -, hend⟩
        · cases hlost.symm.trans he
        · cases hend.symm.trans hnone.2
        · cases hend.symm.trans hnone.2
  · cases h with
    | past hnone _ => simp [hnone] at huntaken
    | ahead vs hvs hnot =>
      rw [hvs] at huntaken
      cases vs with
      | nil =>
        -- The end decides whatever the caller waits for.
        cases hend : ending? (Frame.readAll sent).2 with
        | none => simp [hend] at huntaken
        | some last =>
          rw [hend] at huntaken
          obtain ⟨rfl, hrest⟩ := List.cons.inj huntaken
          obtain ⟨e, he, hdecides⟩ := decides?_ending hend seq command
          rw [hdecides] at htaken
          obtain ⟨-, hd⟩ | ⟨outcome, rfl, hd⟩ := htaken
          · cases hd
          · cases hd
            exact .past hrest.symm (told_append.mpr (.inr (htold.mpr ⟨e, he, rfl⟩)))
      | cons v vs =>
        obtain ⟨rfl, hrest⟩ := List.cons.inj huntaken
        refine .ahead vs hrest.symm fun h => ?_
        obtain ⟨e, he, rfl⟩ := htold.mp ((told_append.mp h).resolve_left hnot)
        obtain ⟨ha, -⟩ | ⟨outcome, ha, hd⟩ := htaken
        · cases ha
        · cases ha
          exact decides?_message_ne v he hd

/-- Unless the caller is stuck, one of the three has a move. -/
theorem exists_step_of_not_stuck (h : ¬ Stuck s) : ∃ a t, Step s a t := by
  cases hc : s.caller with
  | free =>
    by_cases hw : s.writer = .stopped
    · exact ⟨_, _, @Step.refuse s "" .null hc hw⟩
    · exact ⟨_, _, @Step.hand s "" .null hc hw⟩
  | waiting seq command =>
    cases hq : s.inbound with
    | cons item rest =>
      cases hd : item.decides? seq command with
      | none => exact ⟨_, _, .pass hc hq hd⟩
      | some outcome => exact ⟨_, _, .decide hc hq hd⟩
    | nil =>
      cases hu : s.unread with
      | cons item rest => exact ⟨_, _, .deliver hu⟩
      | nil =>
        by_cases hw : s.writer.HasFailed
        · rcases hw with hw | hw
          · exact ⟨_, _, .stop hw⟩
          · exact ⟨_, _, .disconnect hc hq hu hw⟩
        · rcases idle_or_step hw with hidle | ⟨t, hs⟩
          · exact absurd ⟨⟨seq, command, hc⟩, hq, hu, hidle⟩ h
          · exact ⟨_, t, hs⟩

theorem Idle.not_hasFailed (h : s.Idle) : ¬ s.writer.HasFailed := by
  rcases h with ⟨hw, -⟩ | hw
  · simp [Writer.HasFailed, hw]
  · simp [Writer.HasFailed, hw]

end Step

section Run

theorem Account.run (h : Account sent before s) (hr : Run s as t) :
    Account sent (before ++ as) t := by
  induction hr generalizing before with
  | refl => rwa [List.append_nil]
  | step hs _ ih =>
    have hlast := ih (h.step hs)
    rwa [List.append_assoc] at hlast

theorem Faithful.run (h : s.Faithful) (hr : Run s as t) : t.Faithful := by
  induction hr with
  | refl => exact h
  | step hs _ ih => exact ih (h.step hs)

/-- The threads have a bounded number of moves before the caller is answered. -/
theorem le_work_of_run {n : Nat} (hr : Run s (.replicate n .silent) t) : n ≤ Talking.work s := by
  generalize has : List.replicate n Action.silent = as at hr
  induction hr generalizing n with
  | refl =>
    rw [(List.replicate_eq_nil_iff _).mp has]
    exact Nat.zero_le _
  | step hs _ ih =>
    cases n with
    | zero => cases has
    | succ n =>
      obtain ⟨rfl, hrest⟩ := List.cons.inj has
      have hlt := (Talking.work_lt_of_silent hs).1
      have hle := ih hrest
      omega

end Run

/-- The server's input takes all that is written, or takes some bytes and then refuses the others,
or takes some bytes and then lets the writer wait for ever; that it is slow are moves that come late.
A caller is stuck exactly if it waits once more after the end was told, or after it has taken all
that a reader found that died without telling the end, while the writer has nothing to write or
never gets done. Where it is not stuck, the threads go on, and after so many moves at most it is
answered or stuck. After the end was told, all answers are errors: of the write that failed, or of
a queue that both threads have left. -/
theorem stuck_iff_told (sent : List UInt8) (room : Option Nat) (patient : Bool) {as : List Action}
    {s : Threads} (hr : Run (start sent room patient) as s) :
    let ended := Told sent as ∨
      (Frame.readAll sent).2 = some .oversizedBody ∧ s.untaken = []
    (Stuck s ↔ (∃ seq command, s.caller = .waiting seq command) ∧ s.Idle ∧ ended) ∧
    ((∀ a t, ¬ Step s a t) ↔ Stuck s) ∧
    (∀ n t, Run s (.replicate n .silent) t → n ≤ Talking.work s) ∧
    (ended → ∀ outcome t, Step s (.answered outcome) t →
      outcome = .error (.io Output.refusal) ∨ outcome = .error .exited) := by
  intro ended
  have hf := (faithful_start sent room patient).run hr
  have haccount := (account_start sent room patient).run hr
  rw [List.nil_append] at haccount
  have hnone : ended → s.untaken = [] := by
    rintro (htold | ⟨-, huntaken⟩)
    · cases haccount with
      | ahead _ _ hnot => exact absurd htold hnot
      | past huntaken _ => exact huntaken
    · exact huntaken
  refine ⟨⟨?_, ?_⟩, ⟨?_, ?_⟩, fun n t => le_work_of_run, ?_⟩
  · rintro ⟨hc, hq, hu, hidle⟩
    have huntaken : s.untaken = [] := by simp [untaken, hq, hu]
    refine ⟨hc, hidle, ?_⟩
    cases haccount with
    | past _ htold => exact .inl htold
    | ahead vs hvs _ =>
      rw [huntaken, eq_comm, List.append_eq_nil_iff, Option.toList_eq_nil_iff] at hvs
      rcases ending_cases sent with ⟨hlost, -, -⟩ | ⟨-, hend⟩ | ⟨text, -, -, hend⟩
      · exact .inr ⟨hlost, huntaken⟩
      · cases hend.symm.trans hvs.2
      · cases hend.symm.trans hvs.2
  · rintro ⟨hc, hidle, hended⟩
    have hboth := (hf.untaken_eq hidle.not_hasFailed).symm.trans (hnone hended)
    obtain ⟨hq, hu⟩ := List.append_eq_nil_iff.mp hboth
    exact ⟨hc, hq, hu, hidle⟩
  · intro hno
    by_contra hs
    obtain ⟨a, t, h⟩ := exists_step_of_not_stuck hs
    exact hno a t h
  · exact fun hs a t => not_step_of_stuck hs
  · intro hended outcome t hs
    obtain ⟨-, hother⟩ | ⟨item, seq, command, huntaken, -⟩ := untaken_of_step hs
    · exact (hother outcome rfl).imp_right And.right
    · simp [hnone hended] at huntaken

section Sample

theorem ofStream_nil : Inbound.ofStream [] = [.closed] := by
  rw [Inbound.ofStream, Frame.readAll_of_end Frame.read_nil]
  rfl

theorem endError?_nil : endError? [] = some .exited := by
  rw [endError?, Frame.readAll_of_end Frame.read_nil]

/-- A head that announces a body for which there is no room. -/
def oversizedHead : List UInt8 := Frame.Head.usual.bytes (Frame.maxBody + 1)

theorem readAll_oversizedHead : Frame.readAll oversizedHead = ([], some .oversizedBody) := by
  have hread := Frame.readAll_oversized .usual (Nat.lt_succ_self _) (by decide) []
  rwa [List.append_nil] at hread

theorem ofStream_oversizedHead : Inbound.ofStream oversizedHead = [] := by
  rw [Inbound.ofStream, readAll_oversizedHead]
  rfl

/-- A server says nothing and takes everything. The first call is told that its output has ended,
and the second one waits for ever. -/
theorem waits_forever_after_end : ∃ as s, Run (start [] none false) as s ∧
    .answered (.error .exited) ∈ as ∧ (∃ seq command, s.caller = .waiting seq command) ∧
    s.inbound = [] ∧ s.unread = [] ∧ ∀ a t, ¬ Step s a t := by
  have hstart : (start [] none false).unread = [.closed] := ofStream_nil
  have hrun : ∃ out, Run (start [] none false)
      [.handed "configure" .null (some 1), .silent, .waits 1 "configure", .silent,
        .answered (.error .exited), .handed "configure" .null (some 2), .silent,
        .waits 2 "configure"]
      { start [] none false with
        caller := .waiting 2 "configure", nextSeq := 3, unread := [], output := out } :=
    ⟨_, .step (.hand rfl (by decide)) (.step (.write rfl rfl rfl) (.step (.wait rfl)
      (.step (.deliver hstart) (.step (.decide rfl rfl rfl) (.step (.hand rfl (by decide))
      (.step (.write rfl rfl rfl) (.step (.wait rfl) (.refl _))))))))⟩
  obtain ⟨out, hrun⟩ := hrun
  exact ⟨_, _, hrun, by simp, ⟨2, "configure", rfl⟩, rfl, rfl,
    fun a t => not_step_of_stuck ⟨⟨2, "configure", rfl⟩, rfl, rfl, .inl ⟨rfl, rfl⟩⟩⟩

/-- A call whose write fails, and a wait that is told of the end of the output before one more. -/
theorem run_refused : ∃ out, Run (start [] (some 0) false)
    [.handed "configure" .null (some 1), .silent, .waits 1 "configure",
      .answered (.error (.io Output.refusal)), .silent, .waits 1 "configure",
      .answered (.error .exited), .silent, .waits 1 "configure"]
    { start [] (some 0) false with
      caller := .waiting 1 "configure"
      nextSeq := 2
      unread := []
      output := out
      writer := .stopped } := by
  have hstart : (start [] (some 0) false).unread = [.closed] := ofStream_nil
  exact ⟨_, .step (.hand rfl (by decide)) (.step (.fail rfl rfl rfl (Talking.write_line_of_full _))
    (.step (.wait rfl) (.step (.decide rfl rfl rfl) (.step (.deliver hstart)
    (.step (.wait rfl) (.step (.decide rfl rfl rfl) (.step (.stop rfl) (.step (.wait rfl)
    (.refl _)))))))))⟩

/-- A call of a client whose reader dies. -/
theorem run_oversizedHead : ∃ out, Run (start oversizedHead none false)
    [.handed "configure" .null (some 1), .silent, .waits 1 "configure"]
    { start oversizedHead none false with
      caller := .waiting 1 "configure", nextSeq := 2, output := out } :=
  ⟨_, .step (.hand rfl (by decide)) (.step (.write rfl rfl rfl) (.step (.wait rfl) (.refl _)))⟩

/-- A call whose write is never done, and one more wait after the end of the output. -/
theorem run_stalled : ∃ out, Run (start [] (some 0) true)
    [.handed "configure" .null (some 1), .silent, .waits 1 "configure", .silent,
      .answered (.error .exited), .waits 1 "configure"]
    { start [] (some 0) true with
      caller := .waiting 1 "configure"
      nextSeq := 2
      unread := []
      output := out
      writer := .stalled } := by
  have hstart : (start [] (some 0) true).unread = [.closed] := ofStream_nil
  exact ⟨_, .step (.hand rfl (by decide)) (.step (.stall rfl rfl rfl (Talking.write_line_of_full _))
    (.step (.wait rfl) (.step (.deliver hstart) (.step (.decide rfl rfl rfl)
    (.step (.wait rfl) (.refl _))))))⟩

end Sample

/-- After a failed write, the writer has stopped too, and a wait after the end is answered. If the
reader dies, or the writer is never done, then a wait is stuck. -/
theorem answered_after_failed_write :
    (∃ as s, Run (start [] (some 0) false) as s ∧ Told [] as ∧
      ¬ Stuck s ∧ (∃ t, Step s (.answered (.error .exited)) t) ∧
      ∀ outcome t, Step s (.answered outcome) t →
        outcome = .error (.io Output.refusal) ∨ outcome = .error .exited) ∧
    (∃ s, Run (start oversizedHead none false)
      [.handed "configure" .null (some 1), .silent, .waits 1 "configure"] s ∧ Stuck s) ∧
    ∃ s, Run (start [] (some 0) true)
      [.handed "configure" .null (some 1), .silent, .waits 1 "configure", .silent,
        .answered (.error .exited), .waits 1 "configure"] s ∧ Stuck s := by
  refine ⟨?_, ?_, ?_⟩
  · obtain ⟨out, hrun⟩ := run_refused
    obtain ⟨hstuck, -, -, hanswers⟩ := stuck_iff_told [] (some 0) false hrun
    suffices htold : Told [] _ from
      ⟨_, _, hrun, htold, fun h => (hstuck.mp h).2.1.not_hasFailed (.inr rfl),
        ⟨_, .disconnect rfl rfl rfl rfl⟩, hanswers (.inl htold)⟩
    exact ⟨.exited, endError?_nil, by simp⟩
  · obtain ⟨out, hrun⟩ := run_oversizedHead
    refine ⟨_, hrun, (stuck_iff_told oversizedHead none false hrun).1.mpr ?_⟩
    refine ⟨⟨1, "configure", rfl⟩, .inl ⟨rfl, rfl⟩, .inr ⟨?_, ?_⟩⟩
    · rw [readAll_oversizedHead]
    · simp [untaken, start, ofStream_oversizedHead]
  · obtain ⟨out, hrun⟩ := run_stalled
    refine ⟨_, hrun, (stuck_iff_told [] (some 0) true hrun).1.mpr ?_⟩
    exact ⟨⟨1, "configure", rfl⟩, .inr rfl, .inl ⟨.exited, endError?_nil, by simp⟩⟩

end Threads
end BufferCheck.Server
