import BufferCheck.Proofs.Server.Answers
import BufferCheck.Server.Talk

/-! What waits take from the queue. Each takes the items up to the first that ends it, and that item
alone says what it is told. The waits after it start behind that item, so what one wait has passed
over is gone for all of them. A wait that nothing ends goes on for as long as one of the threads may
still send something. -/
namespace BufferCheck.Server

/-- A wait for the response to a request. -/
structure Wait where
  seq : Nat
  command : String

/-- An item ends a wait: the response to its request, a message that cannot be read, the error of a
stream, or the end of the output. -/
inductive Ends (w : Wait) : Inbound → Outcome → Prop
  | body {v : Json} {r : Response} (h : Message.ofJson v = .ok (.response r))
      (hseq : r.requestSeq = w.seq) (hr : r.success = true) : Ends w (.message v) (.ok r.body)
  | rejected {v : Json} {r : Response} (h : Message.ofJson v = .ok (.response r))
      (hseq : r.requestSeq = w.seq) (hr : r.success = false) :
      Ends w (.message v) (.error (.rejected w.command (r.message.getD "")))
  | protocol {v : Json} {e : Json.ShapeError} (h : Message.ofJson v = .error e) :
      Ends w (.message v) (.error (.protocol e.message))
  | io (text : String) : Ends w (.ioError text) (.error (.io text))
  | exited : Ends w .closed (.error .exited)

/-- Nothing among some items ends a wait. -/
def Passes (w : Wait) (items : List Inbound) : Prop := ∀ x ∈ items, ∀ o, ¬ Ends w x o

/-- What a wait takes from a queue, what it is told, and what it leaves. If nothing ends it, then it
takes all, and it is told of the end only if the queue has no sender left. -/
inductive Takes (gone : Prop) (w : Wait) :
    List Inbound → List Inbound → Outcome → List Inbound → Prop
  | found {passed left : List Inbound} {item : Inbound} {outcome : Outcome}
      (hp : Passes w passed) (hi : Ends w item outcome) :
      Takes gone w (passed ++ item :: left) (passed ++ [item]) outcome left
  | exhausted {queue : List Inbound} (ho : gone) (hq : Passes w queue) :
      Takes gone w queue queue (.error .exited) []

/-- What waits take one after the other, each from what the one before it left. -/
inductive InTurn (gone : Prop) :
    List Wait → List Inbound → List (List Inbound) → List Outcome → List Inbound → Prop
  | nil (queue : List Inbound) : InTurn gone [] queue [] [] queue
  | cons {w : Wait} {ws : List Wait} {queue taken left rest : List Inbound}
      {parts : List (List Inbound)} {outcome : Outcome} {outcomes : List Outcome}
      (h : Takes gone w queue taken outcome left) (hs : InTurn gone ws left parts outcomes rest) :
      InTurn gone (w :: ws) queue (taken :: parts) (outcome :: outcomes) rest

/-- Waits one after the other, to the end of the last or to the first that never ends. -/
inductive Waits (gone : Prop) (ws : List Wait) (queue : List Inbound)
    (parts : List (List Inbound)) (outcomes : List Outcome) : List Inbound → Prop
  | all {rest : List Inbound} (hs : InTurn gone ws queue parts outcomes rest) :
      Waits gone ws queue parts outcomes rest
  | blocked (done : List Wait) (w : Wait) (later : List Wait) (left : List Inbound)
      (hws : ws = done ++ w :: later) (hs : InTurn gone done queue parts outcomes left)
      (ho : ¬ gone) (hl : Passes w left) :
      Waits gone ws queue parts outcomes []

variable {gone : Prop}
  {w : Wait} {ws : List Wait} {item : Inbound} {queue taken rest : List Inbound}
  {outcome : Outcome} {outcomes : List Outcome} {parts : List (List Inbound)}

section Takes

theorem decides?_eq_some_iff :
    item.decides? w.seq w.command = some outcome ↔ Ends w item outcome := by
  constructor
  · intro h
    unfold Inbound.decides? at h
    split at h
    · exact Option.some.inj h ▸ .io _
    · exact Option.some.inj h ▸ .exited
    · split at h
      · next hv => exact Option.some.inj h ▸ .protocol hv
      · next hv =>
        split at h
        · next hseq =>
          split at h
          · next hr => exact Option.some.inj h ▸ .body hv hseq hr
          · next hr => exact Option.some.inj h ▸ .rejected hv hseq (Bool.not_eq_true _ ▸ hr)
        · cases h
      · cases h
  · intro h
    cases h with
    | body hv hseq hr => simp [Inbound.decides?, hv, hseq, hr]
    | rejected hv hseq hr => simp [Inbound.decides?, hv, hseq, hr]
    | protocol hv => simp [Inbound.decides?, hv]
    | io | exited => rfl

theorem decides?_eq_none_iff_forall :
    item.decides? w.seq w.command = none ↔ ∀ o, ¬ Ends w item o := by
  simp only [← decides?_eq_some_iff, Option.eq_none_iff_forall_ne_some, ne_eq]

/-- What a wait is told depends on the item that ends it, and on nothing else. -/
theorem Ends.unique {other : Outcome} (h : Ends w item outcome) (h' : Ends w item other) :
    outcome = other :=
  Option.some.inj ((decides?_eq_some_iff.mpr h).symm.trans (decides?_eq_some_iff.mpr h'))

theorem passes_cons_iff : Passes w (item :: queue) ↔ (∀ o, ¬ Ends w item o) ∧ Passes w queue :=
  List.forall_mem_cons

theorem passes_nil (w : Wait) : Passes w [] := by simp [Passes]

theorem Takes.queue_eq (h : Takes gone w queue taken outcome rest) : queue = taken ++ rest := by
  cases h with
  | found => simp
  | exhausted => simp

theorem Takes.first (queue : List Inbound) (hi : Ends w item outcome) :
    Takes gone w (item :: queue) [item] outcome queue :=
  @Takes.found gone w [] queue item outcome (passes_nil w) hi

/-- An item that does not end a wait is taken with what comes after it. -/
theorem Takes.pass (h : Takes gone w queue taken outcome rest) (hi : ∀ o, ¬ Ends w item o) :
    Takes gone w (item :: queue) (item :: taken) outcome rest := by
  cases h with
  | @found passed _ _ _ hp hd => exact .found (passes_cons_iff.mpr ⟨hi, hp⟩) hd
  | exhausted ho hq => exact .exhausted ho (passes_cons_iff.mpr ⟨hi, hq⟩)

theorem await?_eq_none_iff : Inbound.await? w.seq w.command queue = none ↔ Passes w queue := by
  induction queue with
  | nil => simp [Inbound.await?, passes_nil]
  | cons item queue ih =>
    rw [Inbound.await?, passes_cons_iff, ← decides?_eq_none_iff_forall, ← ih]
    cases item.decides? w.seq w.command <;> simp

theorem await?_append (hp : Passes w taken) (more : List Inbound) :
    Inbound.await? w.seq w.command (taken ++ more) = Inbound.await? w.seq w.command more := by
  induction taken with
  | nil => rfl
  | cons x taken ih =>
    obtain ⟨hx, hp⟩ := passes_cons_iff.mp hp
    rw [List.cons_append, Inbound.await?, decides?_eq_none_iff_forall.mpr hx]
    exact ih hp

theorem exists_takes (h : Inbound.await? w.seq w.command queue = some (outcome, rest)) :
    ∃ taken, Takes gone w queue taken outcome rest := by
  induction queue with
  | nil => simp [Inbound.await?] at h
  | cons item queue ih =>
    rw [Inbound.await?] at h
    cases hd : item.decides? w.seq w.command with
    | some told =>
      rw [hd] at h
      obtain ⟨rfl, rfl⟩ := Prod.mk.inj (Option.some.inj h)
      exact ⟨[item], .first queue (decides?_eq_some_iff.mp hd)⟩
    | none =>
      rw [hd] at h
      obtain ⟨taken, htaken⟩ := ih h
      exact ⟨item :: taken, htaken.pass (decides?_eq_none_iff_forall.mp hd)⟩

end Takes

/-- The parts that waits take make up the queue, with what they leave. -/
theorem InTurn.queue_eq (h : InTurn gone ws queue parts outcomes rest) :
    queue = parts.flatten ++ rest := by
  induction h with
  | nil => rfl
  | cons h _ ih => rw [h.queue_eq, ih, List.flatten_cons, List.append_assoc]

theorem InTurn.lengths (h : InTurn gone ws queue parts outcomes rest) :
    parts.length = ws.length ∧ outcomes.length = ws.length := by
  induction h with
  | nil => exact ⟨rfl, rfl⟩
  | cons _ _ ih => simp [ih]

theorem InTurn.eq_of_nil (h : InTurn gone [] queue parts outcomes rest) :
    parts = [] ∧ outcomes = [] ∧ rest = queue := by
  cases h
  exact ⟨rfl, rfl, rfl⟩

theorem InTurn.pass (h : InTurn gone (w :: ws) queue parts outcomes rest)
    (hi : ∀ o, ¬ Ends w item o) :
    ∃ parts, InTurn gone (w :: ws) (item :: queue) parts outcomes rest := by
  obtain _ | ⟨h, hs⟩ := h
  exact ⟨_, .cons (h.pass hi) hs⟩

theorem Waits.cons (h : Takes gone w queue taken outcome rest)
    {left : List Inbound} (hs : Waits gone ws rest parts outcomes left) :
    Waits gone (w :: ws) queue (taken :: parts) (outcome :: outcomes) left := by
  cases hs with
  | all hs => exact .all (.cons h hs)
  | blocked done w' later left hws hs ho hl =>
    exact .blocked (w :: done) w' later left (congrArg _ hws) (.cons h hs) ho hl

namespace Client

variable {c c' : Client}

/-- Nobody is left who could send something to a client. -/
def Over (c : Client) : Prop := c.reading = false ∧ c.writing = false

/-- Wait for several responses, one after the other. After a wait that never ends there is none. -/
def awaitAll : List Wait → Client → List Outcome × Client
  | [], c => ([], c)
  | w :: ws, c =>
    match c.perform (await w.seq w.command) with
    | (.ok body, c) => (.ok body :: (awaitAll ws c).1, (awaitAll ws c).2)
    | (.error (.failed e), c) => (.error e :: (awaitAll ws c).1, (awaitAll ws c).2)
    | (.error .blocked, c) => ([], c)

theorem awaitAll_cons_of_told (ws : List Wait)
    (h : c.perform (await w.seq w.command) = (outcome.mapError .failed, c')) :
    c.awaitAll (w :: ws) = (outcome :: (c'.awaitAll ws).1, (c'.awaitAll ws).2) := by
  rw [awaitAll, h]
  cases outcome <;> rfl

theorem awaitAll_cons_of_blocked (ws : List Wait)
    (h : c.perform (await w.seq w.command) = (.error .blocked, c')) :
    c.awaitAll (w :: ws) = ([], c') := by
  rw [awaitAll, h]

theorem deserted_of_over (h : c.Over) : c.deserted = .failed .exited := by
  simp [deserted, h.1, h.2]

theorem deserted_of_not_over (h : ¬ c.Over) : c.deserted = .blocked := by
  unfold Over at h
  rw [deserted, if_pos]
  cases hr : c.reading <;> cases hw : c.writing <;> simp_all

theorem perform_await_of_takes (h : Takes c.Over w c.inbound taken outcome rest) :
    c.perform (await w.seq w.command) = (outcome.mapError .failed, { c with inbound := rest }) := by
  generalize hqueue : c.inbound = queue at h
  cases h with
  | found hp hi =>
    refine perform_await_of_some ?_
    rw [hqueue, await?_append hp, Inbound.await?, decides?_eq_some_iff.mpr hi]
  | exhausted ho hq =>
    rw [perform_await_of_none (hqueue ▸ await?_eq_none_iff.mpr hq), deserted_of_over ho]
    rfl

theorem perform_await_of_passes (ho : ¬ c.Over) (hq : Passes w c.inbound) :
    c.perform (await w.seq w.command) = (.error .blocked, { c with inbound := [] }) := by
  rw [perform_await_of_none (await?_eq_none_iff.mpr hq), deserted_of_not_over ho]

/-- A wait on a client takes its part of the queue, or it never ends. -/
theorem takes_or_passes (w : Wait) (c : Client) :
    (∃ taken outcome rest, Takes c.Over w c.inbound taken outcome rest) ∨
      ¬ c.Over ∧ Passes w c.inbound := by
  cases hawait : Inbound.await? w.seq w.command c.inbound with
  | some found =>
    obtain ⟨taken, htaken⟩ := exists_takes hawait
    exact .inl ⟨taken, _, _, htaken⟩
  | none =>
    have hq := await?_eq_none_iff.mp hawait
    by_cases ho : c.Over
    · exact .inl ⟨_, _, _, .exhausted ho hq⟩
    · exact .inr ⟨ho, hq⟩

theorem awaitAll_of_inTurn (h : InTurn c.Over ws c.inbound parts outcomes rest)
    (more : List Wait) :
    let others := awaitAll more { c with inbound := rest }
    c.awaitAll (ws ++ more) = (outcomes ++ others.1, others.2) := by
  induction ws generalizing c parts outcomes with
  | nil =>
    obtain ⟨-, rfl, rfl⟩ := h.eq_of_nil
    rfl
  | cons w ws ih =>
    obtain _ | @⟨_, _, _, taken, left, _, parts, outcome, outcomes, h, hs⟩ := h
    rw [List.cons_append, awaitAll_cons_of_told _ (perform_await_of_takes h),
      ih (c := { c with inbound := left }) hs]
    rfl

theorem awaitAll_eq_iff : c.awaitAll ws = (outcomes, c') ↔
    ∃ parts rest, c' = { c with inbound := rest } ∧
      Waits c.Over ws c.inbound parts outcomes rest := by
  constructor
  · intro h
    induction ws generalizing c outcomes with
    | nil =>
      cases h
      exact ⟨[], _, rfl, .all (.nil _)⟩
    | cons w ws ih =>
      rcases takes_or_passes w c with ⟨taken, outcome, left, htakes⟩ | ⟨ho, hq⟩
      · rw [awaitAll_cons_of_told ws (perform_await_of_takes htakes)] at h
        obtain ⟨rfl, rfl⟩ := Prod.mk.inj h
        obtain ⟨parts, rest, hc, hs⟩ := ih rfl
        exact ⟨taken :: parts, rest, hc, .cons htakes hs⟩
      · rw [awaitAll_cons_of_blocked ws (perform_await_of_passes ho hq)] at h
        obtain ⟨rfl, rfl⟩ := Prod.mk.inj h
        exact ⟨[], [], rfl, .blocked [] w ws c.inbound rfl (.nil _) ho hq⟩
  · rintro ⟨parts, rest, rfl, hs⟩
    cases hs with
    | all hs =>
      have hall := awaitAll_of_inTurn hs []
      rw [List.append_nil] at hall
      rw [hall, awaitAll, List.append_nil]
    | blocked done w later left hws hs ho hl =>
      have hlast := @perform_await_of_passes w { c with inbound := left } ho hl
      rw [hws, awaitAll_of_inTurn hs, awaitAll_cons_of_blocked later hlast, List.append_nil]

end Client

/-- The wait that the caller is in, if it is in one. -/
def Caller.pending : Caller → List Wait
  | .free => []
  | .waiting seq command => [⟨seq, command⟩]

namespace Threads

variable {s t u : Threads} {a : Action} {as : List Action} {delivered arrived : List Inbound}

/-- The waits that start in a run. -/
def waitsOf (as : List Action) : List Wait :=
  as.filterMap fun | .waits seq command => some ⟨seq, command⟩ | _ => none

/-- What the waits of a run are told. -/
def answersOf (as : List Action) : List Outcome :=
  as.filterMap fun | .answered outcome => some outcome | _ => none

/-- What comes to the queue when the reader delivers items: these in their order, and among them the
error of a write that fails. -/
inductive Arrives (s : Threads) : List Inbound → List Inbound → Prop
  | quiet (items : List Inbound) : Arrives s items items
  | refused (before after : List Inbound) (hw : s.writer = .writing) :
      Arrives s (before ++ after) (before ++ .ioError Output.refusal :: after)

/-- Nobody is left who could send something to the caller. -/
def Over (s : Threads) : Prop := s.unread = [] ∧ s.writer = .stopped

/-- Between two states the waits took in turn what was in the queue and what came to it, and a wait
that has not ended has passed over what it took. -/
inductive Shares (s : Threads) (as : List Action) (t : Threads) : Prop
  | intro (delivered arrived passed : List Inbound) (parts : List (List Inbound)) (ws : List Wait)
      (hu : s.unread = delivered ++ t.unread) (ha : Arrives s delivered arrived)
      (hw : s.caller.pending ++ waitsOf as = ws ++ t.caller.pending)
      (hs : InTurn t.Over ws (s.inbound ++ arrived) parts (answersOf as) (passed ++ t.inbound))
      (hp : ∀ x ∈ passed, ∃ w ∈ t.caller.pending, ∀ o, ¬ Ends w x o)
      (hstop : s.writer = .stopped → t.writer = .stopped)

/-- A writer that writes has written before. -/
theorem writing_of_step (h : Step s a t) (hw : t.writer = .writing) : s.writer = .writing := by
  cases h <;> simp_all

theorem stopped_of_step (h : Step s a t) (hw : s.writer = .stopped) : t.writer = .stopped := by
  cases h <;> simp_all

theorem Arrives.congr (h : Arrives t delivered arrived)
    (hw : t.writer = .writing → s.writer = .writing) : Arrives s delivered arrived := by
  cases h with
  | quiet => exact .quiet _
  | refused before after ht => exact .refused before after (hw ht)

theorem Arrives.deliver (h : Arrives s delivered arrived) (item : Inbound) :
    Arrives s (item :: delivered) (item :: arrived) := by
  cases h with
  | quiet => exact .quiet _
  | refused before after hw => exact .refused (item :: before) after hw

theorem Arrives.eq_of_writer_ne (h : Arrives s delivered arrived) (hw : s.writer ≠ .writing) :
    arrived = delivered := by
  cases h with
  | quiet => rfl
  | refused _ _ hs => exact absurd hs hw

theorem shares_refl (s : Threads) : Shares s [] s :=
  .intro [] [] [] [] [] rfl (.quiet []) (List.append_nil _)
    (by rw [List.append_nil]; exact .nil _) (by simp) id

theorem Shares.step (h : Step s a t) (hs : Shares t as u) : Shares s (a :: as) u := by
  have hwriter := writing_of_step h
  have hstopped := stopped_of_step h
  obtain ⟨delivered, arrived, passed, parts, ws, hu, ha, hw, hs, hp, hstop⟩ := hs
  have hstop' := fun hw => hstop (hstopped hw)
  cases h with
  | write | stall | stop | hand | refuse =>
    exact .intro delivered arrived passed parts ws hu (ha.congr hwriter) hw hs hp hstop'
  | wait hc =>
    refine .intro delivered arrived passed parts ws hu (ha.congr hwriter) ?_ hs hp hstop'
    rw [hc]
    exact hw
  | @deliver item rest hunread =>
    refine .intro (item :: delivered) (item :: arrived) passed parts ws ?_
      ((ha.congr hwriter).deliver item) hw ?_ hp hstop'
    · rw [hunread, List.cons_append, ← hu]
    · rwa [List.append_assoc] at hs
  | fail hwriting =>
    obtain rfl := ha.eq_of_writer_ne (by simp)
    refine .intro arrived (.ioError Output.refusal :: arrived) passed parts ws hu
      (.refused [] arrived hwriting) hw ?_ hp hstop'
    rwa [List.append_assoc] at hs
  | @pass seq command item rest hc hq hd =>
    have hitem := (@decides?_eq_none_iff_forall ⟨seq, command⟩ item).mp hd
    simp only [hc] at hw hs
    cases ws with
    | nil =>
      -- The wait does not end in this run, so its items are among those passed over.
      obtain ⟨rfl, hanswers, hrest⟩ := hs.eq_of_nil
      have hmem : ⟨seq, command⟩ ∈ u.caller.pending := by
        rw [← List.nil_append u.caller.pending, ← hw]
        exact List.mem_cons_self
      refine .intro delivered arrived (item :: passed) [] [] hu (ha.congr hwriter) (hc ▸ hw) ?_
        (List.forall_mem_cons.mpr ⟨⟨_, hmem, hitem⟩, hp⟩) hstop'
      rw [hq, List.cons_append, List.cons_append, hrest]
      exact hanswers ▸ .nil _
    | cons w ws =>
      obtain ⟨rfl, -⟩ := List.cons.inj hw
      obtain ⟨parts, hs⟩ := hs.pass hitem
      exact .intro delivered arrived passed parts _ hu (ha.congr hwriter) (hc ▸ hw) (hq ▸ hs) hp
        hstop'
  | @decide seq command item rest outcome hc hq hd =>
    have hitem := (@decides?_eq_some_iff ⟨seq, command⟩ item outcome).mp hd
    refine .intro delivered arrived passed ([item] :: parts) (⟨seq, command⟩ :: ws) hu
      (ha.congr hwriter) ?_ ?_ hp hstop'
    · rw [hc]
      exact congrArg _ hw
    · rw [hq]
      exact .cons (.first _ hitem) hs
  | @disconnect seq command hc hq hunread hs' =>
    obtain rfl := ha.eq_of_writer_ne (by simp [hs'])
    obtain ⟨rfl, hleft⟩ := List.append_eq_nil_iff.mp (hu.symm.trans hunread)
    refine .intro [] [] passed ([] :: parts) (⟨seq, command⟩ :: ws) hu (.quiet []) ?_ ?_ hp hstop'
    · rw [hc]
      exact congrArg _ hw
    · rw [hq] at hs ⊢
      exact .cons (.exhausted ⟨hleft, hstop hs'⟩ (passes_nil _)) hs

theorem shares_of_run (h : Run s as t) : Shares s as t := by
  induction h with
  | refl s => exact shares_refl s
  | step h _ ih => exact ih.step h

end Threads

/-- Waits on a client take from its queue in turn. Each takes the items up to the first that ends
it, which alone says what it is told. So the queue is cut into the parts that the waits take and
what they leave, and no item is in two parts. A wait that nothing ends is told of the end if nobody
is left who could send something, and else it never ends. Between the threads it is the same,
however the reader, the writer and the caller move and whatever requests the caller makes between
its waits. -/
theorem waits_take_in_turn :
    (∀ (ws : List Wait) (c c' : Client) (outcomes : List Outcome),
      c.awaitAll ws = (outcomes, c') ↔ ∃ parts rest, c' = { c with inbound := rest } ∧
        Waits c.Over ws c.inbound parts outcomes rest) ∧
    (∀ (w : Wait) (item : Inbound) (outcome other : Outcome),
      Ends w item outcome → Ends w item other → outcome = other) ∧
    (∀ (gone : Prop) (ws : List Wait) (queue : List Inbound) (parts : List (List Inbound))
        (outcomes : List Outcome) (rest : List Inbound),
      InTurn gone ws queue parts outcomes rest →
        queue = parts.flatten ++ rest ∧ parts.length = ws.length ∧ outcomes.length = ws.length) ∧
    ∀ (s t : Threads) (as : List Threads.Action), s.Run as t → s.Shares as t :=
  ⟨fun _ _ _ _ => Client.awaitAll_eq_iff, fun _ _ _ _ => Ends.unique,
    fun _ _ _ _ _ _ h => ⟨h.queue_eq, h.lengths⟩, fun _ _ _ => Threads.shares_of_run⟩

/-- Two requests are answered in the other order. The wait for the first passes over the response to
the second, the wait for the second is told that the output has ended, and one more wait never ends,
or is told the same if the writer has stopped as well. -/
theorem waits_take_sampleReplies :
    (∀ gone, InTurn gone [⟨1, "a"⟩, ⟨2, "b"⟩] [sampleReply 2 .null, sampleReply 1 .null, .closed]
      [[sampleReply 2 .null, sampleReply 1 .null], [.closed]] [.ok none, .error .exited] []) ∧
    (∀ output, Client.awaitAll [⟨1, "a"⟩, ⟨2, "b"⟩, ⟨3, "c"⟩]
        { inbound := [sampleReply 2 .null, sampleReply 1 .null, .closed], output }
      = ([.ok none, .error .exited], { inbound := [], output })) ∧
    ∀ output, Client.awaitAll [⟨1, "a"⟩, ⟨2, "b"⟩, ⟨3, "c"⟩]
        { inbound := [sampleReply 2 .null, sampleReply 1 .null, .closed], output, writing := false }
      = ([.ok none, .error .exited, .error .exited],
        { inbound := [], output, writing := false }) := by
  have hpass : ∀ o, ¬ Ends ⟨1, "a"⟩ (sampleReply 2 .null) o :=
    decides?_eq_none_iff_forall.mp rfl
  have hends : Ends ⟨1, "a"⟩ (sampleReply 1 .null) (.ok none) := decides?_eq_some_iff.mp rfl
  have hturns : ∀ gone, InTurn gone [⟨1, "a"⟩, ⟨2, "b"⟩]
      [sampleReply 2 .null, sampleReply 1 .null, .closed]
      [[sampleReply 2 .null, sampleReply 1 .null], [.closed]] [.ok none, .error .exited] [] :=
    fun _ => .cons ((Takes.first _ hends).pass hpass) (.cons (.first _ .exited) (.nil _))
  have hthird : ∀ gone, gone → InTurn gone [⟨1, "a"⟩, ⟨2, "b"⟩, ⟨3, "c"⟩]
      [sampleReply 2 .null, sampleReply 1 .null, .closed]
      [[sampleReply 2 .null, sampleReply 1 .null], [.closed], []]
      [.ok none, .error .exited, .error .exited] [] :=
    fun _ ho => .cons ((Takes.first _ hends).pass hpass) (.cons (.first _ .exited)
      (.cons (.exhausted ho (passes_nil _)) (.nil _)))
  refine ⟨hturns, fun output => ?_, fun output => ?_⟩
  · exact (waits_take_in_turn.1 _ _ _ _).mpr ⟨_, [], rfl,
      .blocked _ ⟨3, "c"⟩ [] [] rfl (hturns _) (by simp [Client.Over]) (passes_nil _)⟩
  · exact (waits_take_in_turn.1 _ _ _ _).mpr ⟨_, [], rfl, .all (hthird _ ⟨rfl, rfl⟩)⟩

/-- A server that says nothing and goes on running is waited for. -/
example (room : Option Nat) : (Client.ofSilentServer room).awaitAll [⟨1, "a"⟩]
    = ([], Client.ofSilentServer room) := rfl

end BufferCheck.Server
