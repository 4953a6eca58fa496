import BufferCheck.Proofs.Path.Relative

/-! Paths that go straight down from the root: no `..` in them. Directories above such a path and
paths below one are straight too, and a straight path is spelled plainly in one way only. -/
namespace BufferCheck.Path

variable {base path directory : String}

/-- A rooted path without `..`. -/
structure Straight (path : String) : Prop where
  rooted : isRooted path = true
  notMem : ".." ∉ names path

theorem straight_toAbsolute (hb : isRooted base = true) : Straight (toAbsolute base path) := by
  refine ⟨isRooted_toAbsolute hb, ?_⟩
  rw [names_toAbsolute hb]
  exact dots_notMem_reduce _

theorem straight_of_normalize_eq (hr : isRooted path = true) (h : normalize path = path) :
    Straight path := by
  refine ⟨hr, ?_⟩
  rw [← h, names_normalize, hr]
  exact dots_notMem_reduce _

theorem names_of_pieces {rest : List String} (h : pieces path = "" :: rest) :
    names path = rest.filter (!isIdle ·) := by
  simp [names, h, isIdle_empty]

/-- A rooted path is spelled plainly by its names. -/
theorem plain_of_isRooted (h : isRooted path = true) :
    plain path = ofPieces ("" :: names path) := by
  obtain ⟨rest, -, hp⟩ := pieces_of_isRooted h
  rw [names_of_pieces hp, plain, hp]

theorem plain_eq_iff {a b : String} (ha : isRooted a = true) (hb : isRooted b = true) :
    plain a = plain b ↔ names a = names b := by
  rw [plain_of_isRooted ha, plain_of_isRooted hb]
  refine ⟨fun h => ?_, fun h => by rw [h]⟩
  have hp := congrArg pieces h
  rw [pieces_ofPieces (List.cons_ne_nil _ _) (notMem_of_names fun n => isName_of_mem_names),
    pieces_ofPieces (List.cons_ne_nil _ _) (notMem_of_names fun n => isName_of_mem_names)] at hp
  exact (List.cons.inj hp).2

section Above

theorem trimIdle_suffix (ps : List String) : trimIdle ps <:+ ps := by
  fun_induction trimIdle ps with
  | case1 x y rest _ ih => exact ih.trans (List.suffix_cons x _)
  | case2 => exact List.suffix_rfl
  | case3 => exact List.suffix_rfl

theorem trimIdle_ne_nil {ps : List String} (h : ps ≠ []) : trimIdle ps ≠ [] := by
  fun_induction trimIdle ps with
  | case1 x y rest _ ih => exact ih (List.cons_ne_nil y rest)
  | case2 => exact List.cons_ne_nil _ _
  | case3 => exact h

theorem parents_suffix {ps q : List String} (hl : ps.getLast? = some "") (h : q ∈ parents ps) :
    q <:+ ps ∧ q ≠ [] := by
  fun_induction parents ps with
  | case1 => simp at h
  | case2 => simp at h
  | case3 x hx => simp_all
  | case4 x y rest _ ih =>
    obtain ⟨hs, hq⟩ := ih (by simpa using hl) h
    exact ⟨hs.trans (List.suffix_cons x _), hq⟩
  | case5 x y rest _ ih =>
    rcases List.mem_cons.mp h with rfl | h
    · exact ⟨(trimIdle_suffix _).trans (List.suffix_cons x _),
        trimIdle_ne_nil (List.cons_ne_nil y rest)⟩
    · obtain ⟨hs, hq⟩ := ih (by simpa using hl) h
      exact ⟨hs.trans (List.suffix_cons x _), hq⟩

theorem isIdle_of_parents_eq_nil {ps : List String} (hl : ps.getLast? = some "")
    (h : parents ps = []) : ∀ p ∈ ps, isIdle p = true := by
  fun_induction parents ps with
  | case1 => simp
  | case2 => simp [isIdle]
  | case3 => simp at h
  | case4 x y rest hx ih =>
    intro p hp
    rcases List.mem_cons.mp hp with rfl | hp
    · exact hx
    · exact ih (by simpa using hl) h p hp
  | case5 => simp at h

theorem getLast?_reverse_pieces (h : isRooted path = true) :
    (pieces path).reverse.getLast? = some "" := by
  obtain ⟨rest, -, hp⟩ := pieces_of_isRooted h
  simp [hp]

/-- Dropping pieces from the end of a rooted path leaves a rooted path with fewer names. -/
theorem names_ofReversed {q : List String} (hr : isRooted path = true)
    (hq : q <:+ (pieces path).reverse) (hne : q ≠ []) :
    isRooted (ofReversed q) = true ∧ names (ofReversed q) <+: names path := by
  obtain ⟨front, hf⟩ : q.reverse <+: pieces path := by
    simpa using List.reverse_prefix.mpr hq
  obtain ⟨rest, -, hp⟩ := pieces_of_isRooted hr
  obtain ⟨first, more, hm⟩ := List.exists_cons_of_ne_nil (l := q.reverse) (by simpa using hne)
  have hfirst : first = "" := by
    rw [hm, hp, List.cons_append] at hf
    exact (List.cons.inj hf).1
  have hpre : (q.reverse).filter (!isIdle ·) <+: names path := by
    rw [names, ← hf, List.filter_append]
    exact List.prefix_append _ _
  subst hfirst
  by_cases hmore : more = []
  · have hq1 : q = [""] := List.reverse_injective (by simpa [hmore] using hm)
    subst hq1
    refine ⟨isRooted_iff.mpr ⟨[], rfl⟩, ?_⟩
    simp [ofReversed, names, pieces_root, isIdle]
  · have hq1 : q ≠ [""] := by
      rintro rfl
      simp_all
    have hs : ∀ p ∈ "" :: more, separator ∉ p.toList := by
      intro p hp
      have hp : p ∈ pieces path := by rw [← hf, hm]; exact List.mem_append_left _ hp
      exact notMem_of_mem_pieces hp
    rw [ofReversed, if_neg hq1, hm]
    refine ⟨isRooted_ofPieces hmore, ?_⟩
    rw [names, pieces_ofPieces (List.cons_ne_nil _ _) hs, ← hm]
    exact hpre

theorem names_of_mem_ancestors (hr : isRooted path = true) (h : directory ∈ ancestors path) :
    isRooted directory = true ∧ names directory <+: names path := by
  rcases List.mem_cons.mp h with rfl | h
  · exact ⟨hr, List.prefix_rfl⟩
  · obtain ⟨q, hq, rfl⟩ := List.mem_map.mp h
    obtain ⟨hs, hne⟩ := parents_suffix (getLast?_reverse_pieces hr) hq
    exact names_ofReversed hr hs hne

theorem names_parent (hr : isRooted path = true) (hne : names path ≠ []) :
    isRooted (parent path) = true ∧ names (parent path) <+: names path := by
  have hl := getLast?_reverse_pieces hr
  rw [parent]
  cases hps : parents (pieces path).reverse with
  | nil =>
    have hi := isIdle_of_parents_eq_nil hl hps
    exact (hne (List.filter_eq_nil_iff.mpr fun p hp => by simp [hi p (by simpa using hp)])).elim
  | cons q qs =>
    obtain ⟨hs, hq⟩ := parents_suffix hl (q := q) (by simp [hps])
    exact names_ofReversed hr hs hq

theorem Straight.of_mem_ancestors (h : Straight path) (hd : directory ∈ ancestors path) :
    Straight directory := by
  obtain ⟨hr, hp⟩ := names_of_mem_ancestors h.rooted hd
  exact ⟨hr, fun hm => h.notMem (hp.subset hm)⟩

theorem Straight.parent (h : Straight path) (hne : names path ≠ []) : Straight (parent path) := by
  obtain ⟨hr, hp⟩ := names_parent h.rooted hne
  exact ⟨hr, fun hm => h.notMem (hp.subset hm)⟩

end Above

section Below

theorem isRooted_child (h : isRooted directory = true) (path : String) :
    isRooted (child directory path) = true := by
  unfold child
  split
  · assumption
  · split
    · exact isRooted_append h path
    · exact isRooted_append (isRooted_append h "/") path

theorem names_child (directory : String) (hp : isRooted path = false) :
    names (child directory path) = names directory ++ names path := by
  have hnil : names "" = [] := by decide +kernel
  rw [child, if_neg (by simp [hp])]
  split
  · next h =>
    rw [Bool.or_eq_true, decide_eq_true_iff] at h
    rcases h with rfl | h
    · simp [hnil]
    · obtain ⟨front, rfl⟩ := exists_of_endsInSeparator h
      have hn : names (front ++ "/") = names front := by
        simp [names, pieces_append_slash, isIdle_empty]
      rw [names_append_separator, hn]
  · exact names_append_separator directory path

theorem Straight.child (h : Straight directory) (hn : ".." ∉ names path)
    (hp : isRooted path = false) : Straight (child directory path) := by
  refine ⟨isRooted_child h.rooted path, ?_⟩
  rw [names_child directory hp, List.mem_append, not_or]
  exact ⟨h.notMem, hn⟩

/-- A long extension at the end of a path makes no new `..`. -/
theorem Straight.append {extension : String} (h : Straight path)
    (hs : separator ∉ extension.toList) (hx : 2 < extension.length) :
    Straight (path ++ extension) := by
  obtain ⟨init, last, hp, hpx⟩ := pieces_append_of_notMem path hs
  refine ⟨isRooted_append h.rooted extension, fun hm => ?_⟩
  obtain ⟨hm, hi⟩ := List.mem_filter.mp hm
  rw [hpx, List.mem_append, List.mem_singleton] at hm
  rcases hm with hm | hm
  · exact h.notMem (List.mem_filter.mpr ⟨by simp [hp, hm], hi⟩)
  · have := congrArg String.length hm
    rw [String.length_append, show "..".length = 2 from rfl] at this
    omega

end Below

end BufferCheck.Path
