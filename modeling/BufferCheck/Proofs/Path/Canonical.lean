import BufferCheck.Proofs.Path.Relative

/-! Normal paths, told by their text. The normal form of a path is the one normal path of its kind
that leads where the path leads from every directory. -/
namespace BufferCheck.Path

variable {path base : String} {ns down walked : List String} {rooted closed : Bool}

/-- Nothing can be taken back from names: `..` stands only in front, and not below the root. -/
def Reduced (rooted : Bool) (ns : List String) : Prop :=
  ∃ up down, ns = List.replicate up ".." ++ down ∧ ".." ∉ down ∧ (rooted = true → up = 0)

/-- A path in normal form, as its text shows it. -/
structure IsNormal (path : String) : Prop where
  ne_empty : path ≠ ""
  /-- No two separators stand side by side. -/
  single : ¬ [separator, separator] <:+: path.toList
  /-- Only a path that has no name at all has the piece `.`. -/
  dot : "." ∈ pieces path → path = "." ∨ path = "./"
  reduced : Reduced (isRooted path) (pieces path)

section Reduced

theorem walk_replicate_dots (up : Nat) :
    walk false (List.replicate up "..") ".." = List.replicate (up + 1) ".." := by
  cases up with
  | zero => rfl
  | succ up => simp [walk, List.replicate_succ]

theorem foldl_walk_replicate_dots (up : Nat) :
    (List.replicate up "..").foldl (walk false) [] = List.replicate up ".." := by
  induction up with
  | zero => rfl
  | succ up ih => rw [List.replicate_succ', List.foldl_append, ih, List.foldl_cons,
      List.foldl_nil, walk_replicate_dots, List.replicate_succ']

/-- One more name walked leaves nothing to take back. -/
theorem Reduced.walk (h : Reduced rooted walked.reverse) (n : String) :
    Reduced rooted (Path.walk rooted walked n).reverse := by
  obtain ⟨up, down, he, hd, hr⟩ := h
  obtain rfl : walked = down.reverse ++ List.replicate up ".." := by
    rw [List.reverse_eq_iff.mp he]
    simp
  by_cases hn : n = ".."
  · subst hn
    rcases List.eq_nil_or_concat' down with rfl | ⟨init, last, rfl⟩
    · cases rooted with
      | true => exact ⟨0, [], by simp [hr rfl, Path.walk], by simp, fun _ => rfl⟩
      | false => exact ⟨up + 1, [], by simp [walk_replicate_dots], by simp, by simp⟩
    · have hl : last ≠ ".." := fun he => hd (by simp [he])
      exact ⟨up, init, by simp [Path.walk, hl], fun hm => hd (by simp [hm]), hr⟩
  · exact ⟨up, down ++ [n], by simp [walk_of_ne hn], by simp [hd, Ne.symm hn], hr⟩

theorem reduced_reduce (rooted : Bool) (ns : List String) : Reduced rooted (reduce rooted ns) := by
  have hwalk : ∀ walked, Reduced rooted walked.reverse →
      Reduced rooted (ns.foldl (Path.walk rooted) walked).reverse := by
    induction ns with
    | nil => exact fun _ h => h
    | cons n ns ih => exact fun walked h => ih _ (h.walk n)
  exact hwalk [] ⟨0, [], rfl, by simp, fun _ => rfl⟩

theorem reduce_of_reduced (h : Reduced rooted ns) : reduce rooted ns = ns := by
  obtain ⟨up, down, rfl, hd, hr⟩ := h
  have hup : (List.replicate up "..").foldl (walk rooted) [] = List.replicate up ".." := by
    cases rooted with
    | true => simp [hr rfl]
    | false => exact foldl_walk_replicate_dots up
  rw [reduce, List.foldl_append, hup, foldl_walk_of_notMem hd]
  simp

end Reduced

section Normal

theorem glue_append {as bs : List (List Char)} (ha : as ≠ []) (hb : bs ≠ []) :
    glue (as ++ bs) = glue as ++ separator :: glue bs := by
  induction as with
  | nil => exact (ha rfl).elim
  | cons a as ih =>
    obtain ⟨b, bs, rfl⟩ := List.exists_cons_of_ne_nil hb
    cases as with
    | nil => rfl
    | cons c as =>
      rw [List.cons_append, List.cons_append, glue_cons_cons, ← List.cons_append,
        ih (List.cons_ne_nil c as), glue_cons_cons]
      simp

/-- Two separators stand side by side where an empty piece is neither first nor last. -/
theorem doubled_iff : [separator, separator] <:+: path.toList ↔
    ∃ before after, before ≠ [] ∧ after ≠ [] ∧ pieces path = before ++ "" :: after := by
  constructor
  · rintro ⟨as, bs, he⟩
    have hl : path.toList = as ++ separator :: ([] ++ separator :: bs) := by simp [← he]
    refine ⟨(cut as).map String.ofList, (cut bs).map String.ofList, by simp [cut_ne_nil],
      by simp [cut_ne_nil], ?_⟩
    rw [pieces, hl, cut_append_separator, cut_append_separator]
    simp [cut]
  · rintro ⟨before, after, hb, ha, hp⟩
    refine ⟨glue (before.map String.toList), glue (after.map String.toList), ?_⟩
    have hl := congrArg String.toList (ofPieces_pieces path)
    rw [hp, toList_ofPieces, List.map_append, glue_append (by simpa using hb) (by simp)] at hl
    obtain ⟨a, rest, rfl⟩ := List.exists_cons_of_ne_nil ha
    rw [← hl]
    simp [glue_cons_cons]

theorem not_doubled_of_pieces (h : ∀ n ∈ ns, IsName n)
    (hp : pieces path = edge rooted ++ ns ++ edge closed) :
    ¬ [separator, separator] <:+: path.toList := by
  rw [doubled_iff]
  rintro ⟨before, after, hb, ha, he⟩
  have hinner : "" ∈ (pieces path).tail.dropLast := by
    obtain ⟨p, before, rfl⟩ := List.exists_cons_of_ne_nil hb
    obtain ⟨init, q, rfl⟩ := (List.eq_nil_or_concat' after).resolve_left ha
    rw [he, List.cons_append, List.tail_cons, ← List.cons_append, ← List.append_assoc,
      List.dropLast_concat]
    simp
  have hsub : ∀ p ∈ (edge rooted ++ ns ++ edge closed).tail.dropLast, p ∈ ns := by
    intro p hm
    cases rooted with
    | true =>
      cases closed with
      | true => simpa [edge] using hm
      | false => exact List.dropLast_subset _ (by simpa [edge] using hm)
    | false =>
      cases closed with
      | true => exact List.mem_of_mem_tail (by simpa [edge, ← List.tail_dropLast] using hm)
      | false =>
        exact List.mem_of_mem_tail (List.dropLast_subset _ (by simpa [edge] using hm))
  exact (h "" (hsub "" (hp ▸ hinner))).ne_empty rfl

theorem isNormal_of_pieces (h : ∀ n ∈ ns, IsName n) (hne : ns ≠ []) (hr : Reduced rooted ns)
    (hp : pieces path = edge rooted ++ ns ++ edge closed) : IsNormal path := by
  have hs := ofPath_of_pieces h hne hp
  refine ⟨?_, not_doubled_of_pieces h hp, fun hd => ?_, ?_⟩
  · rintro rfl
    have hnil : names "" = [] := by decide +kernel
    exact hne ((congrArg Spelling.names hs).symm.trans hnil)
  · have hm : "." ∈ ns := by
      rw [hp] at hd
      cases rooted <;> cases closed <;> simpa [edge] using hd
    exact absurd (h "." hm).1 (by decide)
  · obtain ⟨up, down, rfl, hd, hu⟩ := hr
    have hroot : isRooted path = rooted := congrArg Spelling.rooted hs
    have hedge : ".." ∉ edge closed := by cases closed <;> simp [edge]
    rw [hroot, hp]
    cases rooted with
    | true => exact ⟨0, "" :: down ++ edge closed, by simp [hu rfl, edge], by simp [hd, hedge],
        fun _ => rfl⟩
    | false => exact ⟨up, down ++ edge closed, by simp [edge], by simp [hd, hedge], by simp⟩

/-- Where no separators are side by side, only the first and the last piece can be empty. -/
theorem exists_pieces_eq (hne : path ≠ "") (hroot : path ≠ "/")
    (hs : ¬ [separator, separator] <:+: path.toList) :
    ∃ rooted ns closed, ns ≠ [] ∧ "" ∉ ns ∧ pieces path = edge rooted ++ ns ++ edge closed := by
  have hpath := ofPieces_pieces path
  obtain ⟨p, rest, hp⟩ := List.exists_cons_of_ne_nil (l := pieces path)
    (by simp [pieces, cut_ne_nil])
  rcases List.eq_nil_or_concat' rest with rfl | ⟨mid, q, rfl⟩
  · have hpne : p ≠ "" := by
      rintro rfl
      rw [hp] at hpath
      exact hne hpath.symm
    exact ⟨false, [p], false, by simp, by simpa using hpne.symm, by simp [hp, edge]⟩
  · have hmid : "" ∉ mid := by
      intro hm
      obtain ⟨before, after, rfl⟩ := List.append_of_mem hm
      exact hs (doubled_iff.mpr ⟨p :: before, after ++ [q], by simp, by simp, by simp [hp]⟩)
    by_cases hfirst : p = "" <;> by_cases hlast : q = ""
    · subst hfirst hlast
      refine ⟨true, mid, true, ?_, hmid, by simp [hp, edge]⟩
      rintro rfl
      rw [hp] at hpath
      exact hroot hpath.symm
    · exact ⟨true, mid ++ [q], false, by simp, by simp [hmid, Ne.symm hlast],
        by simp [hp, hfirst, edge]⟩
    · exact ⟨false, p :: mid, true, by simp, by simp [hmid, Ne.symm hfirst],
        by simp [hp, hlast, edge]⟩
    · exact ⟨false, p :: mid ++ [q], false, by simp,
        by simp [hmid, Ne.symm hfirst, Ne.symm hlast], by simp [hp, edge]⟩

/-- The spellings without a name have normal texts. -/
theorem isNormal_of_mem (h : path ∈ ["/", ".", "./"]) : IsNormal path := by
  have hd : ∀ p ∈ ["/", ".", "./"], p ≠ "" ∧ ¬ [separator, separator] <:+: p.toList ∧
      ("." ∈ pieces p → p = "." ∨ p = "./") ∧ ".." ∉ pieces p := by decide +kernel
  obtain ⟨hne, hs, hdot, hdots⟩ := hd path h
  exact ⟨hne, hs, hdot, 0, pieces path, rfl, hdots, fun _ => rfl⟩

theorem isNormal_normalize (path : String) : IsNormal (normalize path) := by
  obtain ⟨closed, -, ht⟩ := exists_ofPath_normalize path
  have hnames : ∀ n ∈ reduce (isRooted path) (names path), IsName n :=
    fun n hn => isName_of_mem_reduce hn
  rw [ht]
  by_cases hne : reduce (isRooted path) (names path) = []
  · have hnone : ∀ r c : Bool, Spelling.text ⟨r, [], c⟩ ∈ ["/", ".", "./"] := by decide +kernel
    rw [hne]
    exact isNormal_of_mem (hnone _ _)
  · exact isNormal_of_pieces hnames hne (reduced_reduce _ _) (pieces_text hnames hne)

/-- The normal paths are those that are their own normal form. -/
theorem normalize_eq_self_iff : normalize path = path ↔ IsNormal path := by
  refine ⟨fun h => h ▸ isNormal_normalize path, fun h => ?_⟩
  by_cases hnone : path = "/" ∨ path = "." ∨ path = "./"
  · rcases hnone with rfl | rfl | rfl <;> decide +kernel
  -- Any other normal path has a name, and its pieces are those of the text of its spelling.
  obtain ⟨hroot, hdot, hdots⟩ : path ≠ "/" ∧ path ≠ "." ∧ path ≠ "./" := by simpa using hnone
  obtain ⟨rooted, ns, closed, hne, hempty, hp⟩ := exists_pieces_eq h.ne_empty hroot h.single
  have hnames : ∀ n ∈ ns, IsName n := by
    intro n hn
    have hm : n ∈ pieces path := by simp [hp, hn]
    refine ⟨?_, notMem_of_mem_pieces hm⟩
    have hn1 : n ≠ "" := fun he => hempty (he ▸ hn)
    have hn2 : n ≠ "." := fun he => (h.dot (he ▸ hm)).elim hdot hdots
    simp [isIdle, hn1, hn2]
  have hs := ofPath_of_pieces hnames hne hp
  have hreduced : Reduced rooted ns := by
    obtain ⟨up, down, he, hd, hu⟩ := h.reduced
    have hn : names path = ns := congrArg Spelling.names hs
    have hr : isRooted path = rooted := congrArg Spelling.rooted hs
    refine ⟨up, down.filter (!isIdle ·), ?_, fun hm => hd (List.mem_of_mem_filter hm),
      fun ht => hu (hr.trans ht)⟩
    rw [← hn, names, he, List.filter_append, List.filter_replicate]
    simp [isIdle]
  calc normalize path = Spelling.text ⟨rooted, reduce rooted ns, closed⟩ := by rw [normalize, hs]
    _ = ofPieces (pieces path) := by rw [reduce_of_reduced hreduced, text_of_ne_nil hne, hp]
    _ = path := ofPieces_pieces path

end Normal

section Leads

variable {other name : String}

/-- Each `..` in front of names takes back one name of the directory that they are seen from. -/
theorem reduce_climb {ms : List String} (hm : ".." ∉ ms) (hd : ".." ∉ down) (up : Nat) :
    reduce true (ms ++ (List.replicate up ".." ++ down)) = ms.take (ms.length - up) ++ down := by
  have hclimb : (List.replicate up "..").foldl (walk true) ms.reverse
      = (ms.take (ms.length - up)).reverse := by
    induction up with
    | zero => simp
    | succ up ih =>
      have hkept : ".." ∉ (ms.take (ms.length - up)).reverse := fun hmem =>
        hm (List.mem_of_mem_take (List.mem_reverse.mp hmem))
      rw [List.replicate_succ', List.foldl_append, ih, List.foldl_cons, List.foldl_nil,
        walk_rooted_dots hkept, List.tail_reverse, List.dropLast_eq_take, List.take_take,
        List.length_take]
      congr 2
      omega
  rw [reduce, List.foldl_append, foldl_walk_of_notMem hm, List.append_nil, List.foldl_append,
    hclimb, foldl_walk_of_notMem hd]
  simp

/-- Seen from directories whose names are all alike, names climb and go down. -/
theorem exists_climb (ns : List String) : ∃ up down,
    reduce false ns = List.replicate up ".." ++ down ∧
      ∀ name depth, name ≠ ".." → reduce true (List.replicate depth name ++ ns)
        = List.replicate (depth - up) name ++ down := by
  obtain ⟨up, down, he, hd, -⟩ := reduced_reduce false ns
  refine ⟨up, down, he, fun name depth hx => ?_⟩
  rw [← reduce_append_reduce, he, reduce_climb (by simp [Ne.symm hx]) hd, List.take_replicate,
    List.length_replicate, Nat.min_eq_left (Nat.sub_le depth up)]

/-- No list starts with either of two names. -/
theorem not_forall_cons (r : List String) (rest : String → List String) :
    ¬ ∀ name ∈ ["a", "b"], name :: rest name = r := by
  intro h
  have ha := h "a" (by simp)
  have hb := h "b" (by simp)
  exact absurd (List.cons.inj (ha.trans hb.symm)).1 (by decide)

theorem le_of_forall_replicate {u v : Nat} {as bs : List String}
    (h : ∀ name ∈ ["a", "b"], List.replicate v name ++ as = List.replicate u name ++ bs) :
    v ≤ u := by
  by_contra hlt
  obtain ⟨k, rfl⟩ : ∃ k, v = u + (k + 1) := ⟨v - u - 1, by omega⟩
  refine not_forall_cons bs (fun name => List.replicate k name ++ as) fun name hn => ?_
  have he := h name hn
  rw [List.replicate_add, List.append_assoc] at he
  simpa [List.replicate_succ] using List.append_cancel_left he

/-- Where a path leads from all directories tells where it starts and what is left of its names. -/
theorem reduce_names_eq
    (h : ∀ base, isRooted base = true → toAbsolute base path = toAbsolute base other) :
    isRooted path = isRooted other ∧
      reduce (isRooted path) (names path) = reduce (isRooted other) (names other) := by
  obtain ⟨u, as, hu, hclimb⟩ := exists_climb (names path)
  obtain ⟨v, bs, hv, hclimb'⟩ := exists_climb (names other)
  have hlead : ∀ name ∈ ["a", "b"], ∀ depth,
      (if isRooted path then reduce true (names path)
        else List.replicate (depth - u) name ++ as)
      = if isRooted other then reduce true (names other)
        else List.replicate (depth - v) name ++ bs := by
    intro name hn depth
    have hname : ∀ n ∈ ["a", "b"], isIdle n = false ∧ separator ∉ n.toList ∧ n ≠ ".." := by
      decide +kernel
    have hdir : ∀ n ∈ List.replicate depth name, IsName n := by
      intro n hm
      rw [List.eq_of_mem_replicate hm]
      exact ⟨(hname name hn).1, (hname name hn).2.1⟩
    have he := congrArg names (h (ofNames (List.replicate depth name)) isRooted_ofNames)
    rw [names_toAbsolute isRooted_ofNames, names_toAbsolute isRooted_ofNames,
      names_ofNames hdir, apply_ite (reduce true), apply_ite (reduce true)] at he
    rwa [← hclimb name depth (hname name hn).2.2, ← hclimb' name depth (hname name hn).2.2]
  cases hp : isRooted path <;> cases ho : isRooted other
  · -- Both are relative: they climb equally far, as directories of two names show.
    simp only [hp, ho, Bool.false_eq_true, if_false] at hlead
    have hle : v ≤ u := le_of_forall_replicate fun name hn => by
      simpa using hlead name hn (u + v)
    have hge : u ≤ v := le_of_forall_replicate fun name hn => by
      simpa using (hlead name hn (u + v)).symm
    obtain rfl := Nat.le_antisymm hle hge
    have he := List.append_cancel_left (hlead "a" (by simp) 0)
    exact ⟨rfl, by rw [hu, hv, he]⟩
  · refine (not_forall_cons (reduce true (names other)) (fun _ => as) fun name hn => ?_).elim
    simpa [hp, ho] using hlead name hn (u + 1)
  · refine (not_forall_cons (reduce true (names path)) (fun _ => bs) fun name hn => ?_).elim
    simpa [hp, ho] using (hlead name hn (v + 1)).symm
  · simp only [hp, ho, if_true] at hlead
    exact ⟨rfl, hlead "a" (by simp) 0⟩

end Leads

/-- The normal form of a path is normal and leads where the path leads. Of two paths that both end
in a separator or both do not, the normal forms are the same exactly if the paths lead to the same
place from every directory. -/
theorem normalize_canonical (path : String) :
    IsNormal (normalize path) ∧ isRooted (normalize path) = isRooted path ∧
      normalize (normalize path) = normalize path ∧
      (∀ base, isRooted base = true →
        toAbsolute base (normalize path) = toAbsolute base path) ∧
      ∀ other, endsInSeparator path = endsInSeparator other →
        ((∀ base, isRooted base = true → toAbsolute base path = toAbsolute base other) ↔
          normalize path = normalize other) := by
  have hn := isNormal_normalize path
  refine ⟨hn, isRooted_normalize path, normalize_eq_self_iff.mpr hn,
    fun base hb => toAbsolute_normalize_eq hb, fun other hc => ⟨fun h => ?_, fun h base hb => ?_⟩⟩
  · obtain ⟨hr, hreduce⟩ := reduce_names_eq h
    rw [normalize_eq_text, normalize_eq_text, hreduce, hr, hc]
  · rw [← toAbsolute_normalize_eq hb, h, toAbsolute_normalize_eq hb]

end BufferCheck.Path
