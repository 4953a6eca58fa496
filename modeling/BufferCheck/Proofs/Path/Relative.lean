import BufferCheck.Proofs.Path.Names

/-! A path in normal form leads where the path leads, also from a directory. It is spelled by what
is left of the names of the path, and bringing a relative path to its normal form takes no `..` back
that would lead above the start. -/
namespace BufferCheck.Path

variable {base path : String} {ns walked : List String} {rooted closed : Bool}

section Walk

/-- One more name walked from a relative start is one more name walked from below the root. -/
theorem foldl_walk_reverse_walk (walked kept : List String) (n : String) :
    (walk false kept n).reverse.foldl (walk true) walked
      = walk true (kept.reverse.foldl (walk true) walked) n := by
  by_cases hn : n = ".."
  · subst hn
    cases kept with
    | nil => rfl
    | cons last rest =>
      by_cases hl : last = ".."
      · subst hl
        simp [walk]
      · simp [walk, hl]
  · simp [walk, hn]

/-- Names and what is left of them from a relative start lead to the same place. -/
theorem foldl_walk_reduce (walked ns : List String) :
    (reduce false ns).foldl (walk true) walked = ns.foldl (walk true) walked := by
  suffices h : ∀ kept, (ns.foldl (walk false) kept).reverse.foldl (walk true) walked
      = ns.foldl (walk true) (kept.reverse.foldl (walk true) walked) from h []
  induction ns with
  | nil => exact fun _ => rfl
  | cons n ns ih =>
    intro kept
    rw [List.foldl_cons, ih, foldl_walk_reverse_walk, List.foldl_cons]

theorem reduce_append_reduce (ms ns : List String) :
    reduce true (ms ++ reduce false ns) = reduce true (ms ++ ns) := by
  rw [reduce, List.foldl_append, foldl_walk_reduce, ← List.foldl_append, ← reduce]

theorem reduce_reduce_append (ms ns : List String) :
    reduce true (reduce true ms ++ ns) = reduce true (ms ++ ns) := by
  have hms : (reduce true ms).foldl (walk true) [] = ms.foldl (walk true) [] := by
    rw [foldl_walk_of_notMem (dots_notMem_reduce ms), reduce]
    simp
  rw [reduce, List.foldl_append, hms, ← List.foldl_append, ← reduce]

end Walk

section Text

/-- The pieces that a separator in front or at the end makes. -/
def edge (there : Bool) : List String := if there then [""] else []

theorem text_of_ne_nil (hne : ns ≠ []) :
    Spelling.text ⟨rooted, ns, closed⟩ = ofPieces (edge rooted ++ ns ++ edge closed) := by
  obtain ⟨n, rest, rfl⟩ := List.exists_cons_of_ne_nil hne
  cases rooted <;> rfl

theorem pieces_text (h : ∀ n ∈ ns, IsName n) (hne : ns ≠ []) :
    pieces (Spelling.text ⟨rooted, ns, closed⟩) = edge rooted ++ ns ++ edge closed := by
  rw [text_of_ne_nil hne]
  refine pieces_ofPieces (by simp [hne]) fun p hp => ?_
  rcases List.mem_append.mp hp with hp | hp
  · rcases List.mem_append.mp hp with hp | hp
    · cases rooted <;> simp_all [edge]
    · exact (h p hp).2
  · cases closed <;> simp_all [edge]

theorem isRooted_iff_pieces :
    isRooted path = true ↔ ∃ rest, rest ≠ [] ∧ pieces path = "" :: rest := by
  refine ⟨pieces_of_isRooted, fun ⟨rest, hne, hp⟩ => ?_⟩
  rw [← ofPieces_pieces path, hp]
  exact isRooted_ofPieces hne

theorem endsInSeparator_iff_pieces :
    endsInSeparator path = true ↔ ∃ init, init ≠ [] ∧ pieces path = init ++ [""] := by
  constructor
  · intro h
    obtain ⟨front, rfl⟩ := exists_of_endsInSeparator h
    exact ⟨pieces front, by simp [pieces, cut_ne_nil], pieces_append_slash front⟩
  · rintro ⟨init, hne, hp⟩
    have hlist : path.toList = glue (init.map String.toList) ++ [separator] := by
      rw [← glue_append_nil (by simpa using hne), ← ofPieces_pieces path, hp, toList_ofPieces]
      simp
    rw [endsInSeparator, decide_eq_true_iff, String.back?_eq, hlist]
    simp

theorem ofPath_eq (hr : isRooted path = rooted) (hn : names path = ns)
    (hc : endsInSeparator path = closed) : Spelling.ofPath path = ⟨rooted, ns, closed⟩ := by
  rw [← hr, ← hn, ← hc]
  rfl

/-- A path is spelled by its pieces. -/
theorem ofPath_of_pieces (h : ∀ n ∈ ns, IsName n) (hne : ns ≠ [])
    (hp : pieces path = edge rooted ++ ns ++ edge closed) :
    Spelling.ofPath path = ⟨rooted, ns, closed⟩ := by
  have hempty : "" ∉ ns := fun hm => (h "" hm).ne_empty rfl
  refine ofPath_eq ?_ ?_ ?_
  · rw [Bool.eq_iff_iff, isRooted_iff_pieces, hp]
    obtain ⟨n, rest, rfl⟩ := List.exists_cons_of_ne_nil hne
    cases rooted with
    | true => simp [edge]
    | false =>
      have hn : n ≠ "" := fun he => hempty (by simp [he])
      simp [edge, hn]
  · rw [names, hp, List.filter_append, List.filter_append, filter_names h]
    cases rooted <;> cases closed <;> simp [edge, isIdle]
  · rw [Bool.eq_iff_iff, endsInSeparator_iff_pieces, hp]
    obtain ⟨init, last, rfl⟩ := (List.eq_nil_or_concat' ns).resolve_left hne
    cases closed with
    | true => exact iff_of_true ⟨edge rooted ++ (init ++ [last]), by simp, rfl⟩ rfl
    | false =>
      refine iff_of_false ?_ Bool.false_ne_true
      rintro ⟨front, -, he⟩
      refine hempty ?_
      have hlast := congrArg List.getLast? he
      simp only [edge, Bool.false_eq_true, if_false, List.append_nil, ← List.append_assoc,
        List.getLast?_concat, Option.some.injEq] at hlast
      simp [hlast]

/-- The text of a spelling spells it, if the names are names and the root is written closed. -/
theorem ofPath_text (h : ∀ n ∈ ns, IsName n) (hc : rooted = true → ns = [] → closed = true) :
    Spelling.ofPath (Spelling.text ⟨rooted, ns, closed⟩) = ⟨rooted, ns, closed⟩ := by
  by_cases hne : ns = []
  · subst hne
    have hnone : ∀ r c : Bool, (r = true → c = true) →
        isRooted (Spelling.text ⟨r, [], c⟩) = r ∧ names (Spelling.text ⟨r, [], c⟩) = [] ∧
          endsInSeparator (Spelling.text ⟨r, [], c⟩) = c := by decide +kernel
    obtain ⟨hr, hn, he⟩ := hnone rooted closed fun h => hc h rfl
    exact ofPath_eq hr hn he
  · exact ofPath_of_pieces h hne (pieces_text h hne)

theorem normalize_eq_text (path : String) : normalize path = Spelling.text
    ⟨isRooted path, reduce (isRooted path) (names path), endsInSeparator path⟩ := rfl

/-- The normal form of a path keeps where it starts and what is left of its names. -/
theorem exists_ofPath_normalize (path : String) : ∃ closed,
    Spelling.ofPath (normalize path)
        = ⟨isRooted path, reduce (isRooted path) (names path), closed⟩ ∧
      normalize path
        = Spelling.text ⟨isRooted path, reduce (isRooted path) (names path), closed⟩ := by
  have hnames : ∀ n ∈ reduce (isRooted path) (names path), IsName n :=
    fun n hn => isName_of_mem_reduce hn
  by_cases hroot : isRooted path = true ∧ reduce (isRooted path) (names path) = []
  · have htext : normalize path
        = Spelling.text ⟨isRooted path, reduce (isRooted path) (names path), true⟩ := by
      rw [hroot.2, hroot.1, normalize_of_isRooted hroot.1, ← hroot.1, hroot.2, hroot.1]
      rfl
    refine ⟨true, ?_, htext⟩
    rw [htext]
    exact ofPath_text hnames fun _ _ => rfl
  · refine ⟨endsInSeparator path, ?_, rfl⟩
    exact ofPath_text hnames fun hr hn => (hroot ⟨hr, hn⟩).elim

theorem isRooted_normalize (path : String) : isRooted (normalize path) = isRooted path := by
  obtain ⟨closed, hs, -⟩ := exists_ofPath_normalize path
  exact congrArg Spelling.rooted hs

theorem names_normalize (path : String) :
    names (normalize path) = reduce (isRooted path) (names path) := by
  obtain ⟨closed, hs, -⟩ := exists_ofPath_normalize path
  exact congrArg Spelling.names hs

end Text

section Absolute

/-- An absolute path is spelled by its names. -/
theorem ofNames_names_toAbsolute (hb : isRooted base = true) :
    ofNames (names (toAbsolute base path)) = toAbsolute base path := by
  rw [names_toAbsolute hb, toAbsolute_eq_ofNames hb]

/-- Every path leads where its normal form leads. -/
theorem toAbsolute_normalize_eq (hb : isRooted base = true) :
    toAbsolute base (normalize path) = toAbsolute base path := by
  rw [toAbsolute_eq_ofNames hb, toAbsolute_eq_ofNames hb, isRooted_normalize, names_normalize]
  cases isRooted path with
  | true => rw [if_pos rfl, if_pos rfl, reduce_of_notMem (dots_notMem_reduce _)]
  | false => rw [if_neg Bool.false_ne_true, if_neg Bool.false_ne_true, reduce_append_reduce]

theorem isRooted_toAbsolute (hb : isRooted base = true) : isRooted (toAbsolute base path) = true :=
  toAbsolute_eq_ofNames hb ▸ isRooted_ofNames

/-- Only the root is an absolute path with a separator at its end. -/
theorem toAbsolute_eq_root (hb : isRooted base = true)
    (h : endsInSeparator (toAbsolute base path) = true) : toAbsolute base path = "/" := by
  have hnames : ∀ n ∈ names (toAbsolute base path), IsName n := fun n => isName_of_mem_names
  rw [← ofNames_names_toAbsolute hb] at h ⊢
  by_cases hne : names (toAbsolute base path) = []
  · rw [hne, ofNames, if_pos rfl]
  · rw [endsInSeparator_ofNames hnames hne] at h
    cases h

/-- What is seen from an absolute path is seen from the base by way of it. -/
theorem toAbsolute_toAbsolute {rest : String} (hb : isRooted base = true) (hp : path ≠ "")
    (hr : isRooted rest = false) :
    toAbsolute (toAbsolute base path) rest = toAbsolute base (path ++ "/" ++ rest) := by
  have hrooted : isRooted (path ++ "/" ++ rest) = isRooted path := by
    rw [String.append_assoc, isRooted_append_of_ne_empty hp]
  rw [toAbsolute_eq_ofNames (isRooted_toAbsolute hb), names_toAbsolute hb, hr,
    if_neg Bool.false_ne_true, reduce_reduce_append, toAbsolute_eq_ofNames hb, hrooted,
    names_append_separator]
  cases isRooted path with
  | true => rw [if_pos rfl, if_pos rfl]
  | false => rw [if_neg Bool.false_ne_true, if_neg Bool.false_ne_true, List.append_assoc]

/-- A directory and its absolute path are alike to see from. -/
theorem toAbsolute_dot (hb : isRooted base = true) (path : String) :
    toAbsolute (toAbsolute base ".") path = toAbsolute base path := by
  have hdot : isRooted "." = false ∧ names "." = [] := by decide +kernel
  have hnames : names (toAbsolute base ".") = reduce true (names base) := by
    rw [names_toAbsolute hb, hdot.1, hdot.2]
    simp
  rw [toAbsolute_eq_ofNames (isRooted_toAbsolute hb), hnames, toAbsolute_eq_ofNames hb]
  cases isRooted path with
  | true => rfl
  | false => rw [if_neg Bool.false_ne_true, if_neg Bool.false_ne_true, reduce_reduce_append]

/-- Seen from the absolute path of a directory, the normal form of a path leads where the path leads
from the directory. -/
theorem toAbsolute_normalize (hb : isRooted base = true) :
    toAbsolute (toAbsolute base ".") (normalize path) = toAbsolute base path := by
  rw [toAbsolute_dot hb, toAbsolute_normalize_eq hb]

end Absolute

end BufferCheck.Path
