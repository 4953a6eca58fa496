import BufferCheck.Proofs.Path.Cutting
import Mathlib.Data.List.TakeWhile

/-! Rooted paths by their names. A path as seen from a rooted directory is the path of its names. -/
namespace BufferCheck.Path

variable {base path : String} {ns : List String}

/-- The pieces of a path that lead somewhere. -/
def names (path : String) : List String := (pieces path).filter (!isIdle ·)

/-- The rooted path of names. -/
def ofNames (ns : List String) : String := if ns = [] then "/" else ofPieces ("" :: ns)

/-- A piece can be a name. -/
def IsName (n : String) : Prop := isIdle n = false ∧ separator ∉ n.toList

theorem isName_of_mem_names {n : String} (h : n ∈ names path) : IsName n := by
  obtain ⟨hp, hn⟩ := List.mem_filter.mp h
  exact ⟨by simpa using hn, notMem_of_mem_pieces hp⟩

theorem IsName.ne_empty {n : String} (h : IsName n) : n ≠ "" := by
  rintro rfl
  simp [IsName, isIdle] at h

theorem isIdle_empty : isIdle "" = true := by simp [isIdle]

theorem filter_names (h : ∀ n ∈ ns, IsName n) : ns.filter (!isIdle ·) = ns := by
  apply List.filter_eq_self.mpr
  intro n hn
  simp [(h n hn).1]

theorem notMem_of_names (h : ∀ n ∈ ns, IsName n) : ∀ p ∈ "" :: ns, separator ∉ p.toList := by
  intro p hp
  rcases List.mem_cons.mp hp with rfl | hp
  · simp
  · exact (h p hp).2

theorem pieces_ofNames (h : ∀ n ∈ ns, IsName n) (hne : ns ≠ []) :
    pieces (ofNames ns) = "" :: ns := by
  rw [ofNames, if_neg hne, pieces_ofPieces (List.cons_ne_nil _ _) (notMem_of_names h)]

theorem pieces_root : pieces "/" = ["", ""] := by decide +kernel

theorem names_ofNames (h : ∀ n ∈ ns, IsName n) : names (ofNames ns) = ns := by
  by_cases hne : ns = []
  · subst hne
    simp [names, ofNames, pieces_root, isIdle]
  · simp [names, pieces_ofNames h hne, isIdle_empty, filter_names h]

theorem isRooted_ofNames : isRooted (ofNames ns) = true := by
  by_cases hne : ns = []
  · subst hne
    exact isRooted_iff.mpr ⟨[], rfl⟩
  · rw [ofNames, if_neg hne]
    exact isRooted_ofPieces hne

theorem names_append_separator (a b : String) : names (a ++ "/" ++ b) = names a ++ names b := by
  rw [names, pieces_append_separator, List.filter_append]
  rfl

section Reduce

variable {walked : List String}

theorem walk_of_ne {rooted : Bool} {n : String} (h : n ≠ "..") :
    walk rooted walked n = n :: walked := by
  simp [walk, h]

/-- Where no `..` was walked, another one takes back the last name. -/
theorem walk_rooted_dots (h : ".." ∉ walked) : walk true walked ".." = walked.tail := by
  cases walked with
  | nil => rfl
  | cons last rest =>
    have hl : last ≠ ".." := fun he => h (by simp [he])
    simp [walk, hl]

theorem dots_notMem_walk {n : String} (h : ".." ∉ walked) : ".." ∉ walk true walked n := by
  by_cases hn : n = ".."
  · subst hn
    rw [walk_rooted_dots h]
    exact fun hm => h (List.mem_of_mem_tail hm)
  · rw [walk_of_ne hn]
    simp [h, Ne.symm hn]

theorem dots_notMem_foldl (h : ".." ∉ walked) : ".." ∉ ns.foldl (walk true) walked := by
  induction ns generalizing walked with
  | nil => exact h
  | cons n ns ih => exact ih (dots_notMem_walk h)

theorem mem_of_mem_walk {rooted : Bool} {n m : String} (h : m ∈ walk rooted walked n) :
    m ∈ n :: walked := by
  unfold walk at h
  split at h
  · next hn =>
    subst hn
    cases walked with
    | nil => cases rooted <;> simp_all
    | cons last rest =>
      by_cases hl : last = ".."
      · cases rooted <;> simp_all
      · simp only [hl, if_false] at h
        exact List.mem_cons_of_mem _ (List.mem_cons_of_mem _ h)
  · exact h

theorem mem_foldl_walk {rooted : Bool} {n : String} (hn : n ∈ ns.foldl (walk rooted) walked) :
    n ∈ walked ∨ n ∈ ns := by
  induction ns generalizing walked with
  | nil => exact Or.inl hn
  | cons m ns ih =>
    rcases ih hn with hw | hm
    · rcases List.mem_cons.mp (mem_of_mem_walk hw) with rfl | hw
      · exact Or.inr List.mem_cons_self
      · exact Or.inl hw
    · exact Or.inr (List.mem_cons_of_mem m hm)

theorem foldl_walk_of_notMem {rooted : Bool} (h : ".." ∉ ns) :
    ns.foldl (walk rooted) walked = ns.reverse ++ walked := by
  induction ns generalizing walked with
  | nil => rfl
  | cons n ns ih =>
    rw [List.mem_cons, not_or] at h
    rw [List.foldl_cons, walk_of_ne (Ne.symm h.1), ih h.2]
    simp

/-- The names of a rooted path in normal form hold no `..`. -/
theorem dots_notMem_reduce (ns : List String) : ".." ∉ reduce true ns := by
  rw [reduce, List.mem_reverse]
  exact dots_notMem_foldl List.not_mem_nil

theorem mem_of_mem_reduce {rooted : Bool} {n : String} (h : n ∈ reduce rooted ns) : n ∈ ns := by
  rw [reduce, List.mem_reverse] at h
  exact (mem_foldl_walk h).resolve_left List.not_mem_nil

theorem reduce_of_notMem (h : ".." ∉ ns) : reduce true ns = ns := by
  simp [reduce, foldl_walk_of_notMem h]

theorem isName_of_mem_reduce {rooted : Bool} {n : String} (h : n ∈ reduce rooted (names path)) :
    IsName n :=
  isName_of_mem_names (mem_of_mem_reduce h)

end Reduce

section Trim

theorem glue_concat (init : List (List Char)) (p : List Char) :
    ∃ front, glue (init ++ [p]) = front ++ p := by
  induction init with
  | nil => exact ⟨[], rfl⟩
  | cons q qs ih =>
    obtain ⟨front, hf⟩ := ih
    obtain ⟨r, rs, hr⟩ := List.exists_cons_of_ne_nil (l := qs ++ [p]) (by simp)
    refine ⟨q ++ separator :: front, ?_⟩
    rw [List.cons_append, hr, glue_cons_cons, ← hr, hf]
    simp

theorem glue_append_nil {ps : List (List Char)} (h : ps ≠ []) :
    glue (ps ++ [[]]) = glue ps ++ [separator] := by
  induction ps with
  | nil => exact (h rfl).elim
  | cons p ps ih =>
    cases ps with
    | nil => rfl
    | cons q qs =>
      have := ih (List.cons_ne_nil q qs)
      simp only [List.cons_append, glue_cons_cons] at this ⊢
      rw [this]
      simp

/-- A path is what is left of it and the separators at its end. -/
theorem toList_trimEnd (path : String) :
    (∃ n, path.toList = (trimEnd path).toList ++ List.replicate n separator) ∧
      (trimEnd path).toList.getLast? ≠ some separator := by
  let kept := path.toList.reverse.dropWhile (· = separator)
  let gone := path.toList.reverse.takeWhile (· = separator)
  have hk : (trimEnd path).toList = kept.reverse := by simp [trimEnd, kept]
  have hg : gone = List.replicate gone.length separator := by
    apply List.eq_replicate_iff.mpr
    exact ⟨rfl, fun c hc => by simpa using List.mem_takeWhile_imp hc⟩
  have hs : path.toList.reverse = gone ++ kept := List.takeWhile_append_dropWhile.symm
  refine ⟨⟨gone.length, ?_⟩, ?_⟩
  · rw [hk, ← List.reverse_replicate, ← hg, ← List.reverse_append, ← hs, List.reverse_reverse]
  · rw [hk, List.getLast?_reverse]
    intro hc
    have := List.head?_dropWhile_not (fun c : Char => decide (c = separator)) path.toList.reverse
    rw [show path.toList.reverse.dropWhile _ = kept from rfl, hc] at this
    simp at this

theorem eq_of_append_replicate {as bs : List Char} {m n : Nat}
    (h : as ++ List.replicate m separator = bs ++ List.replicate n separator)
    (ha : as.getLast? ≠ some separator) (hb : bs.getLast? ≠ some separator) : as = bs := by
  induction m generalizing n with
  | zero =>
    cases n with
    | zero => simpa using h
    | succ n =>
      rw [List.replicate_succ', ← List.append_assoc] at h
      simp only [List.replicate_zero, List.append_nil] at h
      simp [h] at ha
  | succ m ih =>
    cases n with
    | zero =>
      rw [List.replicate_succ', ← List.append_assoc] at h
      simp only [List.replicate_zero, List.append_nil] at h
      simp [← h] at hb
    | succ n =>
      rw [List.replicate_succ', List.replicate_succ', ← List.append_assoc,
        ← List.append_assoc] at h
      exact ih (List.append_cancel_right h)

theorem trimEnd_eq {kept : String} {n : Nat}
    (h : path.toList = kept.toList ++ List.replicate n separator)
    (hk : kept.toList.getLast? ≠ some separator) : trimEnd path = kept := by
  obtain ⟨⟨m, hm⟩, ht⟩ := toList_trimEnd path
  exact String.toList_inj.mp (eq_of_append_replicate (hm.symm.trans h) ht hk)

theorem pieces_append_replicate (a : String) (n : Nat) :
    pieces (a ++ .ofList (List.replicate n separator)) = pieces a ++ List.replicate n "" := by
  induction n generalizing a with
  | zero => simp
  | succ n ih =>
    have h : a ++ String.ofList (List.replicate (n + 1) separator)
        = a ++ "/" ++ String.ofList (List.replicate n separator) := by
      apply String.toList_inj.mp
      simp [List.replicate_succ, separator]
    rw [h, ih, show a ++ "/" = a ++ "/" ++ "" by simp, pieces_append_separator]
    simp [show pieces "" = [""] by decide +kernel, List.replicate_succ]

theorem names_trimEnd (path : String) : names (trimEnd path) = names path := by
  obtain ⟨⟨n, hn⟩, -⟩ := toList_trimEnd path
  have hp : path = trimEnd path ++ .ofList (List.replicate n separator) :=
    String.toList_inj.mp (by simpa using hn)
  conv_rhs => rw [hp, names, pieces_append_replicate, List.filter_append]
  simp [names, isIdle]

theorem isRooted_trimEnd_append (h : isRooted base = true) (path : String) :
    isRooted (trimEnd base ++ "/" ++ path) = true := by
  obtain ⟨cs, hcs⟩ := isRooted_iff.mp h
  obtain ⟨⟨n, hn⟩, -⟩ := toList_trimEnd base
  rw [hcs] at hn
  cases ht : (trimEnd base).toList with
  | nil => exact isRooted_iff.mpr ⟨path.toList, by simp [ht, separator]⟩
  | cons c rest =>
    rw [ht, List.cons_append, List.cons.injEq] at hn
    exact isRooted_iff.mpr ⟨rest ++ separator :: path.toList, by simp [ht, ← hn.1, separator]⟩

end Trim

section Absolute

/-- The text of names in normal form ends in a separator only if asked to. -/
theorem getLast?_ofNames (h : ∀ n ∈ ns, IsName n) (hne : ns ≠ []) :
    (ofNames ns).toList.getLast? ≠ some separator := by
  obtain ⟨init, last, rfl⟩ := List.eq_nil_or_concat' ns |>.resolve_left hne
  have hl : IsName last := h last (by simp)
  obtain ⟨front, hf⟩ := glue_concat (("" :: init).map String.toList) last.toList
  have hg : (ofNames (init ++ [last])).toList = front ++ last.toList := by
    rw [ofNames, if_neg (by simp), toList_ofPieces, ← hf]
    simp
  have hc : last.toList ≠ [] := by simpa using hl.ne_empty
  rw [hg, List.getLast?_append_of_ne_nil _ hc]
  exact fun he => hl.2 (List.mem_of_getLast? he)

theorem endsInSeparator_ofNames (h : ∀ n ∈ ns, IsName n) (hne : ns ≠ []) :
    endsInSeparator (ofNames ns) = false := by
  rw [endsInSeparator, decide_eq_false_iff_not, String.back?_eq]
  exact getLast?_ofNames h hne

theorem normalize_of_isRooted (h : isRooted path = true) :
    normalize path = Spelling.text ⟨true, reduce true (names path), endsInSeparator path⟩ := by
  simp [normalize, Spelling.ofPath, h, names]

theorem text_rooted (closed : Bool) : Spelling.text ⟨true, ns, closed⟩
    = if ns = [] then "/" else ofPieces ("" :: ns ++ (if closed then [""] else [])) := by
  cases ns <;> simp [Spelling.text]

theorem text_open (ns : List String) : Spelling.text ⟨true, ns, false⟩ = ofNames ns := by
  simp [text_rooted, ofNames]

/-- Without the separator at its end, the text of names is their path. -/
theorem trimEnd_text (h : ∀ n ∈ ns, IsName n) (hne : ns ≠ []) (closed : Bool) :
    trimEnd (Spelling.text ⟨true, ns, closed⟩) = ofNames ns := by
  refine trimEnd_eq (n := if closed then 1 else 0) ?_ (getLast?_ofNames h hne)
  rw [text_rooted, if_neg hne, ofNames, if_neg hne]
  cases closed with
  | false => simp
  | true =>
    have := @glue_append_nil (("" :: ns).map String.toList) (by simp)
    simpa [toList_ofPieces] using this

theorem one_lt_size_ofPieces (h : ∀ n ∈ ns, IsName n) (hne : ns ≠ []) (more : List String) :
    1 < (ofPieces ("" :: ns ++ more)).utf8ByteSize := by
  obtain ⟨n, rest, rfl⟩ := List.exists_cons_of_ne_nil hne
  have hn : n.utf8ByteSize ≠ 0 := by
    simpa [String.utf8ByteSize_eq_zero_iff] using (h n List.mem_cons_self).ne_empty
  simp only [List.cons_append, utf8ByteSize_ofPieces, List.foldr_cons]
  omega

theorem toAbsolute_eq_ofNames (hb : isRooted base = true) : toAbsolute base path
    = ofNames (reduce true (if isRooted path then names path else names base ++ names path)) := by
  -- Whether the path is rooted only decides which names there are before they are reduced.
  obtain ⟨full, hr, hc, hn⟩ : ∃ full, isRooted full = true ∧ combine base path = normalize full ∧
      names full = if isRooted path then names path else names base ++ names path := by
    by_cases hp : isRooted path = true
    · exact ⟨path, hp, by simp [combine, hp], by simp [hp]⟩
    · have hne : base ≠ "" := by rintro rfl; simp [isRooted_iff] at hb
      refine ⟨_, isRooted_trimEnd_append hb path, by simp [combine, hp, hne], ?_⟩
      simp [hp, names_append_separator, names_trimEnd]
  have hnames : ∀ n ∈ reduce true (names full), IsName n := fun n => isName_of_mem_reduce
  rw [← hn, toAbsolute, hc, normalize_of_isRooted hr]
  by_cases hne : reduce true (names full) = []
  · simp [hne, text_rooted, ofNames, show "/".utf8ByteSize = 1 from rfl]
  · have hs : 1 < (Spelling.text ⟨true, reduce true (names full),
        endsInSeparator full⟩).utf8ByteSize := by
      rw [text_rooted, if_neg hne]
      exact one_lt_size_ofPieces hnames hne _
    simp only [if_pos hs]
    exact trimEnd_text hnames hne _

theorem names_toAbsolute (hb : isRooted base = true) : names (toAbsolute base path)
    = reduce true (if isRooted path then names path else names base ++ names path) := by
  rw [toAbsolute_eq_ofNames hb, names_ofNames]
  intro n hn
  have hn := mem_of_mem_reduce hn
  split at hn
  · exact isName_of_mem_names hn
  · exact (List.mem_append.mp hn).elim isName_of_mem_names isName_of_mem_names

end Absolute

end BufferCheck.Path
