import BufferCheck.Proofs.Path.Straight
import Mathlib.Data.List.Infix

/-! The directory of a path, and the directories above an absolute path. The directory of a path that
ends in a name leads where the path leads but for that name, so it is the same to take the directory
first or to make the path absolute first. -/
namespace BufferCheck.Path

variable {base path n : String} {ns : List String}

/-- The last piece of a path is the name of an entry. -/
def EndsInName (path : String) : Prop :=
  ∃ init last, pieces path = init ++ [last] ∧ isIdle last = false ∧ last ≠ ".."

section Directory

theorem reduce_concat {rooted : Bool} (hn : n ≠ "..") :
    reduce rooted (ns ++ [n]) = reduce rooted ns ++ [n] := by
  simp [reduce, walk_of_ne hn]

theorem EndsInName.endsInSeparator (h : EndsInName path) : endsInSeparator path = false := by
  obtain ⟨init, last, hp, hidle, -⟩ := h
  rw [Bool.eq_false_iff]
  intro hs
  obtain ⟨front, -, hfront⟩ := endsInSeparator_iff_pieces.mp hs
  have hlast : last = "" := by simpa using congrArg List.getLast? (hp.symm.trans hfront)
  rw [hlast, isIdle_empty] at hidle
  cases hidle

/-- A path that ends in a name goes on from its directory by that name. -/
theorem EndsInName.exists_names (h : EndsInName path) : ∃ last, IsName last ∧ last ≠ ".." ∧
    isRooted (directoryOf path) = isRooted path ∧
    names path = names (directoryOf path) ++ [last] := by
  obtain ⟨init, last, hp, hidle, hdots⟩ := h
  have hpieces : ∀ p ∈ init ++ [last], separator ∉ p.toList := fun p hm =>
    notMem_of_mem_pieces (hp ▸ hm)
  have hempty : last ≠ "" := by
    rintro rfl
    simp [isIdle_empty] at hidle
  have hnames : names path = init.filter (!isIdle ·) ++ [last] := by
    simp [names, hp, hidle]
  refine ⟨last, ⟨hidle, hpieces last (by simp)⟩, hdots, ?_⟩
  rw [Bool.eq_iff_iff, @isRooted_iff_pieces path, hnames, hp]
  cases init with
  | nil =>
    have hdir : directoryOf path = "" := by simp [directoryOf, hp]
    have hnone : isRooted "" = false ∧ names "" = [] := by decide +kernel
    simp [hdir, hnone, hempty]
  | cons p ps =>
    by_cases hroot : p = "" ∧ ps = []
    · obtain ⟨rfl, rfl⟩ := hroot
      have hdir : directoryOf path = "/" := by simp [directoryOf, hp]
      have hnone : isRooted "/" = true ∧ names "/" = [] := by decide +kernel
      simp [hdir, hnone, isIdle_empty]
    · have hdir : directoryOf path = ofPieces (p :: ps) := by
        rw [directoryOf, hp, List.dropLast_concat]
        split <;> simp_all
      have hinit : pieces (ofPieces (p :: ps)) = p :: ps :=
        pieces_ofPieces (List.cons_ne_nil p ps) fun q hq => hpieces q (List.mem_append_left _ hq)
      rw [hdir, isRooted_iff_pieces, names, hinit]
      refine ⟨?_, rfl⟩
      simp only [List.cons_append, List.cons.injEq]
      constructor
      · rintro ⟨rest, hne, rfl, rfl⟩
        exact ⟨_, by simp, rfl, rfl⟩
      · rintro ⟨rest, hne, rfl, -⟩
        exact ⟨ps, fun he => hroot ⟨rfl, he⟩, rfl, rfl⟩

theorem directoryOf_ofNames (h : ∀ m ∈ ns ++ [n], IsName m) :
    directoryOf (ofNames (ns ++ [n])) = ofNames ns := by
  rw [directoryOf, pieces_ofNames h (by simp), ← List.cons_append, List.dropLast_concat, ofNames]
  cases ns with
  | nil => rfl
  | cons m ms => rfl

/-- The directory of an absolute path is the absolute path of the directory. -/
theorem toAbsolute_directoryOf (hb : isRooted base = true) (h : EndsInName path) :
    toAbsolute base (directoryOf path) = directoryOf (toAbsolute base path) := by
  obtain ⟨last, hlast, hdots, hrooted, hnames⟩ := h.exists_names
  have hreduce : (reduce true (if isRooted path then names path else names base ++ names path))
      = reduce true (if isRooted path then names (directoryOf path)
          else names base ++ names (directoryOf path)) ++ [last] := by
    rw [hnames, ← List.append_assoc, ← apply_ite (· ++ [last]), reduce_concat hdots]
  have hisName : ∀ m ∈ names (toAbsolute base path), IsName m := fun m => isName_of_mem_names
  rw [names_toAbsolute hb, hreduce] at hisName
  rw [toAbsolute_eq_ofNames hb, toAbsolute_eq_ofNames hb, hreduce, directoryOf_ofNames hisName,
    hrooted]

/-- The normal form of a path that ends in a name ends in it. -/
theorem EndsInName.normalize (h : EndsInName path) : EndsInName (normalize path) := by
  obtain ⟨last, hlast, hdots, -, hnames⟩ := h.exists_names
  have hreduce : reduce (isRooted path) (names path)
      = reduce (isRooted path) (names (directoryOf path)) ++ [last] := by
    rw [hnames, reduce_concat hdots]
  refine ⟨edge (isRooted path) ++ reduce (isRooted path) (names (directoryOf path)), last, ?_,
    hlast.1, hdots⟩
  rw [normalize_eq_text, pieces_text (fun n => isName_of_mem_reduce) (by simp [hreduce]), hreduce,
    h.endsInSeparator]
  simp [edge]

end Directory

section Ancestors

theorem trimIdle_concat_root (h : ∀ m ∈ ns, IsName m) : trimIdle (ns ++ [""]) = ns ++ [""] := by
  cases ns with
  | nil => rfl
  | cons m ms =>
    have hm := (h m List.mem_cons_self).1
    cases ms <;> simp [trimIdle, hm]

theorem parents_cons_root (h : ∀ m ∈ n :: ns, IsName m) :
    parents (n :: (ns ++ [""])) = (ns ++ [""]) :: parents (ns ++ [""]) := by
  have hn := (h n List.mem_cons_self).1
  have htrim := trimIdle_concat_root fun m hm => h m (List.mem_cons_of_mem n hm)
  cases ns with
  | nil => simp [parents, trimIdle, hn]
  | cons m ms =>
    rw [List.cons_append, parents, if_neg (by simp [hn]), ← List.cons_append, htrim]

theorem parents_pieces_ofNames (h : ∀ m ∈ ns, IsName m) :
    parents (pieces (ofNames ns)).reverse = parents (ns.reverse ++ [""]) := by
  by_cases hne : ns = []
  · subst hne
    rw [ofNames, if_pos rfl, pieces_root]
    simp [parents, isIdle_empty]
  · rw [pieces_ofNames h hne, List.reverse_cons]

theorem ancestors_root : ancestors (ofNames []) = [ofNames []] := by decide +kernel

/-- Above an absolute path are the path without its last name and what is above that. -/
theorem ancestors_ofNames_concat (h : ∀ m ∈ ns ++ [n], IsName m) :
    ancestors (ofNames (ns ++ [n])) = ofNames (ns ++ [n]) :: ancestors (ofNames ns) := by
  have hns : ∀ m ∈ ns, IsName m := fun m hm => h m (List.mem_append_left _ hm)
  have hreverse : ∀ m ∈ n :: ns.reverse, IsName m := by
    simpa [or_comm] using h
  have hdirectory : ofReversed (ns.reverse ++ [""]) = ofNames ns := by
    rcases List.eq_nil_or_concat' ns with rfl | ⟨ms, m, rfl⟩ <;> simp [ofReversed, ofNames]
  rw [ancestors, ancestors, parents_pieces_ofNames h, parents_pieces_ofNames hns,
    List.reverse_append, List.reverse_singleton, List.singleton_append, List.cons_append,
    parents_cons_root hreverse, List.map_cons, hdirectory]

/-- What is in a directory is named by the names of the directory and its own. -/
theorem child_ofNames (h : ∀ m ∈ ns, IsName m) (hn : IsName n) :
    child (ofNames ns) n = ofNames (ns ++ [n]) := by
  have hpieces : pieces n = [n] := by
    simp [pieces, cut_of_notMem hn.2]
  have hrooted : isRooted n = false := by
    rw [Bool.eq_false_iff, ne_eq, isRooted_iff_pieces, hpieces]
    simp
  rw [child, if_neg (by simp [hrooted])]
  by_cases hne : ns = []
  · subst hne
    rw [if_pos (by decide +kernel)]
    simp [ofNames, ofPieces]
  · have hempty : ofNames ns ≠ "" := by
      intro he
      have hroot := @isRooted_ofNames ns
      simp [he, isRooted_iff] at hroot
    rw [if_neg (by simp [hempty, endsInSeparator_ofNames h hne]),
      ← ofPieces_pieces (ofNames ns ++ "/" ++ n), pieces_append_separator, pieces_ofNames h hne,
      hpieces, ofNames, if_neg (by simp), List.cons_append]

end Ancestors

end BufferCheck.Path
