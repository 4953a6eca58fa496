import BufferCheck.Path.Ancestors
import Mathlib.Data.List.Basic

/-! Laws of pieces. Pieces hold no separator, and such pieces are found again in their path. -/
namespace BufferCheck.Path

theorem cut_separator_cons (cs : List Char) : cut (separator :: cs) = [] :: cut cs := by
  simp [cut]

theorem cut_append_separator (as bs : List Char) :
    cut (as ++ separator :: bs) = cut as ++ cut bs := by
  induction as with
  | nil => exact cut_separator_cons bs
  | cons a as ih =>
    obtain ⟨p, ps, hp⟩ := List.exists_cons_of_ne_nil (cut_ne_nil as)
    by_cases ha : a = separator
    · subst ha
      simp [cut_separator_cons, ih]
    · simp [cut, ha, ih, hp]

theorem cut_of_notMem {cs : List Char} (h : separator ∉ cs) : cut cs = [cs] := by
  induction cs with
  | nil => rfl
  | cons c cs ih =>
    rw [List.mem_cons, not_or] at h
    simp [cut, Ne.symm h.1, ih h.2]

theorem notMem_of_mem_cut {cs p : List Char} (h : p ∈ cut cs) : separator ∉ p := by
  induction cs generalizing p with
  | nil => simp_all [cut]
  | cons c cs ih =>
    obtain ⟨q, qs, hq⟩ := List.exists_cons_of_ne_nil (cut_ne_nil cs)
    by_cases hc : c = separator
    · simp only [cut, if_pos hc, List.mem_cons] at h
      rcases h with rfl | h
      · exact List.not_mem_nil
      · exact ih h
    · simp only [cut, if_neg hc, hq, List.mem_cons] at h
      rcases h with rfl | h
      · have := ih (p := q) (by simp [hq])
        simp [Ne.symm hc, this]
      · exact ih (by simp [hq, h])

/-- What is put at the end of a path belongs to its last piece. -/
theorem cut_append_of_notMem (as : List Char) {bs : List Char} (h : separator ∉ bs) :
    ∃ init last, cut as = init ++ [last] ∧ cut (as ++ bs) = init ++ [last ++ bs] := by
  induction as with
  | nil => exact ⟨[], [], rfl, cut_of_notMem h⟩
  | cons a as ih =>
    obtain ⟨init, last, ha, hab⟩ := ih
    by_cases hs : a = separator
    · subst hs
      refine ⟨[] :: init, last, ?_, ?_⟩
      · simp [cut_separator_cons, ha]
      · simp [cut_separator_cons, hab]
    · cases init with
      | nil => exact ⟨[], a :: last, by simp [cut, hs, ha], by simp [cut, hs, hab]⟩
      | cons p ps => exact ⟨(a :: p) :: ps, last, by simp [cut, hs, ha], by simp [cut, hs, hab]⟩

theorem cut_glue {ps : List (List Char)} (hne : ps ≠ []) (h : ∀ p ∈ ps, separator ∉ p) :
    cut (glue ps) = ps := by
  induction ps with
  | nil => exact (hne rfl).elim
  | cons p ps ih =>
    have hp := cut_of_notMem (h p List.mem_cons_self)
    cases ps with
    | nil => exact hp
    | cons q qs =>
      rw [glue_cons_cons, cut_append_separator, hp,
        ih (List.cons_ne_nil q qs) fun r hr => h r (List.mem_cons_of_mem p hr)]
      rfl

theorem notMem_of_mem_pieces {path p : String} (h : p ∈ pieces path) :
    separator ∉ p.toList := by
  obtain ⟨cs, hcs, rfl⟩ := List.mem_map.mp h
  rw [String.toList_ofList]
  exact notMem_of_mem_cut hcs

theorem pieces_ofPieces {ps : List String} (hne : ps ≠ [])
    (h : ∀ p ∈ ps, separator ∉ p.toList) : pieces (ofPieces ps) = ps := by
  have hmap : String.ofList ∘ String.toList = id := by funext s; simp
  rw [pieces, toList_ofPieces, cut_glue (by simpa using hne) (by simpa using h), List.map_map,
    hmap, List.map_id]

theorem pieces_append_separator (a b : String) :
    pieces (a ++ "/" ++ b) = pieces a ++ pieces b := by
  have h : (a ++ "/" ++ b).toList = a.toList ++ separator :: b.toList := by simp [separator]
  rw [pieces, h, cut_append_separator, List.map_append]
  rfl

theorem pieces_append_of_notMem (a : String) {b : String} (h : separator ∉ b.toList) :
    ∃ init last, pieces a = init ++ [last] ∧ pieces (a ++ b) = init ++ [last ++ b] := by
  obtain ⟨init, last, ha, hab⟩ := cut_append_of_notMem a.toList h
  refine ⟨init.map String.ofList, .ofList last, by simp [pieces, ha], ?_⟩
  simp [pieces, hab, String.ofList_append]

theorem isRooted_iff {path : String} :
    isRooted path = true ↔ ∃ cs, path.toList = separator :: cs := by
  rw [isRooted, decide_eq_true_iff, String.front?_eq, List.head?_eq_some_iff]

/-- The first piece of a rooted path is empty. -/
theorem pieces_of_isRooted {path : String} (h : isRooted path = true) :
    ∃ rest, rest ≠ [] ∧ pieces path = "" :: rest := by
  obtain ⟨cs, hcs⟩ := isRooted_iff.mp h
  refine ⟨(cut cs).map String.ofList, by simp [cut_ne_nil], ?_⟩
  simp [pieces, hcs, cut_separator_cons]

theorem isRooted_ofPieces {ps : List String} (h : ps ≠ []) :
    isRooted (ofPieces ("" :: ps)) = true := by
  obtain ⟨p, qs, rfl⟩ := List.exists_cons_of_ne_nil h
  rw [isRooted_iff, toList_ofPieces]
  exact ⟨_, by simp [glue_cons_cons]; rfl⟩

theorem isRooted_append {a : String} (h : isRooted a = true) (b : String) :
    isRooted (a ++ b) = true := by
  obtain ⟨cs, hcs⟩ := isRooted_iff.mp h
  exact isRooted_iff.mpr ⟨cs ++ b.toList, by simp [hcs]⟩

theorem isRooted_append_of_ne_empty {a : String} (h : a ≠ "") (b : String) :
    isRooted (a ++ b) = isRooted a := by
  have hne : a.toList ≠ [] := by simpa using h
  obtain ⟨c, cs, hc⟩ := List.exists_cons_of_ne_nil hne
  simp [isRooted, String.front?_eq, hc]

theorem endsInSeparator_append {b : String} (h : b ≠ "") (a : String) :
    endsInSeparator (a ++ b) = endsInSeparator b := by
  have hne : b.toList ≠ [] := by simpa using h
  simp [endsInSeparator, String.back?_eq, List.getLast?_append_of_ne_nil _ hne]

theorem exists_of_endsInSeparator {path : String} (h : endsInSeparator path = true) :
    ∃ front, path = front ++ "/" := by
  rw [endsInSeparator, decide_eq_true_iff, String.back?_eq, List.getLast?_eq_some_iff] at h
  obtain ⟨cs, hcs⟩ := h
  exact ⟨.ofList cs, String.toList_inj.mp (by simp [hcs, separator])⟩

theorem pieces_append_slash (front : String) : pieces (front ++ "/") = pieces front ++ [""] := by
  rw [← String.append_empty (s := front ++ "/"), pieces_append_separator]
  rfl

end BufferCheck.Path
