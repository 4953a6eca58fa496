import BufferCheck.Diagnostic
import Mathlib.Data.List.Pairwise

/-! The order of diagnostics is total and transitive, and it does not tell apart what agrees in all
that it reads. Sorting a list keeps the first diagnostic of each kind, and they go up. -/
namespace BufferCheck.Diagnostic

variable {a b d e : Diagnostic} {ds es : List Diagnostic}

/-- What the order reads of a diagnostic besides the name of its file. -/
def problem (d : Diagnostic) : Option Nat × Option Nat × Nat × String :=
  (d.start, d.length, d.code, d.message.shown)

theorem order_eq_iff : a.order b = .eq ↔ a.fileName = b.fileName ∧ a.problem = b.problem := by
  simp [order, problem, Ordering.then_eq_eq]

instance : Std.TransCmp order :=
  inferInstanceAs <| Std.TransCmp <| compareLex (compareOn fileName) <|
    compareLex (compareOn start) <| compareLex (compareOn length) <|
      compareLex (compareOn code) <| compareOn (·.message.shown)

theorem order_total (a b : Diagnostic) : (a.order b).isLE ∨ (b.order a).isLE := by
  have hswap : a.order b = (b.order a).swap := Std.OrientedCmp.eq_swap
  rw [hswap]
  cases b.order a <;> simp

/-- Each diagnostic comes before all that follow it. -/
def Ascending (ds : List Diagnostic) : Prop := ds.Pairwise fun a b => a.order b = .lt

/-- Every diagnostic of the first list has one in the second that the order does not tell from
it. -/
def Covered (ds es : List Diagnostic) : Prop := ∀ d ∈ ds, ∃ e ∈ es, d.order e = .eq

theorem mem_of_mem_dropRepeats (h : d ∈ dropRepeats ds) : d ∈ ds := by
  fun_induction dropRepeats ds with
  | case1 => exact h
  | case2 => exact h
  | case3 a b rest he ih =>
    rcases List.mem_cons.mp (ih h) with rfl | h
    · exact List.mem_cons_self
    · exact List.mem_cons_of_mem _ (List.mem_cons_of_mem _ h)
  | case4 a b rest hne ih =>
    rcases List.mem_cons.mp h with rfl | h
    · exact List.mem_cons_self
    · exact List.mem_cons_of_mem _ (ih h)

theorem covered_dropRepeats (ds : List Diagnostic) : Covered ds (dropRepeats ds) := by
  fun_induction dropRepeats ds with
  | case1 => exact fun d h => absurd h List.not_mem_nil
  | case2 a => exact fun d h => ⟨d, h, Std.ReflCmp.compare_self⟩
  | case3 a b rest he ih =>
    intro d h
    rcases List.mem_cons.mp h with rfl | h
    · exact ih d List.mem_cons_self
    rcases List.mem_cons.mp h with rfl | h
    · obtain ⟨e, hmem, hae⟩ := ih a List.mem_cons_self
      exact ⟨e, hmem, Std.TransCmp.eq_trans (Std.OrientedCmp.eq_comm.mp he) hae⟩
    · exact ih d (List.mem_cons_of_mem _ h)
  | case4 a b rest hne ih =>
    intro d h
    rcases List.mem_cons.mp h with rfl | h
    · exact ⟨d, List.mem_cons_self, Std.ReflCmp.compare_self⟩
    · obtain ⟨e, hmem, hde⟩ := ih d h
      exact ⟨e, List.mem_cons_of_mem _ hmem, hde⟩

theorem ascending_dropRepeats (h : ds.Pairwise fun a b => (a.order b).isLE) :
    Ascending (dropRepeats ds) := by
  fun_induction dropRepeats ds with
  | case1 => exact .nil
  | case2 a => exact List.pairwise_singleton _ _
  | case3 a b rest he ih => exact ih (h.sublist (.cons_cons a (.cons b (.refl rest))))
  | case4 a b rest hne ih =>
    obtain ⟨ha, hrest⟩ := List.pairwise_cons.mp h
    have hab : a.order b = .lt :=
      (Ordering.isLE_iff_eq_lt_or_eq_eq.mp (ha b List.mem_cons_self)).resolve_right hne
    refine List.pairwise_cons.mpr ⟨fun d hd => ?_, ih hrest⟩
    rcases List.mem_cons.mp (mem_of_mem_dropRepeats hd) with rfl | hd
    · exact hab
    · exact Std.TransCmp.lt_of_lt_of_isLE hab ((List.pairwise_cons.mp hrest).1 d hd)

theorem mem_of_mem_sorted (h : d ∈ sorted ds) : d ∈ ds :=
  List.mem_mergeSort.mp (mem_of_mem_dropRepeats h)

theorem covered_sorted (ds : List Diagnostic) : Covered ds (sorted ds) :=
  fun d h => covered_dropRepeats _ d (List.mem_mergeSort.mpr h)

theorem pairwise_mergeSort (ds : List Diagnostic) :
    (ds.mergeSort fun a b => (a.order b).isLE).Pairwise fun a b => (a.order b).isLE := by
  refine List.pairwise_mergeSort (fun a b c => Std.TransCmp.isLE_trans) (fun a b => ?_) ds
  simpa using order_total a b

theorem ascending_sorted (ds : List Diagnostic) : Ascending (sorted ds) :=
  ascending_dropRepeats (pairwise_mergeSort ds)

theorem Ascending.eq_of_order (h : Ascending ds) (ha : a ∈ ds) (hb : b ∈ ds)
    (hab : a.order b = .eq) : a = b := by
  by_contra hne
  have hdistinct : ds.Pairwise fun a b => a.order b ≠ .eq := h.imp fun hlt => by simp [hlt]
  have : Std.Symm fun a b : Diagnostic => a.order b ≠ .eq :=
    ⟨fun a b h h' => h (Std.OrientedCmp.eq_comm.mp h')⟩
  exact hdistinct.forall ha hb hne hab

theorem dropRepeats_of_ascending (h : Ascending ds) : dropRepeats ds = ds := by
  fun_induction dropRepeats ds with
  | case1 => rfl
  | case2 a => rfl
  | case3 a b rest he ih =>
    have hab := (List.pairwise_cons.mp h).1 b List.mem_cons_self
    rw [he] at hab
    cases hab
  | case4 a b rest hne ih => rw [ih (List.pairwise_cons.mp h).2]

/-- Diagnostics that the order tells apart are sorted by putting them in order. -/
theorem sorted_eq_of_perm (h : ds.Perm es) (hes : Ascending es) : sorted ds = es := by
  have hperm := (List.mergeSort_perm ds fun a b => (a.order b).isLE).trans h
  have hle : es.Pairwise fun a b => (a.order b).isLE := hes.imp fun hlt => by rw [hlt]; rfl
  have hsame : ds.mergeSort (fun a b => (a.order b).isLE) = es := by
    refine hperm.eq_of_pairwise (fun a b ha hb hab hba => ?_) (pairwise_mergeSort ds) hle
    exact hes.eq_of_order (hperm.mem_iff.mp ha) hb (Std.OrientedCmp.isLE_antisymm hab hba)
  rw [sorted, hsame, dropRepeats_of_ascending hes]

theorem Covered.tail (h : Covered (d :: ds) (e :: es)) (hde : d.order e = .eq)
    (hd : ∀ x ∈ ds, d.order x = .lt) : Covered ds es := by
  intro x hx
  obtain ⟨y, hy, hxy⟩ := h x (List.mem_cons_of_mem d hx)
  rcases List.mem_cons.mp hy with rfl | hy
  · have hlt := hd x hx
    rw [Std.TransCmp.eq_trans hde (Std.OrientedCmp.eq_comm.mp hxy)] at hlt
    cases hlt
  · exact ⟨y, hy, hxy⟩

/-- Ascending lists of the same diagnostics, up to the order, agree place by place. -/
theorem Ascending.forall₂ (hds : Ascending ds) (hes : Ascending es) (h : Covered ds es)
    (h' : Covered es ds) : List.Forall₂ (fun d e => d.order e = .eq) ds es := by
  induction ds generalizing es with
  | nil =>
    cases es with
    | nil => exact .nil
    | cons e es => obtain ⟨d, hd, -⟩ := h' e List.mem_cons_self; exact absurd hd List.not_mem_nil
  | cons d ds ih =>
    cases es with
    | nil => obtain ⟨e, he, -⟩ := h d List.mem_cons_self; exact absurd he List.not_mem_nil
    | cons e es =>
      obtain ⟨hd, hds⟩ := List.pairwise_cons.mp hds
      obtain ⟨he, hes⟩ := List.pairwise_cons.mp hes
      -- The first of one list has its like in the other, and it cannot come later there.
      have hde : d.order e = .eq := by
        obtain ⟨e', he', hde'⟩ := h d List.mem_cons_self
        obtain ⟨d', hd', hed'⟩ := h' e List.mem_cons_self
        rcases List.mem_cons.mp he' with rfl | he'
        · exact hde'
        rcases List.mem_cons.mp hd' with rfl | hd'
        · exact Std.OrientedCmp.eq_comm.mp hed'
        have hlt : d.order e = .lt := Std.TransCmp.lt_of_lt_of_eq (hd d' hd')
          (Std.OrientedCmp.eq_comm.mp hed')
        have hgt : e.order d = .lt := Std.TransCmp.lt_of_lt_of_eq (he e' he')
          (Std.OrientedCmp.eq_comm.mp hde')
        exact absurd hgt (Std.OrientedCmp.not_lt_of_lt hlt)
      exact .cons hde (ih hds hes (h.tail hde hd) (h'.tail (Std.OrientedCmp.eq_comm.mp hde) he))

section First

/-- Of those that the order does not tell from each other, dropping repeats keeps the first. -/
theorem find?_of_mem_dropRepeats (h : ds.Pairwise fun a b => (a.order b).isLE)
    (he : e ∈ dropRepeats ds) : ds.find? (·.order e = .eq) = some e := by
  fun_induction dropRepeats ds with
  | case1 => exact absurd he List.not_mem_nil
  | case2 a =>
    obtain rfl := List.mem_singleton.mp he
    simp [Std.ReflCmp.compare_self]
  | case3 a b rest hab ih =>
    have hfirst := ih (h.sublist (.cons_cons a (.cons b (.refl rest)))) he
    -- The second is like the first, so the search stops at the first or at neither.
    have hlike : b.order e = a.order e := (Std.TransCmp.congr_left hab).symm
    rw [List.find?_cons] at hfirst ⊢
    rw [List.find?_cons, hlike]
    cases hae : decide (a.order e = .eq) <;> simpa [hae] using hfirst
  | case4 a b rest hab ih =>
    rcases List.mem_cons.mp he with rfl | he
    · simp [Std.ReflCmp.compare_self]
    · have hlt : a.order e = .lt := by
        have hascending := ascending_dropRepeats h
        rw [dropRepeats, if_neg hab] at hascending
        exact (List.pairwise_cons.mp hascending).1 e he
      rw [List.find?_cons, hlt]
      exact ih (List.pairwise_cons.mp h).2 he

/-- Putting diagnostics in order leaves those of one kind in the order they came in. -/
theorem filter_mergeSort (e : Diagnostic) (ds : List Diagnostic) :
    (ds.mergeSort fun a b => (a.order b).isLE).filter (·.order e = .eq)
      = ds.filter (·.order e = .eq) := by
  have hkind : (ds.filter (·.order e = .eq)).Pairwise fun a b => (a.order b).isLE := by
    refine List.pairwise_of_forall_mem_list fun a ha b hb => ?_
    have hae : a.order e = .eq := by simpa using (List.mem_filter.mp ha).2
    have hbe : b.order e = .eq := by simpa using (List.mem_filter.mp hb).2
    rw [Std.TransCmp.eq_trans hae (Std.OrientedCmp.eq_comm.mp hbe)]
    rfl
  have hsub := List.sublist_mergeSort (fun a b c => Std.TransCmp.isLE_trans)
    (fun a b => by simpa using order_total a b) hkind List.filter_sublist
  have hlength := ((List.mergeSort_perm ds fun a b => (a.order b).isLE).filter
    (·.order e = .eq)).length_eq
  refine (List.Sublist.eq_of_length ?_ hlength.symm).symm
  simpa using hsub.filter (·.order e = .eq)

theorem find?_of_mem_sorted (h : e ∈ sorted ds) : ds.find? (·.order e = .eq) = some e := by
  have hfirst := find?_of_mem_dropRepeats (pairwise_mergeSort ds) h
  rwa [← List.head?_filter, filter_mergeSort, List.head?_filter] at hfirst

/-- Of an ascending list, at most one is like a given diagnostic. -/
theorem Ascending.countP_eq_one (h : Ascending ds) (hd : ∃ e ∈ ds, d.order e = .eq) :
    ds.countP (d.order · = .eq) = 1 := by
  induction ds with
  | nil => simp at hd
  | cons e es ih =>
    obtain ⟨he, hes⟩ := List.pairwise_cons.mp h
    by_cases hde : d.order e = .eq
    · have hrest : es.countP (d.order · = .eq) = 0 := by
        rw [List.countP_eq_zero]
        intro x hx
        simp [Std.TransCmp.lt_of_eq_of_lt hde (he x hx)]
      simp [hde, hrest]
    · have hrest : ∃ x ∈ es, d.order x = .eq := by simpa [hde] using hd
      rw [List.countP_cons_of_neg (by simpa using hde), ih hes hrest]

end First

/-- The order is total and transitive, and it tells diagnostics apart exactly by what it reads. A
sorted list goes up strictly, each of its diagnostics is the first of its kind as they came in, and
every diagnostic that came in has one there that stands for it; sorting again changes nothing. -/
theorem sorted_keeps_firsts :
    (∀ a b : Diagnostic, a.order b = (b.order a).swap ∧ ((a.order b).isLE ∨ (b.order a).isLE)) ∧
      (∀ a b c : Diagnostic, (a.order b).isLE → (b.order c).isLE → (a.order c).isLE) ∧
      (∀ a b : Diagnostic, a.order b = .eq ↔
        a.fileName = b.fileName ∧ a.start = b.start ∧ a.length = b.length ∧ a.code = b.code ∧
          a.message.flatten "\n" = b.message.flatten "\n") ∧
      ∀ ds, Ascending (sorted ds) ∧
        (∀ e ∈ sorted ds, ds.find? (·.order e = .eq) = some e) ∧
        (∀ d ∈ ds, (sorted ds).countP (d.order · = .eq) = 1) ∧
        (∀ a ∈ ds, ∀ b ∈ ds, a.order b ≠ .eq →
          ∀ e ∈ sorted ds, ¬ (a.order e = .eq ∧ b.order e = .eq)) ∧
        sorted (sorted ds) = sorted ds := by
  refine ⟨fun a b => ⟨Std.OrientedCmp.eq_swap, order_total a b⟩,
    fun a b c => Std.TransCmp.isLE_trans, fun a b => ?_, fun ds => ?_⟩
  · rw [order_eq_iff]
    simp [problem, Message.shown]
  · have hascending := ascending_sorted ds
    refine ⟨hascending, fun e he => find?_of_mem_sorted he,
      fun d hd => hascending.countP_eq_one (covered_sorted ds d hd), ?_,
      sorted_eq_of_perm (.refl _) hascending⟩
    rintro a - b - hab e - ⟨hae, hbe⟩
    exact hab (Std.TransCmp.eq_trans hae (Std.OrientedCmp.eq_comm.mp hbe))

end BufferCheck.Diagnostic
