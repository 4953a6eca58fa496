import BufferCheck.Fields
import Mathlib.Data.String.Basic

/-! Fields kept in the order of their names, each name once, and what putting pairs over them finds
under a name. -/
namespace BufferCheck.Fields

universe u
variable {α : Type u} {fields pairs : Fields α} {name other : String} {value : α}

/-- The names go up, so no name is there twice. -/
def Ordered (fields : Fields α) : Prop := fields.Pairwise fun p q => p.1 < q.1

theorem ordered_nil : Ordered ([] : Fields α) := List.Pairwise.nil

theorem eq_or_mem_of_mem_insert {p : String × α} (h : p ∈ fields.insert name value) :
    p = (name, value) ∨ p ∈ fields := by
  induction fields with
  | nil => exact Or.inl (List.mem_singleton.mp h)
  | cons q rest ih =>
    simp only [insert] at h
    split at h
    · rcases List.mem_cons.mp h with h | h
      · exact Or.inl h
      · exact Or.inr (List.mem_cons_of_mem q h)
    · split at h
      · exact List.mem_cons.mp h
      · rcases List.mem_cons.mp h with rfl | h
        · exact Or.inr List.mem_cons_self
        · exact (ih h).imp_right (List.mem_cons_of_mem q)

theorem Ordered.insert (h : Ordered fields) : Ordered (fields.insert name value) := by
  induction fields with
  | nil => exact List.pairwise_singleton _ _
  | cons q rest ih =>
    obtain ⟨hq, hrest⟩ := List.pairwise_cons.mp h
    simp only [Fields.insert]
    split
    · next he => exact List.pairwise_cons.mpr ⟨fun p hp => he ▸ hq p hp, hrest⟩
    · next hne =>
      split
      · next hlt =>
        refine List.pairwise_cons.mpr ⟨fun p hp => ?_, h⟩
        rcases List.mem_cons.mp hp with rfl | hp
        · exact hlt
        · exact hlt.trans (hq p hp)
      · next hle =>
        refine List.pairwise_cons.mpr ⟨fun p hp => ?_, ih hrest⟩
        rcases eq_or_mem_of_mem_insert hp with rfl | hp
        · exact lt_of_le_of_ne (not_lt.mp hle) hne
        · exact hq p hp

theorem Ordered.extend (h : Ordered fields) : Ordered (fields.extend pairs) := by
  induction pairs generalizing fields with
  | nil => exact h
  | cons p rest ih => exact ih h.insert

theorem Ordered.nodup (h : Ordered fields) : (fields.map (·.1)).Nodup :=
  List.pairwise_map.mpr (h.imp ne_of_lt)

theorem find?_eq_none (h : name ∉ fields.map (·.1)) : fields.find? name = none := by
  induction fields with
  | nil => rfl
  | cons p rest ih =>
    rw [List.map_cons, List.mem_cons, not_or] at h
    rw [find?, if_neg (Ne.symm h.1), ih h.2]

/-- Of fields put over others, those on top are found first. -/
theorem find?_extend (h : (pairs.map (·.1)).Nodup) :
    (fields.extend pairs).find? name = (pairs.find? name).or (fields.find? name) := by
  induction pairs generalizing fields with
  | nil => rfl
  | cons p rest ih =>
    obtain ⟨hp, hrest⟩ := List.nodup_cons.mp h
    have hx : fields.extend (p :: rest) = (fields.insert p.1 p.2).extend rest := rfl
    rw [hx, ih hrest, find?]
    split
    · next he =>
      subst he
      rw [find?_eq_none hp, find?_insert_self]
      rfl
    · next hne => rw [find?_insert_of_ne p.2 fields (Ne.symm hne)]

/-- Changing the values by their names changes what is found in the same way. -/
theorem find?_map (f : String → α → α) :
    find? name (fields.map fun p => (p.1, f p.1 p.2)) = (find? name fields).map (f name) := by
  induction fields with
  | nil => rfl
  | cons p rest ih =>
    simp only [List.map_cons, find?]
    split
    · next he => simp [he]
    · exact ih

end BufferCheck.Fields
