import BufferCheck.Proofs.Json.RoundTrip

/-! A text is read only if its value nests within the levels that the reader allows: this is the one
limit on what is read back. -/
namespace BufferCheck.Json

/-- The value does not nest deeper than given, whatever deeper bound it keeps. -/
def NestsWithin (levels : Nat) (v : Json) : Prop := ∀ n, Plain n v → Plain levels v

section Compound

variable {levels : Nat}

theorem nestsWithin_array {items : List Json} (h : ∀ v ∈ items, NestsWithin levels v) :
    NestsWithin (levels + 1) (.array items) := by
  intro n hn
  cases hn with
  | @array n _ hitems => exact .array fun v hv => h v hv n (hitems v hv)

theorem nestsWithin_object {fields : Fields Json} (h : ∀ p ∈ fields, NestsWithin levels p.2) :
    NestsWithin (levels + 1) (.object fields) := by
  intro n hn
  cases hn with
  | @object n _ ho hfields => exact .object ho fun p hp => h p hp n (hfields p hp)

theorem nestsWithin_insert {done : Fields Json} {name : String} {v : Json}
    (h : ∀ p ∈ done, NestsWithin levels p.2) (hv : NestsWithin levels v) :
    ∀ p ∈ done.insert name v, NestsWithin levels p.2 := by
  intro p hp
  rcases Fields.eq_or_mem_of_mem_insert hp with rfl | hp
  · exact hv
  · exact h p hp

end Compound

namespace Reader

mutual

theorem nestsWithin_of_value? (fuel : Nat) {levels : Nat} {cs r : List Char} {v : Json}
    (h : value? fuel levels cs = some (v, r)) : NestsWithin levels v := by
  cases fuel with
  | zero => simp [value?] at h
  | succ fuel =>
    rw [value?] at h
    split at h
    · obtain ⟨p, -, hp⟩ := Option.map_eq_some_iff.mp h
      obtain rfl := congrArg Prod.fst hp
      exact fun _ _ => .string _ _
    · split at h
      · cases h
      · obtain rfl := congrArg Prod.fst (Option.some.inj h)
        exact nestsWithin_array (by simp)
      · exact nestsWithin_of_items? fuel (by simp) h
    · split at h
      · cases h
      · obtain rfl := congrArg Prod.fst (Option.some.inj h)
        exact nestsWithin_object (by simp)
      · exact nestsWithin_of_members? fuel (by simp) h
    · obtain rfl := congrArg Prod.fst (Option.some.inj h)
      exact fun _ _ => .null _
    · obtain rfl := congrArg Prod.fst (Option.some.inj h)
      exact fun _ _ => .bool _ _
    · obtain rfl := congrArg Prod.fst (Option.some.inj h)
      exact fun _ _ => .bool _ _
    · split at h
      · cases h
      · obtain ⟨n, -, hn⟩ := Option.map_eq_some_iff.mp h
        obtain rfl := congrArg Prod.fst hn
        intro m hm
        cases hm with
        | integer => exact .integer _ _

theorem nestsWithin_of_items? (fuel : Nat) {levels : Nat} {done : List Json} {cs r : List Char}
    {v : Json} (hdone : ∀ w ∈ done, NestsWithin levels w)
    (h : items? fuel levels done cs = some (v, r)) : NestsWithin (levels + 1) v := by
  cases fuel with
  | zero => simp [items?] at h
  | succ fuel =>
    rw [items?] at h
    split at h
    · cases h
    · next w rest hw =>
      have hall : ∀ u ∈ w :: done, NestsWithin levels u :=
        List.forall_mem_cons.mpr ⟨nestsWithin_of_value? fuel hw, hdone⟩
      split at h
      · exact nestsWithin_of_items? fuel hall h
      · obtain rfl := congrArg Prod.fst (Option.some.inj h)
        exact nestsWithin_array fun u hu => hall u (List.mem_reverse.mp hu)
      · cases h

theorem nestsWithin_of_members? (fuel : Nat) {levels : Nat} {done : Fields Json}
    {cs r : List Char} {v : Json} (hdone : ∀ p ∈ done, NestsWithin levels p.2)
    (h : members? fuel levels done cs = some (v, r)) : NestsWithin (levels + 1) v := by
  cases fuel with
  | zero => simp [members?] at h
  | succ fuel =>
    rw [members?] at h
    split at h
    · split at h
      · cases h
      split at h
      · split at h
        · cases h
        next w rest hw =>
        have hv := nestsWithin_of_value? fuel hw
        have hall := fun name => @nestsWithin_insert levels done name w hdone hv
        split at h
        · exact nestsWithin_of_members? fuel (hall _) h
        · obtain rfl := congrArg Prod.fst (Option.some.inj h)
          exact nestsWithin_object (hall _)
        · cases h
      · cases h
    · cases h

end

end Reader

/-- A value that is read nests within the levels that the reader allows. -/
theorem nestsWithin_of_read? {cs : List Char} {v : Json} (h : read? cs = some v) :
    NestsWithin Reader.maxLevels v := by
  rw [read?] at h
  split at h
  · next hv =>
    split at h
    · obtain rfl := Option.some.inj h
      exact Reader.nestsWithin_of_value? _ hv
    · cases h
  · cases h

theorem nestsWithin_of_ofBytes? {bytes : List UInt8} {v : Json} (h : ofBytes? bytes = some v) :
    NestsWithin Reader.maxLevels v := by
  obtain ⟨s, -, hs⟩ := Option.bind_eq_some_iff.mp h
  exact nestsWithin_of_read? hs

/-- A value with integers and ordered members is read back from its text, with a line feed behind it
or without, exactly if it does not nest too deep. -/
theorem ofBytes?_text_iff {n : Nat} {v : Json} (h : Plain n v) :
    (ofBytes? (Utf8.encode v.text ++ [10]) = some v ↔ Plain Reader.maxLevels v) ∧
      (ofBytes? (Utf8.encode v.text) = some v ↔ Plain Reader.maxLevels v) := by
  refine ⟨⟨fun hv => nestsWithin_of_ofBytes? hv n h, ofBytes?_text⟩,
    ⟨fun hv => nestsWithin_of_ofBytes? hv n h, fun hv => ?_⟩⟩
  rw [ofBytes?, Utf8.decode?_encode]
  simpa [text] using read?_chars hv (show Reader.atEnd [] = true from rfl)

end BufferCheck.Json
