import BufferCheck.Config.Declaration
import BufferCheck.Proofs.Fields

/-! Reading leaves the members of an object, and so the options of a configuration, in order. -/
namespace BufferCheck

namespace Json.Reader

variable {fuel levels : Nat} {cs r : List Char} {fields : Fields Json} {v : Json}

theorem exists_of_items? {done : List Json} (h : items? fuel levels done cs = some (v, r)) :
    ∃ items, v = .array items := by
  induction fuel generalizing done cs with
  | zero => simp [items?] at h
  | succ fuel ih =>
    rw [items?] at h
    split at h
    · simp at h
    · split at h
      · exact ih h
      · simp only [Option.some.injEq, Prod.mk.injEq] at h
        exact ⟨_, h.1.symm⟩
      · simp at h

theorem ordered_of_members? {done : Fields Json} (hd : done.Ordered)
    (h : members? fuel levels done cs = some (v, r)) :
    ∃ fields, v = .object fields ∧ Fields.Ordered fields := by
  induction fuel generalizing done cs with
  | zero => simp [members?] at h
  | succ fuel ih =>
    rw [members?] at h
    split at h
    · split at h
      · simp at h
      · split at h
        · split at h
          · simp at h
          · split at h
            · exact ih hd.insert h
            · simp only [Option.some.injEq, Prod.mk.injEq] at h
              exact ⟨_, h.1.symm, hd.insert⟩
            · simp at h
        · simp at h
    · simp at h

theorem ordered_of_value? (h : value? fuel levels cs = some (.object fields, r)) :
    fields.Ordered := by
  cases fuel with
  | zero => simp [value?] at h
  | succ fuel =>
    rw [value?] at h
    split at h
    · simp at h
    · split at h
      · simp at h
      · simp at h
      · obtain ⟨items, hi⟩ := exists_of_items? h
        simp at hi
    · split at h
      · simp at h
      · simp only [Option.some.injEq, Prod.mk.injEq, object.injEq] at h
        rw [← h.1]
        exact Fields.ordered_nil
      · obtain ⟨fs, hf, ho⟩ := ordered_of_members? Fields.ordered_nil h
        obtain rfl := object.inj hf
        exact ho
    all_goals try simp at h
    split at h
    · simp at h
    · simp at h

end Json.Reader

namespace Declaration
open Json.Reader

variable {limit fuel : Nat} {cs r : List Char} {found more : Found} {name text : String}

/-- The options found so far are in order. -/
def Found.Ordered (found : Found) : Prop :=
  ∀ options, found.options = some options → Fields.Ordered options

theorem ordered_of_optionsOf? {v : Json} {options : Fields Json} (hp : part? limit cs = some (v, r))
    (h : optionsOf? v = some options) : Fields.Ordered options := by
  cases v with
  | null =>
    obtain rfl : [] = options := Option.some.inj h
    exact Fields.ordered_nil
  | object fields =>
    obtain rfl : fields = options := Option.some.inj h
    exact ordered_of_value? hp
  | bool | number | string | array => simp [optionsOf?] at h

theorem ordered_of_member? (hf : found.Ordered)
    (h : member? limit found name cs = some (more, r)) : more.Ordered := by
  unfold member? at h
  split at h
  · split at h
    · simp at h
    · simp only [Option.bind_eq_bind, Option.bind_eq_some_iff, Option.pure_def, Option.some.injEq,
        Prod.mk.injEq] at h
      obtain ⟨p, -, bases, -, rfl, -⟩ := h
      exact hf
  · split at h
    · split at h
      · simp at h
      · simp only [Option.bind_eq_bind, Option.bind_eq_some_iff, Option.pure_def, Option.some.injEq,
          Prod.mk.injEq] at h
        obtain ⟨p, hp, options, ho, rfl, -⟩ := h
        intro found hfound
        obtain rfl : options = found := Option.some.inj hfound
        exact ordered_of_optionsOf? hp ho
    · simp only [Option.map_eq_some_iff, Prod.mk.injEq] at h
      obtain ⟨_, -, rfl, -⟩ := h
      exact hf

theorem ordered_of_memberList? (hf : found.Ordered)
    (h : members? limit fuel found cs = some (more, r)) : more.Ordered := by
  induction fuel generalizing found cs with
  | zero => simp [members?] at h
  | succ fuel ih =>
    rw [members?] at h
    split at h
    · split at h
      · simp at h
      · split at h
        · split at h
          · simp at h
          · next hm =>
            split at h
            · exact ih (ordered_of_member? hf hm) h
            · simp only [Option.some.injEq, Prod.mk.injEq] at h
              exact h.1 ▸ ordered_of_member? hf hm
            · simp at h
        · simp at h
    · simp at h

theorem ordered_of_items? (h : items? limit cs = some (found, r)) : found.Ordered := by
  unfold items? at h
  simp only [Option.bind_eq_bind, Option.bind_eq_some_iff] at h
  obtain ⟨p, -, bases, -, h⟩ := h
  split at h
  · simp only [Option.some.injEq, Prod.mk.injEq] at h
    rw [← h.1]
    intro options ho
    simp at ho
  · simp only [Option.bind_eq_some_iff] at h
    obtain ⟨q, hq, options, ho, h⟩ := h
    split at h
    · simp only [Option.some.injEq, Prod.mk.injEq] at h
      rw [← h.1]
      intro found hfound
      obtain rfl : options = found := Option.some.inj hfound
      exact ordered_of_optionsOf? hq ho
    · simp at h
  · simp at h

theorem ordered_of_found? (h : found? cs = some (found, r)) : found.Ordered := by
  have hnone : Found.Ordered {} := by intro options ho; simp at ho
  unfold found? at h
  split at h
  · split at h
    · simp only [Option.some.injEq, Prod.mk.injEq] at h
      exact h.1 ▸ hnone
    · exact ordered_of_memberList? hnone h
  · split at h
    · simp only [Option.some.injEq, Prod.mk.injEq] at h
      exact h.1 ▸ hnone
    · exact ordered_of_items? h
  · simp at h

/-- The options that a file declares are in the order of their names, each name once. -/
theorem ordered_of_read? {d : Declaration} (h : read? text = some d) :
    Fields.Ordered d.options := by
  unfold read? at h
  split at h
  · next found r hf =>
    split at h
    · obtain rfl : found.declaration = d := Option.some.inj h
      simp only [Found.declaration]
      cases ho : found.options with
      | none => exact Fields.ordered_nil
      | some options => exact ordered_of_found? hf options ho
    · simp at h
  · simp at h

end Declaration
end BufferCheck
