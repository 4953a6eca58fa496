import BufferCheck.Json.Shape

/-! When the readers of shapes succeed, and with what. A member of a record is read in the same way
whether it is found by its name or by its place. -/
namespace BufferCheck.Json

theorem bind_eq_ok_iff {ε α β : Type} {x : Except ε α} {f : α → Except ε β} {b : β} :
    x >>= f = .ok b ↔ ∃ a, x = .ok a ∧ f a = .ok b := by
  cases x with
  | error e => simp [bind, Except.bind]
  | ok a => simp [bind, Except.bind]

theorem map_eq_ok_iff {ε α β : Type} {x : Except ε α} {f : α → β} {b : β} :
    x.map f = .ok b ↔ ∃ a, x = .ok a ∧ f a = b := by
  cases x with
  | error e => simp [Except.map]
  | ok a => simp [Except.map]

theorem asNat?_ofNat {n : Nat} (h : n < UInt64.size) : (Json.ofNat n).asNat? = some n := by
  rw [Json.ofNat, dif_pos h, Json.asNat?, if_pos (Int.natCast_nonneg n), Int.toNat_natCast]

/-- A member that is null counts as missing. -/
def given : Option Json → Option Json
  | some .null => none
  | found => found

theorem given_getD {found : Option Json} (h : found ≠ some .null) :
    given (some (found.getD .null)) = found := by
  cases found with
  | none => rfl
  | some v =>
    cases v with
    | null => exact absurd rfl h
    | _ => rfl

namespace Shape

variable {α : Type} {shape : Shape α} {fields : Fields Json} {name s : String} {v : Json} {n : Nat}
  {b : Bool} {a default : α} {found : Option Json} {read : Option α} {items rest : List Json}

/-- Read a member that has to be there. -/
def Reads (shape : Shape α) (found : Option Json) (a : α) : Prop :=
  ∃ v, found = some v ∧ shape v = .ok a

/-- Read a member that may be missing. -/
def ReadsOr (default : α) (shape : Shape α) (found : Option Json) (a : α) : Prop :=
  found = none ∧ a = default ∨ Reads shape found a

section Values

theorem u64_eq_ok_iff : u64 v = .ok n ↔ v.asNat? = some n := by
  cases v with
  | number m =>
    cases m with
    | double => simp [u64, natural, asNat?]
    | integer m =>
      have hsize : m.value < 18446744073709551616 := m.high
      by_cases h : 0 ≤ m.value <;> simp [u64, natural, asNat?, h, hsize]
  | _ => simp [u64, natural, asNat?]

theorem boolean_eq_ok_iff : boolean v = .ok b ↔ v = .bool b := by
  cases v <;> simp [boolean]

theorem string_eq_ok_iff : string v = .ok s ↔ v = .string s := by
  cases v <;> simp [string]

end Values

section Members

theorem reads_u64_iff : Reads u64 found n ↔ found.bind asNat? = some n := by
  simp [Reads, u64_eq_ok_iff, Option.bind_eq_some_iff]

theorem reads_boolean_iff : Reads boolean found b ↔ found = some (.bool b) := by
  simp [Reads, boolean_eq_ok_iff]

theorem reads_string_iff : Reads string found s ↔ found = some (.string s) := by
  simp [Reads, string_eq_ok_iff]

theorem readsOr_string_iff : ReadsOr "" string found s ↔ found.getD (.string "") = .string s := by
  cases found with
  | none => simp [ReadsOr, Reads, eq_comm]
  | some v => simp [ReadsOr, Reads, string_eq_ok_iff]

theorem readsOr_nullable_string_iff {m : Option String} :
    ReadsOr none (nullable string) found m ↔ given found = m.map .string := by
  cases found with
  | none => cases m <;> simp [ReadsOr, Reads, given]
  | some v => cases v <;> cases m <;> simp [ReadsOr, Reads, given, nullable, string, Except.map]

theorem readsOr_anything_iff {m : Option Json} :
    ReadsOr none anything found m ↔ given found = m := by
  cases found with
  | none => simp [ReadsOr, Reads, given, eq_comm]
  | some v => cases v <;> simp [ReadsOr, Reads, given, anything]

theorem present?_required_iff :
    (∃ read, present? fields name shape = .ok read ∧ required name read = .ok a) ↔
      Reads shape (fields.find? name) a := by
  unfold present? Reads
  cases fields.find? name with
  | none => simp [required]
  | some v => cases hv : shape v <;> simp [required, Except.map, hv]

theorem present?_getD_iff :
    (∃ read, present? fields name shape = .ok read ∧ read.getD default = a) ↔
      ReadsOr default shape (fields.find? name) a := by
  unfold present? ReadsOr Reads
  cases fields.find? name with
  | none => simp [eq_comm]
  | some v => cases hv : shape v <;> simp [Except.map, hv]

end Members

section Items

theorem next_eq_ok_iff :
    next shape items = .ok (a, rest) ↔ Reads shape items[0]? a ∧ rest = items.drop 1 := by
  cases items with
  | nil => simp [next, Reads]
  | cons v more => cases hv : shape v <;> simp [next, Reads, Except.map, hv, eq_comm (a := rest)]

theorem nextOr_eq_ok_iff : nextOr default shape items = .ok (a, rest) ↔
    ReadsOr default shape items[0]? a ∧ rest = items.drop 1 := by
  cases items with
  | nil => simp [nextOr, ReadsOr, Reads, eq_comm]
  | cons v more =>
    cases hv : shape v <;> simp [nextOr, ReadsOr, Reads, Except.map, hv, eq_comm (a := rest)]

theorem done_eq_ok_iff : done items = .ok () ↔ items = [] := by
  cases items <;> simp [done]

end Items

end Shape
end BufferCheck.Json
