/-! Natural numbers in decimal digits, without leading zeros. -/
namespace BufferCheck.Decimal

/-- The digit of a number below ten. -/
def digitChar (n : Nat) : Char := Char.ofNat (48 + n)

/-- The value of a decimal digit. -/
def digitValue (c : Char) : Nat := c.toNat - 48

/-- The ASCII digits. -/
def isDigit (c : Char) : Bool := '0' ≤ c && c ≤ '9'

/-- The digits of a number, most significant first. -/
def digits (n : Nat) : List Char :=
  if n < 10 then [digitChar n] else digits (n / 10) ++ [digitChar (n % 10)]
termination_by n

/-- The number that digits spell. -/
def value (cs : List Char) : Nat := cs.foldl (fun n c => 10 * n + digitValue c) 0

/-- The number that digits spell, after a number that is read already, as long as it stays below a
limit. -/
def valueBelow? (limit n : Nat) : List Char → Option Nat
  | [] => some n
  | c :: cs =>
    if 10 * n + digitValue c < limit then valueBelow? limit (10 * n + digitValue c) cs else none

/-- The digits of an integer, after a minus sign if it is negative. -/
def signed (n : Int) : List Char :=
  if n < 0 then '-' :: digits n.natAbs else digits n.natAbs

theorem toNat_digitChar {n : Nat} (h : n < 10) : (digitChar n).toNat = 48 + n := by
  have hv : (48 + n).isValidChar := by left; omega
  rw [digitChar, Char.ofNat, dif_pos hv]
  rfl

theorem digitValue_digitChar {n : Nat} (h : n < 10) : digitValue (digitChar n) = n := by
  rw [digitValue, toNat_digitChar h]
  omega

theorem value_append (cs : List Char) (c : Char) :
    value (cs ++ [c]) = 10 * value cs + digitValue c := by
  simp [value]

/-- Digits spell the number they are taken from. -/
theorem value_digits (n : Nat) : value (digits n) = n := by
  induction n using Nat.strongRecOn with
  | ind n ih =>
    rw [digits]
    split
    · next h => simp [value, digitValue_digitChar h]
    · next h =>
      rw [value_append, ih (n / 10) (by omega), digitValue_digitChar (Nat.mod_lt n (by omega))]
      omega

theorem le_foldl_value (n : Nat) (cs : List Char) :
    n ≤ cs.foldl (fun n c => 10 * n + digitValue c) n := by
  induction cs generalizing n with
  | nil => exact Nat.le_refl n
  | cons c cs ih => exact Nat.le_trans (by omega) (ih (10 * n + digitValue c))

/-- Digits that spell a number below the limit are read in full, others are not. -/
theorem valueBelow?_eq {limit : Nat} (h : 0 < limit) (cs : List Char) :
    valueBelow? limit 0 cs = if value cs < limit then some (value cs) else none := by
  suffices hn : ∀ n, n < limit → valueBelow? limit n cs =
      if cs.foldl (fun n c => 10 * n + digitValue c) n < limit
      then some (cs.foldl (fun n c => 10 * n + digitValue c) n) else none from hn 0 h
  induction cs with
  | nil => intro n hn; simp [valueBelow?, hn]
  | cons c cs ih =>
    intro n _
    simp only [valueBelow?, List.foldl_cons]
    split
    · next hc => exact ih _ hc
    · next hc =>
      have := le_foldl_value (10 * n + digitValue c) cs
      exact (if_neg (by omega)).symm

theorem isDigit_digitChar {n : Nat} (h : n < 10) : isDigit (digitChar n) = true := by
  have hn := toNat_digitChar h
  simp only [isDigit, Bool.and_eq_true, decide_eq_true_eq, Char.le_def, UInt32.le_iff_toNat_le]
  change 48 ≤ (digitChar n).toNat ∧ (digitChar n).toNat ≤ 57
  omega

theorem digits_ne_nil (n : Nat) : digits n ≠ [] := by
  rw [digits]
  split <;> simp

theorem isDigit_of_mem_digits {n : Nat} {c : Char} (h : c ∈ digits n) : isDigit c = true := by
  induction n using Nat.strongRecOn with
  | ind n ih =>
    rw [digits] at h
    split at h
    · next hn =>
      obtain rfl := List.mem_singleton.mp h
      exact isDigit_digitChar hn
    · next hn =>
      rcases List.mem_append.mp h with h | h
      · exact ih (n / 10) (by omega) h
      · obtain rfl := List.mem_singleton.mp h
        exact isDigit_digitChar (Nat.mod_lt n (by omega))

/-- Only zero starts with the digit zero. -/
theorem digits_zero_cons {n : Nat} {ds : List Char} (h : digits n = '0' :: ds) : ds = [] := by
  induction n using Nat.strongRecOn generalizing ds with
  | ind n ih =>
    rw [digits] at h
    split at h
    · exact (List.cons.inj h).2.symm
    · next hn =>
      obtain hnil | ⟨more, hmore, -⟩ := List.append_eq_cons_iff.mp h
      · exact absurd hnil.1 (digits_ne_nil _)
      · obtain rfl := ih (n / 10) (by omega) hmore
        have hv := value_digits (n / 10)
        rw [hmore] at hv
        have : n / 10 = 0 := hv.symm
        omega

end BufferCheck.Decimal
