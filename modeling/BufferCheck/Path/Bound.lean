/-!
There are finitely many short texts. `unvisited` counts those that a list has not named yet; it goes
down with every new one, so a walk that never repeats a short text ends.
-/
namespace BufferCheck.Path

/-- A number for a list of bytes: its digits to the base 257 are the bytes plus one. -/
def codeOf : List UInt8 → Nat
  | [] => 0
  | b :: bs => b.toNat + 1 + 257 * codeOf bs

/-- A number for a text. -/
def code (s : String) : Nat := codeOf s.toByteArray.data.toList

theorem codeOf_lt (bs : List UInt8) : codeOf bs < Nat.pow 257 bs.length := by
  induction bs with
  | nil => simp [codeOf]
  | cons b bs ih =>
    have hb := b.toNat_lt
    simp only [codeOf, List.length_cons, Nat.pow_eq, Nat.pow_succ] at ih ⊢
    omega

theorem codeOf_inj {as bs : List UInt8} (h : codeOf as = codeOf bs) : as = bs := by
  induction as generalizing bs with
  | nil => cases bs with
    | nil => rfl
    | cons b bs => simp only [codeOf] at h; omega
  | cons a as ih => cases bs with
    | nil => simp only [codeOf] at h; omega
    | cons b bs =>
      have ha := a.toNat_lt
      have hb := b.toNat_lt
      simp only [codeOf] at h
      rw [@ih bs (by omega), UInt8.toNat_inj.mp (by omega : a.toNat = b.toNat)]

theorem code_inj {s t : String} (h : code s = code t) : s = t := by
  have := codeOf_inj h
  exact String.toByteArray_inj.mp (ByteArray.ext (Array.toList_inj.mp this))

theorem code_lt {s : String} {limit : Nat} (h : s.utf8ByteSize < limit) :
    code s < Nat.pow 257 limit := by
  refine Nat.lt_of_lt_of_le (codeOf_lt _) (Nat.pow_le_pow_right (by omega) ?_)
  exact Nat.le_of_lt h

/-- The texts of fewer than `limit` bytes that a list does not name, counted by their numbers. -/
@[irreducible] def unvisited (limit : Nat) (visited : List String) : Nat :=
  (List.range (Nat.pow 257 limit)).countP fun n => !(visited.map code).contains n

theorem countP_lt_countP {p q : Nat → Bool} {l : List Nat} {x : Nat}
    (h : ∀ n, p n = true → q n = true) (hx : x ∈ l) (hp : p x = false) (hq : q x = true) :
    l.countP p < l.countP q := by
  induction l with
  | nil => simp at hx
  | cons a l ih =>
    have hle : l.countP p ≤ l.countP q := List.countP_mono_left fun n _ => h n
    have ha := h a
    simp only [List.countP_cons]
    rcases List.mem_cons.mp hx with rfl | hx
    · rw [hp, hq, if_pos rfl, if_neg Bool.false_ne_true]; omega
    · have := ih hx
      by_cases hpa : p a = true
      · rw [if_pos hpa, if_pos (ha hpa)]; omega
      · rw [if_neg hpa]; split <;> omega

theorem unvisited_cons_lt {limit : Nat} {visited : List String} {s : String}
    (hs : s.utf8ByteSize < limit) (hv : s ∉ visited) :
    unvisited limit (s :: visited) < unvisited limit visited := by
  unfold unvisited
  refine countP_lt_countP (x := code s) (fun n hn => ?_) (List.mem_range.mpr (code_lt hs)) ?_ ?_
  · simp_all
  · simp
  · have : ∀ t ∈ visited, code t ≠ code s := fun t ht he => hv (code_inj he ▸ ht)
    simpa using this

end BufferCheck.Path
