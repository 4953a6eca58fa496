import BufferCheck.Output
import Mathlib.Data.List.Basic

/-! Outputs take the first bytes of what is written to them, as many as they have room for, however
it is cut into writes. -/
namespace BufferCheck.Output

variable {out out' : Output} {piece : List UInt8} {pieces more : List (List UInt8)}

theorem writeAll_nil (out : Output) : out.writeAll [] = (out, true) := rfl

theorem writeAll_cons_of_true (h : out.write piece = (out', true)) :
    out.writeAll (piece :: pieces) = out'.writeAll pieces := by
  rw [writeAll, h]

theorem writeAll_cons_of_false (h : out.write piece = (out', false)) :
    out.writeAll (piece :: pieces) = (out', false) := by
  rw [writeAll, h]

theorem writeAll_singleton (out : Output) (piece : List UInt8) :
    out.writeAll [piece] = out.write piece := by
  rw [writeAll]
  split
  · next h => rw [h, writeAll_nil]
  · next h => exact h.symm

theorem writeAll_append_of_true (h : out.writeAll pieces = (out', true)) :
    out.writeAll (pieces ++ more) = out'.writeAll more := by
  induction pieces generalizing out with
  | nil =>
    obtain rfl : out = out' := congrArg Prod.fst h
    rfl
  | cons piece pieces ih =>
    cases hwrite : out.write piece with
    | mk next done =>
      cases done with
      | true =>
        rw [writeAll_cons_of_true hwrite] at h
        rw [List.cons_append, writeAll_cons_of_true hwrite, ih h]
      | false => simp [writeAll_cons_of_false hwrite] at h

/-- A write that fits leaves so much less room. -/
theorem room_write (h : out.write piece = (out', true)) :
    out'.room = out.room.map (· - piece.length) ∧ ∀ n, out.room = some n → piece.length ≤ n := by
  unfold write at h
  split at h
  · next hroom =>
    obtain rfl := congrArg Prod.fst h
    simp [hroom]
  · next n hroom =>
    split at h
    · next hfits =>
      obtain rfl := congrArg Prod.fst h
      simpa [hroom] using hfits
    · simp at h

/-- What is written piece by piece is taken as far as there is room, and the writing fails exactly
if there is not room for all. -/
theorem writeAll_spec (out : Output) (pieces : List (List UInt8)) :
    (out.writeAll pieces).1.accepted
        = out.accepted ++ pieces.flatten.take (out.room.getD pieces.flatten.length) ∧
      ((out.writeAll pieces).2 = false ↔ ∃ n, out.room = some n ∧ n < pieces.flatten.length) := by
  induction pieces generalizing out with
  | nil => simp [writeAll_nil]
  | cons piece pieces ih =>
    have haccepted := accepted_write out piece
    have hfails := write_fails_iff out piece
    cases hwrite : out.write piece with
    | mk next done =>
      rw [hwrite] at haccepted hfails
      simp only at haccepted hfails
      cases done with
      | true =>
        obtain ⟨hroom, hfits⟩ := room_write hwrite
        obtain ⟨hrest, hdone⟩ := ih next
        rw [writeAll_cons_of_true hwrite, hrest, hdone, haccepted, hroom, List.flatten_cons]
        cases hout : out.room with
        | none =>
          simp only [Option.map_none, Option.getD_none, List.take_length, List.append_assoc,
            reduceCtorEq, false_and, exists_false, and_self]
        | some n =>
          have hle := hfits n hout
          simp only [Option.map_some, Option.getD_some, Option.some.injEq, exists_eq_left',
            List.take_of_length_le hle, List.take_append, List.length_append, List.append_assoc,
            true_and]
          omega
      | false =>
        obtain ⟨n, hout, hlt⟩ := hfails.mp rfl
        rw [writeAll_cons_of_false hwrite, haccepted, hout]
        simp only [Option.getD_some, List.flatten_cons, Option.some.injEq, exists_eq_left',
          List.take_append_of_le_length (Nat.le_of_lt hlt), List.length_append, true_and, true_iff]
        omega

/-- The writes that are made of pieces where `n` bytes fit: of each piece the whole, up to the first
that does not fit, and what fits of that one. -/
def Written (n : Nat) (pieces writes : List (List UInt8)) : Prop :=
  (pieces.flatten.length ≤ n ∧ writes = pieces) ∨
    ∃ before piece after, pieces = before ++ piece :: after ∧ before.flatten.length ≤ n ∧
      n < (before ++ [piece]).flatten.length ∧
      writes = before ++ [piece.take (n - before.flatten.length)]

theorem Written.cons {n : Nat} {writes : List (List UInt8)} (hfits : piece.length ≤ n)
    (h : Written (n - piece.length) pieces writes) : Written n (piece :: pieces) (piece :: writes) := by
  rcases h with ⟨hall, rfl⟩ | ⟨before, next, after, rfl, hbefore, hnext, rfl⟩
  · left
    refine ⟨?_, rfl⟩
    rw [List.flatten_cons, List.length_append]
    omega
  · right
    simp only [List.flatten_append, List.length_append, List.flatten_singleton] at hnext
    refine ⟨piece :: before, next, after, rfl, ?_, ?_, ?_⟩
    · rw [List.flatten_cons, List.length_append]
      omega
    · simp only [List.flatten_append, List.flatten_cons, List.length_append, List.flatten_nil,
        List.length_nil]
      omega
    · rw [List.flatten_cons, List.length_append, Nat.sub_add_eq, List.cons_append]

/-- Pieces are written in turn, and nothing is written after a write that fails. -/
theorem taken_writeAll {n : Nat} (h : out.room = some n) (pieces : List (List UInt8)) :
    ∃ writes, Written n pieces writes ∧
      (out.writeAll pieces).1.taken = writes.reverse ++ out.taken := by
  induction pieces generalizing out n with
  | nil => exact ⟨[], Or.inl ⟨Nat.zero_le n, rfl⟩, rfl⟩
  | cons piece pieces ih =>
    by_cases hfits : piece.length ≤ n
    · have hwrite : out.write piece = (⟨piece :: out.taken, some (n - piece.length)⟩, true) := by
        simp only [write, h, if_pos hfits]
      have hroom : (Output.mk (piece :: out.taken) (some (n - piece.length))).room
          = some (n - piece.length) := rfl
      obtain ⟨writes, hwritten, htaken⟩ := ih hroom
      refine ⟨piece :: writes, hwritten.cons hfits, ?_⟩
      rw [writeAll_cons_of_true hwrite, htaken]
      simp
    · have hwrite : out.write piece = (⟨piece.take n :: out.taken, some 0⟩, false) := by
        simp only [write, h, if_neg hfits]
      refine ⟨[piece.take n], Or.inr ⟨[], piece, pieces, rfl, Nat.zero_le n, ?_, rfl⟩, ?_⟩
      · rw [List.nil_append, List.flatten_singleton]
        omega
      · rw [writeAll_cons_of_false hwrite]
        rfl

/-- An output with limited room takes what is written to it up to the limit, and the writing fails
exactly if it goes beyond. -/
theorem writeAll_fresh (pieces : List (List UInt8)) (n : Nat) :
    let result := (fresh (some n)).writeAll pieces
    result.1.accepted = pieces.flatten.take (min n pieces.flatten.length) ∧
      (result.2 = false ↔ n < pieces.flatten.length) ∧
      Written n pieces result.1.taken.reverse := by
  have hroom : (fresh (some n)).room = some n := rfl
  obtain ⟨haccepted, hfails⟩ := (fresh (some n)).writeAll_spec pieces
  obtain ⟨writes, hwritten, htaken⟩ := taken_writeAll hroom pieces
  rw [hroom] at haccepted hfails
  refine ⟨?_, ?_, ?_⟩
  · rw [haccepted, accepted_fresh, List.nil_append, Option.getD_some, List.take_eq_take_min]
  · rw [hfails]
    simp only [Option.some.injEq, exists_eq_left']
  · rw [htaken]
    simpa [fresh] using hwritten

end BufferCheck.Output
