/-!
Outputs that may refuse to take more. A write that does not fit fills the output up and fails.
-/
namespace BufferCheck

/-- An output that takes bytes while it has room. -/
structure Output where
  /-- What it has taken, write by write, the latest first. -/
  taken : List (List UInt8)
  /-- The bytes it still takes; no number if it takes all. -/
  room : Option Nat

namespace Output

/-- What an output tells that has no room left. -/
def refusal : String := "closed"

/-- An output that has taken nothing. -/
def fresh (room : Option Nat) : Output := ⟨[], room⟩

/-- The bytes that an output has taken. -/
def accepted (out : Output) : List UInt8 := out.taken.reverse.flatten

/-- Write bytes. An output that fills up takes those that fit and fails (`false`). -/
def write (out : Output) (bytes : List UInt8) : Output × Bool :=
  match out.room with
  | none => (⟨bytes :: out.taken, none⟩, true)
  | some n =>
    if bytes.length ≤ n then (⟨bytes :: out.taken, some (n - bytes.length)⟩, true)
    else (⟨bytes.take n :: out.taken, some 0⟩, false)

/-- Write pieces one by one, up to the first that fails. -/
def writeAll (out : Output) : List (List UInt8) → Output × Bool
  | [] => (out, true)
  | piece :: rest =>
    match out.write piece with
    | (out, true) => out.writeAll rest
    | (out, false) => (out, false)

theorem accepted_fresh (room : Option Nat) : (fresh room).accepted = [] := rfl

/-- A write adds what fits. -/
theorem accepted_write (out : Output) (bytes : List UInt8) :
    (out.write bytes).1.accepted
      = out.accepted ++ bytes.take (out.room.getD bytes.length) := by
  unfold write accepted
  split
  · next h => simp [h]
  · next n h =>
    split
    · next hn => simp [h, List.take_of_length_le hn]
    · simp [h]

/-- A write fails exactly if it does not fit. -/
theorem write_fails_iff (out : Output) (bytes : List UInt8) :
    (out.write bytes).2 = false ↔ ∃ n, out.room = some n ∧ n < bytes.length := by
  unfold write
  split
  · next h => simp [h]
  · next n h =>
    split
    · next hn => simp [h]; omega
    · next hn => simp [h]; omega

end Output
end BufferCheck
