import BufferCheck.LineIndex
import Mathlib.Data.List.Basic

/-! The lines of a text: they start at zero and go up to the end, and the line of an offset is the
one that holds it. Later offsets have later places. -/
namespace BufferCheck

theorem Utf16.size_pos (c : Char) : 0 < Utf16.size c := by
  unfold Utf16.size
  split <;> omega

namespace LineIndex

variable {index : LineIndex} {starts : Array Nat} {offset next low high line : Nat}
  {cs : List Char}

/-- The starts are those of the lines of some text: the first is zero, they go up, and none is past
the end. -/
structure IsTable (index : LineIndex) : Prop where
  first : index.starts[0]? = some 0
  ascending : index.starts.toList.Pairwise (· < ·)
  le_length : ∀ start ∈ index.starts, start ≤ index.length

section Scan

theorem isTable_empty : IsTable ⟨#[0], 0⟩ :=
  ⟨rfl, List.pairwise_singleton _ _, by simp⟩

theorem IsTable.mono (h : IsTable ⟨starts, offset⟩) (hle : offset ≤ next) :
    IsTable ⟨starts, next⟩ :=
  ⟨h.first, h.ascending, fun start hs => Nat.le_trans (h.le_length start hs) hle⟩

/-- A line that starts past the end so far is one more line. -/
theorem IsTable.push (h : IsTable ⟨starts, offset⟩) (hlt : offset < next) :
    IsTable ⟨starts.push next, next⟩ := by
  have hbelow : ∀ start ∈ starts.toList, start < next := by
    intro start hs
    exact Nat.lt_of_le_of_lt (h.le_length start (by simpa using hs)) hlt
  refine ⟨?_, ?_, ?_⟩
  · have hfirst : starts[0]? = some 0 := h.first
    have hsize : 0 < starts.size := (Array.getElem?_eq_some_iff.mp hfirst).1
    change (starts.push next)[0]? = some 0
    rw [Array.getElem?_push_lt hsize, ← hfirst, Array.getElem?_eq_getElem hsize]
  · rw [Array.toList_push, List.pairwise_append]
    refine ⟨h.ascending, List.pairwise_singleton _ _, fun start hs last hlast => ?_⟩
    rw [List.mem_singleton.mp hlast]
    exact hbelow start hs
  · intro start hs
    rcases Array.mem_push.mp hs with hs | rfl
    · exact Nat.le_of_lt (hbelow start (by simpa using hs))
    · exact Nat.le_refl _

theorem isTable_scan (h : IsTable ⟨starts, offset⟩) : IsTable (scan starts offset cs) := by
  fun_induction scan starts offset cs with
  | case1 starts offset => exact h
  | case2 starts offset cs ih => exact ih (h.push (by omega))
  | case3 starts offset c cs _ next ih =>
    have hlt : offset < next := Nat.lt_add_of_pos_right (Utf16.size_pos c)
    apply ih
    split
    · exact h.push hlt
    · exact h.mono (Nat.le_of_lt hlt)

theorem length_scan (starts : Array Nat) (offset : Nat) (cs : List Char) :
    (scan starts offset cs).length = cs.foldl (fun n c => n + Utf16.size c) offset := by
  fun_induction scan starts offset cs with
  | case1 => rfl
  | case2 starts offset cs ih =>
    have hcr : Utf16.size '\r' = 1 := by decide
    have hlf : Utf16.size '\n' = 1 := by decide
    rw [ih, List.foldl_cons, List.foldl_cons, hcr, hlf]
  | case3 starts offset c cs _ next ih => rw [ih, List.foldl_cons]

theorem isTable_ofText (text : String) : IsTable (ofText text) := isTable_scan isTable_empty

theorem length_ofText (text : String) : (ofText text).length = Utf16.length text :=
  length_scan _ _ _

end Scan

section Position

/-- The line that halving finds starts at or before the offset, and the next one after it. -/
theorem lastStart_spec (hlt : low < high) (hsize : high ≤ starts.size)
    (hlow : (starts[low]?).getD 0 ≤ offset)
    (hhigh : ∀ start, starts[high]? = some start → offset < start) :
    lastStart starts offset low high < starts.size ∧
      (starts[lastStart starts offset low high]?).getD 0 ≤ offset ∧
      ∀ start, starts[lastStart starts offset low high + 1]? = some start → offset < start := by
  fun_induction lastStart starts offset low high with
  | case1 low high hmore middle hmiddle ih => exact ih (by omega) hsize hmiddle hhigh
  | case2 low high hmore middle hmiddle ih =>
    refine ih (by omega) (by omega) hlow fun start hs => ?_
    rw [hs, Option.getD_some] at hmiddle
    omega
  | case3 low high hmore =>
    obtain rfl : high = low + 1 := by omega
    exact ⟨by omega, hlow, hhigh⟩

/-- An offset, or the end if it is past it, is in its line, at its character. -/
theorem IsTable.position_spec (h : IsTable index) (offset : Nat) :
    ∃ start, index.lineStart? (index.position offset).line = some start ∧
      start + (index.position offset).character = min offset index.length ∧
      ∀ after, index.lineStart? ((index.position offset).line + 1) = some after →
        min offset index.length < after := by
  have hsize : 0 < index.starts.size := (Array.getElem?_eq_some_iff.mp h.first).1
  have hlow : (index.starts[0]?).getD 0 ≤ min offset index.length := by simp [h.first]
  obtain ⟨hline, hle, hafter⟩ := lastStart_spec hsize (Nat.le_refl _) hlow (by simp)
  refine ⟨_, Array.getElem?_eq_getElem hline, ?_, hafter⟩
  rw [Array.getElem?_eq_getElem hline, Option.getD_some] at hle
  simp only [position, Array.getElem?_eq_getElem hline, Option.getD_some]
  omega

theorem IsTable.line_lt (h : IsTable index) (offset : Nat) :
    (index.position offset).line < index.lineCount := by
  obtain ⟨start, hs, -⟩ := h.position_spec offset
  exact (Array.getElem?_eq_some_iff.mp hs).1

theorem IsTable.start_le {later start after : Nat} (h : IsTable index) (hle : line ≤ later)
    (hs : index.lineStart? line = some start) (ha : index.lineStart? later = some after) :
    start ≤ after := by
  rcases Nat.eq_or_lt_of_le hle with rfl | hlt
  · exact Nat.le_of_eq (Option.some.inj (hs.symm.trans ha))
  · obtain ⟨hline, rfl⟩ := Array.getElem?_eq_some_iff.mp hs
    obtain ⟨hlater, rfl⟩ := Array.getElem?_eq_some_iff.mp ha
    exact Nat.le_of_lt (List.pairwise_iff_getElem.mp h.ascending line later hline hlater hlt)

/-- A later offset is on a later line, or not before on the same line. -/
theorem IsTable.position_mono {later : Nat} (h : IsTable index) (hle : offset ≤ later) :
    (index.position offset).line < (index.position later).line ∨
      (index.position offset).line = (index.position later).line ∧
        (index.position offset).character ≤ (index.position later).character := by
  obtain ⟨start, hs, hplace, -⟩ := h.position_spec offset
  obtain ⟨start', hs', hplace', hafter⟩ := h.position_spec later
  have hmin : min offset index.length ≤ min later index.length := by omega
  rcases Nat.lt_trichotomy (index.position offset).line (index.position later).line with
    hlt | heq | hgt
  · exact .inl hlt
  · rw [heq] at hs
    obtain rfl : start = start' := Option.some.inj (hs.symm.trans hs')
    exact .inr ⟨heq, by omega⟩
  · -- The line after that of the later offset starts at or before the earlier one.
    have hexists : (index.position later).line + 1 < index.starts.size :=
      Nat.lt_of_le_of_lt hgt (h.line_lt offset)
    have hnext := Array.getElem?_eq_getElem hexists
    have := hafter _ hnext
    have := h.start_le hgt hnext hs
    omega

end Position

end LineIndex
end BufferCheck
