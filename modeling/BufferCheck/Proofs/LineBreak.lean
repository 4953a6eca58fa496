import BufferCheck.Proofs.LineIndex
import BufferCheck.Text.Utf16

/-! Line breaks in the code units of a text. The lines that one pass over the characters finds start
at zero and after every break, and halving finds as many breaks as end up to an offset. -/
namespace BufferCheck

namespace Utf16

variable {c : Char} {cs : List Char} {u : Nat}

/-- The code units of a character. Above U+FFFF they are a surrogate pair. -/
def unitsOf (c : Char) : List Nat :=
  if c.toNat < 0x10000 then [c.toNat]
  else [0xD800 + (c.toNat - 0x10000) / 0x400, 0xDC00 + (c.toNat - 0x10000) % 0x400]

/-- The code units of a text. -/
def encode (text : String) : List Nat := text.toList.flatMap unitsOf

theorem length_unitsOf (c : Char) : (unitsOf c).length = size c := by
  unfold unitsOf size
  split <;> rfl

/-- A character is one unit by itself, or it is the one that its surrogate pair stands for. -/
theorem unitsOf_cases (c : Char) :
    unitsOf c = [c.toNat] ∨
      ∃ high low, unitsOf c = [high, low] ∧ isHigh high = true ∧ isLow low = true ∧
        pair high low = c ∧ 0x10000 ≤ c.toNat := by
  by_cases h : c.toNat < 0x10000
  · exact .inl (if_pos h)
  · have hvalid : c.toNat < 0x110000 := by
      have hv := c.valid
      simp only [UInt32.isValidChar, Nat.isValidChar] at hv
      change c.val.toNat < _
      omega
    refine .inr ⟨_, _, if_neg h, ?_, ?_, ?_, Nat.le_of_not_lt h⟩
    · simp only [isHigh, Bool.and_eq_true, decide_eq_true_eq]
      omega
    · simp only [isLow, Bool.and_eq_true, decide_eq_true_eq]
      omega
    · have hsum : 0x10000 + 0x400 * (0xD800 + (c.toNat - 0x10000) / 0x400 - 0xD800) +
          (0xDC00 + (c.toNat - 0x10000) % 0x400 - 0xDC00) = c.toNat := by omega
      rw [pair, hsum, Char.ofNat_toNat]

/-- A unit below the surrogates is a character of its own. -/
theorem toNat_of_mem (hmem : u ∈ unitsOf c) (hu : u < 0xD800) : c.toNat = u := by
  obtain h | ⟨high, low, h, hhigh, hlow, -, -⟩ := unitsOf_cases c
  · exact (List.mem_singleton.mp (h ▸ hmem)).symm
  · rw [h, List.mem_pair] at hmem
    simp only [isHigh, isLow, Bool.and_eq_true, decide_eq_true_eq] at hhigh hlow
    omega

theorem unitsOf_ne_nil (c : Char) : unitsOf c ≠ [] := by
  rw [← List.length_pos_iff, length_unitsOf]
  exact size_pos c

theorem foldl_size (cs : List Char) (n : Nat) :
    cs.foldl (fun n c => n + size c) n = n + (cs.flatMap unitsOf).length := by
  induction cs generalizing n with
  | nil => rfl
  | cons c cs ih =>
    rw [List.foldl_cons, ih, List.flatMap_cons, List.length_append, length_unitsOf, Nat.add_assoc]

theorem length_encode (text : String) : (encode text).length = length text := by
  rw [length, foldl_size, Nat.zero_add, encode]

end Utf16

namespace LineIndex

variable {index : LineIndex} {offset line start character : Nat} {before rest units : List Nat}
  {starts : Array Nat} {c : Char} {cs : List Char}

def carriageReturn : Nat := 0x0D

def lineFeed : Nat := 0x0A

/-- Where the line break ends that begins at an offset, if one does: CR and LF taken as one, either
of them alone, or a separator. An LF after a CR begins no break. -/
def breakEnd? (units : List Nat) (i : Nat) : Option Nat :=
  if units[i]? = some carriageReturn then
    some (if units[i + 1]? = some lineFeed then i + 2 else i + 1)
  else if units[i]? = some lineFeed then
    if 0 < i ∧ units[i - 1]? = some carriageReturn then none else some (i + 1)
  else if units[i]? = some 0x2028 ∨ units[i]? = some 0x2029 then some (i + 1)
  else none

/-- Where the line breaks in units end. -/
def breakEnds (units : List Nat) : List Nat :=
  (List.range units.length).filterMap (breakEnd? units)

/-- The place of an offset by counting: as many lines as breaks end up to it, and what is left after
the last of them. -/
def placeIn (units : List Nat) (offset : Nat) : LinePosition :=
  let offset := min offset units.length
  let ends := (breakEnds units).filter (· ≤ offset)
  ⟨ends.length, offset - ends.getLast?.getD 0⟩

section Breaks

/-- A break is told by a unit, the one before it and the one after it. -/
theorem breakEnd?_append (before rest : List Nat) (u : Nat) :
    breakEnd? (before ++ u :: rest) before.length =
      if u = carriageReturn then
        some (if rest.head? = some lineFeed then before.length + 2 else before.length + 1)
      else if u = lineFeed then
        if before.getLast? = some carriageReturn then none else some (before.length + 1)
      else if u = 0x2028 ∨ u = 0x2029 then some (before.length + 1)
      else none := by
  have hhere : (before ++ u :: rest)[before.length]? = some u := by simp
  have hnext : (before ++ u :: rest)[before.length + 1]? = rest.head? := by
    rw [List.getElem?_append_right (by omega), Nat.add_sub_cancel_left, List.getElem?_cons_succ,
      List.head?_eq_getElem?]
  have hlast : (0 < before.length ∧ (before ++ u :: rest)[before.length - 1]? = some carriageReturn)
      ↔ before.getLast? = some carriageReturn := by
    obtain rfl | ⟨init, last, rfl⟩ := List.eq_nil_or_concat' before
    · simp
    · simp
  simp only [breakEnd?, hhere, hnext, hlast, Option.some.injEq]

theorem breakEnd?_of_surrogate {u : Nat} (h : Utf16.isHigh u = true ∨ Utf16.isLow u = true) :
    breakEnd? (before ++ u :: rest) before.length = none := by
  have hu : 0xD800 ≤ u ∧ u < 0xE000 := by
    simp only [Utf16.isHigh, Utf16.isLow, Bool.and_eq_true, decide_eq_true_eq] at h
    omega
  rw [breakEnd?_append, carriageReturn, lineFeed, if_neg (by omega), if_neg (by omega),
    if_neg (by omega)]

/-- The ends of the breaks that begin in units which follow others. -/
def breaksFrom (before units : List Nat) : List Nat :=
  (List.range' before.length units.length).filterMap (breakEnd? (before ++ units))

theorem breakEnds_eq_breaksFrom (units : List Nat) : breakEnds units = breaksFrom [] units := by
  rw [breakEnds, breaksFrom, List.range_eq_range', List.length_nil, List.nil_append]

theorem breaksFrom_cons (before rest : List Nat) (u : Nat) :
    breaksFrom before (u :: rest) =
      (breakEnd? (before ++ u :: rest) before.length).toList ++
        breaksFrom (before ++ [u]) rest := by
  have happ : before ++ [u] ++ rest = before ++ u :: rest := by simp
  rw [breaksFrom, breaksFrom, happ, List.length_append, List.length_cons, List.range'_succ,
    List.filterMap_cons, List.length_singleton]
  cases breakEnd? (before ++ u :: rest) before.length <;> rfl

theorem breaksFrom_crlf (before rest : List Nat) :
    breaksFrom before (carriageReturn :: lineFeed :: rest) =
      (before.length + 2) :: breaksFrom (before ++ [carriageReturn, lineFeed]) rest := by
  have happ : before ++ [carriageReturn] ++ [lineFeed] = before ++ [carriageReturn, lineFeed] := by
    simp
  have hcr : breakEnd? (before ++ carriageReturn :: lineFeed :: rest) before.length =
      some (before.length + 2) := by simp [breakEnd?_append]
  have hlf : breakEnd? (before ++ [carriageReturn] ++ lineFeed :: rest)
      (before ++ [carriageReturn]).length = none := by
    rw [breakEnd?_append]
    simp [carriageReturn, lineFeed]
  rw [breaksFrom_cons, breaksFrom_cons, hcr, hlf, happ]
  rfl

theorem toNat_eq_carriageReturn : c.toNat = carriageReturn ↔ c = '\r' := @Char.toNat_inj c '\r'

theorem toNat_eq_lineFeed : c.toNat = lineFeed ↔ c = '\n' := @Char.toNat_inj c '\n'

theorem isBreak_iff : isBreak c = true ↔
    c = '\n' ∨ c = '\r' ∨ c.toNat = 0x2028 ∨ c.toNat = 0x2029 := by
  have hchar : ∀ d : Char, c = d ↔ c.toNat = d.toNat := fun d => Char.toNat_inj.symm
  simp only [isBreak, Bool.or_eq_true, decide_eq_true_eq, or_assoc, hchar]
  rfl

/-- A unit that is a character breaks a line if the character does so by itself, unless it is half
of a CR and LF. -/
theorem breakEnd?_of_char (hafter : c = '\r' → rest.head? ≠ some lineFeed)
    (hbefore : c = '\n' → before.getLast? ≠ some carriageReturn) :
    breakEnd? (before ++ c.toNat :: rest) before.length =
      if isBreak c then some (before.length + 1) else none := by
  simp only [breakEnd?_append, toNat_eq_carriageReturn, toNat_eq_lineFeed, isBreak_iff]
  by_cases hr : c = '\r'
  · rw [if_pos hr, if_neg (hafter hr), if_pos (.inr (.inl hr))]
  · by_cases hn : c = '\n'
    · rw [if_neg hr, if_pos hn, if_neg (hbefore hn), if_pos (.inl hn)]
    · simp only [hr, hn, if_false, false_or]

/-- A character that is not half of a CR and LF breaks a line if it does so by itself. -/
theorem breaksFrom_unitsOf (hafter : c = '\r' → rest.head? ≠ some lineFeed)
    (hbefore : c = '\n' → before.getLast? ≠ some carriageReturn) :
    breaksFrom before (Utf16.unitsOf c ++ rest) =
      (if isBreak c then [before.length + Utf16.size c] else []) ++
        breaksFrom (before ++ Utf16.unitsOf c) rest := by
  rw [← Utf16.length_unitsOf]
  obtain h | ⟨high, low, h, hhigh, hlow, -, hlarge⟩ := Utf16.unitsOf_cases c
  · rw [h, List.singleton_append, breaksFrom_cons, breakEnd?_of_char hafter hbefore]
    split <;> rfl
  · have hbreak : isBreak c = false := by
      rw [← Bool.not_eq_true, isBreak_iff, ← toNat_eq_lineFeed, ← toNat_eq_carriageReturn,
        lineFeed, carriageReturn]
      omega
    have happ : before ++ [high] ++ [low] = before ++ [high, low] := by simp
    rw [h, hbreak, List.cons_append, List.singleton_append, breaksFrom_cons, breaksFrom_cons,
      breakEnd?_of_surrogate (.inl hhigh), breakEnd?_of_surrogate (.inr hlow), happ]
    rfl

theorem head?_of_lineFeed (h : (cs.flatMap Utf16.unitsOf).head? = some lineFeed) :
    cs.head? = some '\n' := by
  cases cs with
  | nil => exact absurd h (by simp)
  | cons c cs =>
    rw [List.flatMap_cons, List.head?_append_of_ne_nil _ (Utf16.unitsOf_ne_nil c)] at h
    have hmem := Utf16.toNat_of_mem (List.mem_of_mem_head? h) (by decide)
    rw [List.head?_cons, toNat_eq_lineFeed.mp hmem]

theorem eq_of_getLast?_carriageReturn
    (h : (before ++ Utf16.unitsOf c).getLast? = some carriageReturn) : c = '\r' := by
  rw [List.getLast?_append_of_ne_nil _ (Utf16.unitsOf_ne_nil c)] at h
  exact toNat_eq_carriageReturn.mp (Utf16.toNat_of_mem (List.mem_of_getLast? h) (by decide))

/-- The pass adds where the breaks end in what is left of the text. It is never between a CR and
its LF. -/
theorem starts_scan (starts : Array Nat) (cs : List Char) (before : List Nat)
    (hcrlf : before.getLast? = some carriageReturn → cs.head? ≠ some '\n') :
    (scan starts before.length cs).starts.toList =
      starts.toList ++ breaksFrom before (cs.flatMap Utf16.unitsOf) := by
  generalize hoffset : before.length = offset
  fun_induction scan starts offset cs generalizing before with
  | case1 starts offset => simp [breaksFrom]
  | case2 starts offset cs ih =>
    have hlast : (before ++ [carriageReturn, lineFeed]).getLast? ≠ some carriageReturn := by
      simp [carriageReturn, lineFeed]
    subst hoffset
    rw [ih (before ++ [carriageReturn, lineFeed]) (absurd · hlast) (by simp), Array.toList_push,
      List.append_assoc]
    exact congrArg (starts.toList ++ ·) (breaksFrom_crlf before (cs.flatMap Utf16.unitsOf)).symm
  | case3 starts offset c cs hnot next ih =>
    subst hoffset
    have hnext : (before ++ Utf16.unitsOf c).length = next := by
      rw [List.length_append, Utf16.length_unitsOf]
    have hafter : c = '\r' → cs.head? ≠ some '\n' := by
      intro hc hhead
      obtain ⟨cs', rfl⟩ := List.head?_eq_some_iff.mp hhead
      exact hnot cs' hc rfl
    rw [ih (before ++ Utf16.unitsOf c) (fun h => hafter (eq_of_getLast?_carriageReturn h)) hnext,
      List.flatMap_cons, breaksFrom_unitsOf (fun h => fun hlf => hafter h (head?_of_lineFeed hlf))
        (fun h hlast => hcrlf hlast (by rw [h, List.head?_cons]))]
    rw [← List.append_assoc]
    congr 1
    split
    · exact Array.toList_push
    · exact (List.append_nil _).symm

theorem starts_ofText (text : String) :
    (ofText text).starts.toList = 0 :: breakEnds (Utf16.encode text) := by
  rw [breakEnds_eq_breaksFrom, Utf16.encode]
  exact starts_scan #[0] text.toList [] (by simp)

end Breaks

section Counting

/-- In a list that goes up, those up to a bound come first. -/
theorem filter_le_eq_take {l : List Nat} {n bound : Nat}
    (hle : ∀ i < n, ∀ x, l[i]? = some x → x ≤ bound)
    (hlt : ∀ i, n ≤ i → ∀ x, l[i]? = some x → bound < x) :
    l.filter (· ≤ bound) = l.take n := by
  conv_lhs => rw [← List.take_append_drop n l]
  rw [List.filter_append, List.filter_eq_self.mpr, List.filter_eq_nil_iff.mpr, List.append_nil]
  · intro x hx
    obtain ⟨i, hi⟩ := List.mem_iff_getElem?.mp hx
    rw [List.getElem?_drop] at hi
    simpa using hlt (n + i) (by omega) x hi
  · intro x hx
    obtain ⟨i, hi⟩ := List.mem_iff_getElem?.mp hx
    rw [List.getElem?_take] at hi
    split at hi
    · next h => simpa using hle i h x hi
    · exact absurd hi (by simp)

/-- Of the line starts but the first, as many are at or before an offset as its line has before it,
and the last of them is where that line starts. -/
theorem IsTable.filter_ends {ends : List Nat} (h : IsTable index)
    (hends : index.starts.toList = 0 :: ends) (hs : index.lineStart? line = some start)
    (hle : start ≤ offset)
    (hafter : ∀ after, index.lineStart? (line + 1) = some after → offset < after) :
    (ends.filter (· ≤ offset)).length = line ∧
      (ends.filter (· ≤ offset)).getLast?.getD 0 = start := by
  have hget : ∀ i, index.lineStart? i = (0 :: ends)[i]? := fun i => by
    rw [lineStart?, ← Array.getElem?_toList, hends]
  have htake : ends.filter (· ≤ offset) = ends.take line := by
    apply filter_le_eq_take
    · intro i hi x hx
      exact Nat.le_trans (h.start_le hi ((hget (i + 1)).trans hx) hs) hle
    · intro i hi x hx
      obtain ⟨after, ha⟩ : ∃ after, ends[line]? = some after :=
        ⟨_, List.getElem?_eq_getElem (Nat.lt_of_le_of_lt hi (List.getElem?_eq_some_iff.mp hx).1)⟩
      have hnext : index.lineStart? (line + 1) = some after := (hget (line + 1)).trans ha
      exact Nat.lt_of_lt_of_le (hafter after hnext)
        (h.start_le (Nat.succ_le_succ hi) hnext ((hget (i + 1)).trans hx))
  rw [hget] at hs
  rw [htake, List.getLast?_take, List.length_take]
  cases line with
  | zero => exact ⟨Nat.zero_min _, Option.some.inj hs⟩
  | succ k =>
    rw [List.getElem?_cons_succ] at hs
    have hk := (List.getElem?_eq_some_iff.mp hs).1
    exact ⟨Nat.min_eq_left hk, by simp [hs]⟩

/-- Counting puts an offset in the line that starts at or before it and ends after it. -/
theorem placeIn_eq (text : String) (hs : (ofText text).lineStart? line = some start)
    (hplace : start + character = min offset (ofText text).length)
    (hafter : ∀ after, (ofText text).lineStart? (line + 1) = some after →
      min offset (ofText text).length < after) :
    placeIn (Utf16.encode text) offset = ⟨line, character⟩ := by
  obtain ⟨hcount, hlast⟩ :=
    (isTable_ofText text).filter_ends (starts_ofText text) hs (by omega) hafter
  have hcharacter : min offset (ofText text).length - start = character := by omega
  rw [placeIn, Utf16.length_encode, ← length_ofText, hcount, hlast, hcharacter]

/-- Halving finds the place that counting gives. -/
theorem position_eq_placeIn (text : String) (offset : Nat) :
    (ofText text).position offset = placeIn (Utf16.encode text) offset := by
  obtain ⟨start, hs, hplace, hafter⟩ := (isTable_ofText text).position_spec offset
  exact (placeIn_eq text hs hplace hafter).symm

example : placeIn [0x61, 0x0D, 0x0A, 0xD83D, 0xDE00, 0x0A] 5 = ⟨1, 2⟩ := by decide

end Counting

/-- The lines of a text are those of its code units: they start at zero and after every break, and
an offset, or the end if it is past it, is where counting the breaks puts it. A character of a line
is found again from its offset. -/
theorem ofText_eq_breaks (text : String) :
    (ofText text).length = (Utf16.encode text).length ∧
      (ofText text).starts.toList = 0 :: breakEnds (Utf16.encode text) ∧
      (ofText text).starts.toList.Pairwise (· < ·) ∧
      (∀ start ∈ (ofText text).starts, start ≤ (ofText text).length) ∧
      (∀ offset, (ofText text).position offset = placeIn (Utf16.encode text) offset ∧
        ∃ start, (ofText text).lineStart? ((ofText text).position offset).line = some start ∧
          start + ((ofText text).position offset).character =
            min offset (ofText text).length) ∧
      ∀ line start character, (ofText text).lineStart? line = some start →
        start + character ≤ (ofText text).length →
        (∀ next, (ofText text).lineStart? (line + 1) = some next → start + character < next) →
        (ofText text).position (start + character) = ⟨line, character⟩ := by
  have h := isTable_ofText text
  refine ⟨?_, starts_ofText text, h.ascending, h.le_length, fun offset => ?_, ?_⟩
  · rw [length_ofText, Utf16.length_encode]
  · obtain ⟨start, hs, hplace, -⟩ := h.position_spec offset
    exact ⟨position_eq_placeIn text offset, start, hs, hplace⟩
  · intro line start character hs hle hnext
    have hmin := Nat.min_eq_left hle
    rw [position_eq_placeIn]
    exact placeIn_eq text hs hmin.symm (by rwa [hmin])

end LineIndex
end BufferCheck
