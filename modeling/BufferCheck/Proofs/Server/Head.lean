import BufferCheck.Proofs.Text.Utf8
import BufferCheck.Server.Frame
import Mathlib.Data.List.TakeWhile

/-! Heads of frames as a server may write them. Lines end in LF or CRLF, blank lines may come first,
other header lines stand around the one that counts, and that one has its name in any letter case
and any white space around name and number. Reading finds the number in all of them. -/
namespace BufferCheck

section Blank

variable {cs before core after : List Char}

theorem exists_eq_trimBlank (cs : List Char) : ∃ before after,
    cs = before ++ trimBlank cs ++ after ∧ (∀ c ∈ before, isBlank c = true) ∧
      ∀ c ∈ after, isBlank c = true := by
  refine ⟨cs.takeWhile isBlank, ((cs.dropWhile isBlank).reverse.takeWhile isBlank).reverse, ?_,
    fun c hc => List.mem_takeWhile_imp hc,
    fun c hc => List.mem_takeWhile_imp (List.mem_reverse.mp hc)⟩
  rw [trimBlank, List.append_assoc, ← List.reverse_append, List.takeWhile_append_dropWhile,
    List.reverse_reverse, List.takeWhile_append_dropWhile]

theorem trimBlank_append_of_blank (ha : ∀ c ∈ after, isBlank c = true) :
    trimBlank (cs ++ after) = trimBlank cs := by
  have hnil : after.dropWhile isBlank = [] := List.dropWhile_eq_nil_iff.mpr ha
  rw [trimBlank, trimBlank, List.dropWhile_append, hnil]
  split
  · next h => rw [List.isEmpty_iff.mp h]
  · rw [List.reverse_append, List.dropWhile_append_of_pos fun c hc => ha c (List.mem_reverse.mp hc)]

theorem trimBlank_eq (hb : ∀ c ∈ before, isBlank c = true)
    (hcore : ∀ c ∈ core, isBlank c = false) (ha : ∀ c ∈ after, isBlank c = true) :
    trimBlank (before ++ core ++ after) = core := by
  have hdrop : ∀ xs : List Char, (∀ c ∈ xs, isBlank c = false) → xs.dropWhile isBlank = xs := by
    intro xs hxs
    cases xs with
    | nil => rfl
    | cons x xs => rw [List.dropWhile_cons_of_neg (by simp [hxs x])]
  rw [trimBlank_append_of_blank ha, trimBlank, List.dropWhile_append_of_pos hb, hdrop core hcore,
    hdrop _ fun c h => hcore c (List.mem_reverse.mp h), List.reverse_reverse]

end Blank

namespace Server.Frame

/-- How a line ends. -/
inductive LineEnd where
  | lf | crlf
  deriving DecidableEq, Repr

/-- What stands before the line feed. -/
def LineEnd.mark : LineEnd → String
  | lf => ""
  | crlf => "\r"

/-- The bytes of a line. -/
def lineBytes (text : String) (e : LineEnd) : List UInt8 := Utf8.encode (text ++ e.mark) ++ [10]

section Lines

variable {text line : String} {bytes rest : List UInt8} {started : Bool} {length : Option Nat}

theorem cutLine_of_notMem (h : '\n' ∉ text.toList) (rest : List UInt8) :
    cutLine (Utf8.encode text ++ 10 :: rest) = (Utf8.encode text ++ [10], rest) := by
  have hne : ∀ b ∈ Utf8.encode text, decide (b ≠ 10) = true := by
    intro b hb
    rw [decide_eq_true_eq]
    rintro rfl
    exact h (Utf8.lineFeed_mem_encode.mp hb)
  simp only [cutLine]
  rw [List.dropWhile_append_of_pos hne, List.takeWhile_append_of_pos hne]
  simp

theorem cutLine_of_last (h : '\n' ∉ text.toList) :
    cutLine (Utf8.encode text) = (Utf8.encode text, []) := by
  have hnil : (Utf8.encode text).dropWhile (fun b : UInt8 => b ≠ 10) = [] := by
    rw [List.dropWhile_eq_nil_iff]
    intro b hb
    rw [decide_eq_true_eq]
    rintro rfl
    exact h (Utf8.lineFeed_mem_encode.mp hb)
  simp only [cutLine, hnil]

theorem trimLineEnd_append (cs ends : List Char) (he : ∀ c ∈ ends, c = '\r' ∨ c = '\n') :
    trimLineEnd (cs ++ ends) = trimLineEnd cs := by
  rw [trimLineEnd, trimLineEnd, List.reverse_append, List.dropWhile_append_of_pos]
  intro c hc
  simpa using he c (List.mem_reverse.mp hc)

theorem trimLineEnd_ne_nil {cs : List Char} (h : ∃ c ∈ cs, c ≠ '\r' ∧ c ≠ '\n') :
    trimLineEnd cs ≠ [] := by
  obtain ⟨c, hc, hne⟩ := h
  intro hnil
  rw [trimLineEnd, List.reverse_eq_nil_iff, List.dropWhile_eq_nil_iff] at hnil
  simpa [hne.1, hne.2] using hnil c (List.mem_reverse.mpr hc)

theorem exists_eq_trimLineEnd (cs : List Char) :
    ∃ ends, cs = trimLineEnd cs ++ ends ∧ ∀ c ∈ ends, c = '\r' ∨ c = '\n' := by
  refine ⟨(cs.reverse.takeWhile fun c => c = '\r' || c = '\n').reverse, ?_, fun c hc => ?_⟩
  · rw [trimLineEnd, ← List.reverse_append, List.takeWhile_append_dropWhile, List.reverse_reverse]
  · simpa using List.mem_takeWhile_imp (List.mem_reverse.mp hc)

/-- What is left of a line decides what the head goes on with. -/
theorem head_of_cutLine (hb : bytes ≠ []) (hc : cutLine bytes = (Utf8.encode line, rest)) :
    head started length bytes
      = if trimLineEnd line.toList ≠ [] then
          head true ((announced? (trimLineEnd line.toList)).getD length) rest
        else if started then .ok (some (length, rest)) else head false length rest := by
  rw [head, dif_neg hb]
  simp only [hc, Utf8.decode?_encode]

theorem head_line (e : LineEnd) (h : '\n' ∉ text.toList) (rest : List UInt8) :
    head started length (lineBytes text e ++ rest)
      = if trimLineEnd text.toList ≠ [] then
          head true ((announced? (trimLineEnd text.toList)).getD length) rest
        else if started then .ok (some (length, rest)) else head false length rest := by
  have hmark : '\n' ∉ (text ++ e.mark).toList := by
    rw [String.toList_append, List.mem_append]
    cases e <;> simpa [LineEnd.mark] using h
  have hcut : cutLine (lineBytes text e ++ rest)
      = (Utf8.encode (text ++ e.mark ++ "\n"), rest) := by
    rw [lineBytes, List.append_assoc, Utf8.encode_append _ "\n"]
    exact cutLine_of_notMem hmark rest
  have htrim : trimLineEnd (text ++ e.mark ++ "\n").toList = trimLineEnd text.toList := by
    rw [String.toList_append, String.toList_append, List.append_assoc, trimLineEnd_append]
    cases e <;> simp [LineEnd.mark]
  rw [head_of_cutLine (by simp [lineBytes]) hcut, htrim]

end Lines

/-- A line has the name of the header that counts. -/
def NamesLength (line : List Char) : Prop :=
  ∃ before name after value, line = before ++ name ++ after ++ ':' :: value ∧
    (∀ c ∈ before ++ after, isBlank c = true) ∧ name.map lowerChar = lengthHeader.toList

section Announced

variable {line ends : List Char} {size : Nat}

theorem announced?_of_colon {name value : List Char} (h : ':' ∉ name) :
    announced? (name ++ ':' :: value)
      = if String.ofList ((trimBlank name).map lowerChar) = lengthHeader
        then some (size? (trimBlank value)) else none := by
  have hne : ∀ c ∈ name, decide (c ≠ ':') = true := by
    intro c hc
    rw [decide_eq_true_eq]
    rintro rfl
    exact h hc
  rw [announced?, List.dropWhile_append_of_pos hne, List.takeWhile_append_of_pos hne]
  simp

theorem announced?_of_notMem (h : ':' ∉ line) : announced? line = none := by
  have hnil : line.dropWhile (fun c => c ≠ ':') = [] := by
    rw [List.dropWhile_eq_nil_iff]
    intro c hc
    rw [decide_eq_true_eq]
    rintro rfl
    exact h hc
  rw [announced?, hnil]

/-- The end of a line does not count. -/
theorem announced?_append (he : ∀ c ∈ ends, c = '\r' ∨ c = '\n') :
    announced? (line ++ ends) = announced? line := by
  by_cases hcolon : ':' ∈ line
  · obtain ⟨name, value, rfl, hname⟩ := List.eq_append_cons_of_mem hcolon
    have hblank : ∀ c ∈ ends, isBlank c = true := by
      intro c hc
      rcases he c hc with rfl | rfl <;> decide
    rw [List.append_assoc, List.cons_append, announced?_of_colon hname, announced?_of_colon hname,
      trimBlank_append_of_blank hblank]
  · rw [announced?_of_notMem hcolon, announced?_of_notMem]
    intro hmem
    rcases List.mem_append.mp hmem with hmem | hmem
    · exact hcolon hmem
    · simpa using he _ hmem

theorem announced?_trimLineEnd (line : List Char) :
    announced? (trimLineEnd line) = announced? line := by
  obtain ⟨ends, hline, he⟩ := exists_eq_trimLineEnd line
  conv => rhs; rw [hline]
  exact (announced?_append he).symm

theorem isBlank_of_mem_name {name : List Char} (h : name.map lowerChar = lengthHeader.toList)
    {c : Char} (hc : c ∈ name) : isBlank c = false ∧ c ≠ ':' ∧ c ≠ '\n' := by
  have hmem : lowerChar c ∈ lengthHeader.toList := h ▸ List.mem_map_of_mem hc
  by_cases hupper : 'A' ≤ c ∧ c ≤ 'Z'
  · have hlow : 65 ≤ c.toNat := hupper.1
    have hhigh : c.toNat ≤ 90 := hupper.2
    refine ⟨by simp [isBlank]; omega, ?_, ?_⟩ <;> rintro rfl <;> exact absurd hlow (by decide)
  · have hall : ∀ d ∈ lengthHeader.toList, isBlank d = false ∧ d ≠ ':' ∧ d ≠ '\n' := by
      simp [lengthHeader, isBlank]
    rw [lowerChar, if_neg hupper] at hmem
    exact hall c hmem

theorem announced?_of_name {before name after value : List Char}
    (hn : name.map lowerChar = lengthHeader.toList) (hbefore : ∀ c ∈ before, isBlank c = true)
    (hafter : ∀ c ∈ after, isBlank c = true) :
    announced? (before ++ name ++ after ++ ':' :: value) = some (size? (trimBlank value)) := by
  have hcolon : ':' ∉ before ++ name ++ after := by
    simp only [List.mem_append, not_or]
    refine ⟨⟨fun h => ?_, fun h => (isBlank_of_mem_name hn h).2.1 rfl⟩, fun h => ?_⟩
    · exact absurd (hbefore _ h) (by decide)
    · exact absurd (hafter _ h) (by decide)
  have hname : trimBlank (before ++ name ++ after) = name :=
    trimBlank_eq hbefore (fun c hc => (isBlank_of_mem_name hn hc).1) hafter
  rw [announced?_of_colon hcolon, hname, hn, String.ofList_toList, if_pos rfl]

/-- A line says something exactly if it has the name. -/
theorem announced?_isSome_iff : (announced? line).isSome = true ↔ NamesLength line := by
  constructor
  · intro h
    by_cases hcolon : ':' ∈ line
    · obtain ⟨name, value, rfl, hname⟩ := List.eq_append_cons_of_mem hcolon
      rw [announced?_of_colon hname] at h
      split at h
      · next hlength =>
        obtain ⟨before, after, hsplit, hbefore, hafter⟩ := exists_eq_trimBlank name
        refine ⟨before, trimBlank name, after, value, by rw [← hsplit], ?_, ?_⟩
        · exact List.forall_mem_append.mpr ⟨hbefore, hafter⟩
        · rw [← hlength, String.toList_ofList]
      · simp at h
    · simp [announced?_of_notMem hcolon] at h
  · rintro ⟨before, name, after, value, rfl, hb, hn⟩
    obtain ⟨hbefore, hafter⟩ := List.forall_mem_append.mp hb
    rw [announced?_of_name hn hbefore hafter]
    rfl

instance : DecidablePred NamesLength := fun _ => decidable_of_iff _ announced?_isSome_iff

theorem announced?_of_not_namesLength (h : ¬ NamesLength line) : announced? line = none := by
  rwa [← announced?_isSome_iff, Option.not_isSome_iff_eq_none] at h

theorem isBlank_of_isDigit {c : Char} (h : Decimal.isDigit c = true) : isBlank c = false := by
  simp only [Decimal.isDigit, Bool.and_eq_true, decide_eq_true_eq] at h
  have hlow : 48 ≤ c.toNat := h.1
  have hhigh : c.toNat ≤ 57 := h.2
  simp [isBlank]
  omega

theorem size?_digits (h : size < UInt64.size) : size? (Decimal.digits size) = some size := by
  have hall : (Decimal.digits size).all Decimal.isDigit = true :=
    List.all_eq_true.mpr fun c hc => Decimal.isDigit_of_mem_digits hc
  have hvalue : Decimal.valueBelow? UInt64.size 0 (Decimal.digits size) = some size := by
    rw [Decimal.valueBelow?_eq (Nat.zero_lt_of_lt h), Decimal.value_digits, if_pos h]
  have hplus : ∀ r, Decimal.digits size ≠ '+' :: r := by
    intro r hr
    rw [hr] at hall
    simp [show Decimal.isDigit '+' = false by decide] at hall
  simp only [size?]
  rw [if_pos ⟨Decimal.digits_ne_nil size, hall⟩, hvalue]

/-- The number is found, whatever white space stands around name and number. -/
theorem announced?_length {before name after beforeSize afterSize : List Char}
    (hs : size < UInt64.size) (hn : name.map lowerChar = lengthHeader.toList)
    (hb : ∀ c ∈ before ++ after ++ beforeSize ++ afterSize, isBlank c = true) :
    announced? (before ++ name ++ after ++ ':' :: (beforeSize ++ Decimal.digits size ++ afterSize))
      = some (some size) := by
  simp only [List.forall_mem_append] at hb
  obtain ⟨⟨⟨hbefore, hafter⟩, hbeforeSize⟩, hafterSize⟩ := hb
  have hsize : trimBlank (beforeSize ++ Decimal.digits size ++ afterSize) = Decimal.digits size :=
    trimBlank_eq hbeforeSize (fun c hc => isBlank_of_isDigit (Decimal.isDigit_of_mem_digits hc))
      hafterSize
  rw [announced?_of_name hn hbefore hafter, hsize, size?_digits hs]

end Announced

/-- A header line that does not count. It is not empty without the CRs at its end. -/
structure OtherLine where
  text : String
  lineEnd : LineEnd
  oneLine : '\n' ∉ text.toList
  visible : ∃ c ∈ text.toList, c ≠ '\r'
  other : ¬ NamesLength text.toList

def OtherLine.bytes (l : OtherLine) : List UInt8 := lineBytes l.text l.lineEnd

/-- The header line that counts, without its number. -/
structure LengthLine where
  name : List Char
  beforeName : List Char
  afterName : List Char
  beforeSize : List Char
  afterSize : List Char
  lineEnd : LineEnd
  anyCase : name.map lowerChar = lengthHeader.toList
  blank : ∀ c ∈ beforeName ++ afterName ++ beforeSize ++ afterSize, isBlank c = true ∧ c ≠ '\n'

def LengthLine.text (l : LengthLine) (size : Nat) : String :=
  .ofList (l.beforeName ++ l.name ++ l.afterName
    ++ ':' :: (l.beforeSize ++ Decimal.digits size ++ l.afterSize))

def LengthLine.bytes (l : LengthLine) (size : Nat) : List UInt8 :=
  lineBytes (l.text size) l.lineEnd

/-- A head, without its number. -/
structure Head where
  /-- Blank lines before the head. -/
  blanks : List LineEnd
  before : List OtherLine
  length : LengthLine
  after : List OtherLine
  /-- How the blank line ends that ends the head. -/
  lineEnd : LineEnd

def Head.bytes (h : Head) (size : Nat) : List UInt8 :=
  h.blanks.flatMap (lineBytes "") ++ h.before.flatMap OtherLine.bytes ++ h.length.bytes size
    ++ h.after.flatMap OtherLine.bytes ++ lineBytes "" h.lineEnd

section Reading

variable {started : Bool} {length : Option Nat} {size : Nat}

theorem head_blank (e : LineEnd) (rest : List UInt8) :
    head started length (lineBytes "" e ++ rest)
      = if started then .ok (some (length, rest)) else head false length rest := by
  rw [head_line e (by simp)]
  rfl

theorem head_blanks (es : List LineEnd) (rest : List UInt8) :
    head false length (es.flatMap (lineBytes "") ++ rest) = head false length rest := by
  induction es with
  | nil => rfl
  | cons e es ih =>
    rw [List.flatMap_cons, List.append_assoc, head_blank]
    exact ih

theorem head_otherLine (l : OtherLine) (rest : List UInt8) :
    head started length (l.bytes ++ rest) = head true length rest := by
  have hne : trimLineEnd l.text.toList ≠ [] := by
    obtain ⟨c, hc, hcr⟩ := l.visible
    exact trimLineEnd_ne_nil ⟨c, hc, hcr, fun h => l.oneLine (h ▸ hc)⟩
  rw [OtherLine.bytes, head_line l.lineEnd l.oneLine, if_pos hne, announced?_trimLineEnd,
    announced?_of_not_namesLength l.other]
  rfl

theorem head_otherLines (ls : List OtherLine) (rest : List UInt8) :
    head started length (ls.flatMap OtherLine.bytes ++ rest)
      = head (started || !ls.isEmpty) length rest := by
  induction ls generalizing started with
  | nil => simp
  | cons l ls ih =>
    rw [List.flatMap_cons, List.append_assoc, head_otherLine, ih]
    simp

theorem LengthLine.oneLine (l : LengthLine) (size : Nat) : '\n' ∉ (l.text size).toList := by
  have hblank := l.blank
  simp only [List.forall_mem_append] at hblank
  obtain ⟨⟨⟨hbefore, hafter⟩, hbeforeSize⟩, hafterSize⟩ := hblank
  rw [text, String.toList_ofList]
  simp only [List.mem_append, List.mem_cons, not_or]
  refine ⟨⟨⟨fun h => (hbefore _ h).2 rfl, fun h => (isBlank_of_mem_name l.anyCase h).2.2 rfl⟩,
    fun h => (hafter _ h).2 rfl⟩, by decide, ⟨fun h => (hbeforeSize _ h).2 rfl, fun h => ?_⟩,
    fun h => (hafterSize _ h).2 rfl⟩
  exact absurd (Decimal.isDigit_of_mem_digits h) (by decide)

theorem head_lengthLine (l : LengthLine) (hs : size < UInt64.size) (rest : List UInt8) :
    head started length (l.bytes size ++ rest) = head true (some size) rest := by
  have hne : trimLineEnd (l.text size).toList ≠ [] :=
    trimLineEnd_ne_nil ⟨':', by simp [LengthLine.text], by decide⟩
  have hsize : announced? (l.text size).toList = some (some size) := by
    rw [LengthLine.text, String.toList_ofList]
    exact announced?_length hs l.anyCase fun c hc => (l.blank c hc).1
  rw [LengthLine.bytes, head_line l.lineEnd (l.oneLine size), if_pos hne, announced?_trimLineEnd,
    hsize]
  rfl

/-- Reading a head finds its number. -/
theorem head_bytes (h : Head) (hs : size < UInt64.size) (rest : List UInt8) :
    head false none (h.bytes size ++ rest) = .ok (some (some size, rest)) := by
  simp only [Head.bytes, List.append_assoc]
  rw [head_blanks, head_otherLines, head_lengthLine h.length hs, head_otherLines, Bool.true_or,
    head_blank, if_pos rfl]

end Reading

end Server.Frame
end BufferCheck
