import BufferCheck.Json.Printer
import BufferCheck.Json.Reader
import BufferCheck.Proofs.Fields
import BufferCheck.Proofs.Text.Utf8

/-! The compact text of a value is read back as the value, if its numbers are integers and it does
not nest too deep. -/
namespace BufferCheck

namespace Json

/-- Numbers are integers, members are in the order of their names, and arrays and objects nest at
most as deep as given. -/
inductive Plain : Nat → Json → Prop
  | null (n : Nat) : Plain n .null
  | bool (n : Nat) (b : Bool) : Plain n (.bool b)
  | integer (n : Nat) (i : Integer) : Plain n (.number (.integer i))
  | string (n : Nat) (s : String) : Plain n (.string s)
  | array {n : Nat} {items : List Json} (h : ∀ v ∈ items, Plain n v) : Plain (n + 1) (.array items)
  | object {n : Nat} {fields : Fields Json} (ho : fields.Ordered) (h : ∀ p ∈ fields, Plain n p.2) :
    Plain (n + 1) (.object fields)

theorem Plain.ofNat {n : Nat} (levels : Nat) (h : n < UInt64.size) : Plain levels (.ofNat n) := by
  rw [Json.ofNat, dif_pos h]
  exact .integer _ _

theorem plain_array_iff {n : Nat} {items : List Json} :
    Plain (n + 1) (.array items) ↔ ∀ v ∈ items, Plain n v := by
  constructor
  · rintro ⟨⟩
    assumption
  · exact .array

namespace Numeral
open Decimal

/-- What follows a numeral: nothing that would go on with it. -/
def Ended (rest : List Char) : Prop :=
  ∀ c r, rest = c :: r → isDigit c = false ∧ c ≠ '.' ∧ c ≠ 'e' ∧ c ≠ 'E'

variable {rest : List Char} {n : Nat}

theorem takeDigits?_digits (h : Ended rest) :
    takeDigits? (digits n ++ rest) = some (digits n, rest) := by
  have hall : ∀ c ∈ digits n, isDigit c = true := fun c => isDigit_of_mem_digits
  have htake : rest.takeWhile isDigit = [] := by
    cases rest with
    | nil => rfl
    | cons c r => simp [(h c r rfl).1]
  have hdrop : rest.dropWhile isDigit = rest := by
    cases rest with
    | nil => rfl
    | cons c r => simp [(h c r rfl).1]
  rw [takeDigits?, List.takeWhile_append_of_pos hall, List.dropWhile_append_of_pos hall, htake,
    hdrop, List.append_nil]
  split
  · next hd => exact absurd hd (digits_ne_nil n)
  · rfl

theorem takeWhole?_digits (h : Ended rest) :
    takeWhole? (digits n ++ rest) = some (digits n, rest) := by
  rw [takeWhole?, takeDigits?_digits h]
  split
  · next hd =>
    simp only [Option.some.injEq, Prod.mk.injEq] at hd
    simpa using digits_zero_cons hd.1
  · rfl

theorem takeFraction?_of_ended (h : Ended rest) : takeFraction? rest = some ([], rest) := by
  unfold takeFraction?
  split
  · next cs => exact absurd rfl (h '.' cs rfl).2.1
  · rfl

theorem takeExponent?_of_ended (h : Ended rest) : takeExponent? rest = some (none, rest) := by
  cases rest with
  | nil => rfl
  | cons c r => simp [takeExponent?, (h c r rfl).2.2.1, (h c r rfl).2.2.2]

/-- The digits of a number are read as they stand. -/
theorem read?_digits (h : Ended rest) :
    read? (digits n ++ rest) = some (⟨false, digits n, [], none⟩, rest) := by
  unfold read?
  split
  next negative cs hm =>
  split at hm
  · next r hr =>
    obtain ⟨d, ds, hd⟩ := List.exists_cons_of_ne_nil (digits_ne_nil n)
    have hdig : isDigit d = true := isDigit_of_mem_digits (n := n) (by simp [hd])
    rw [hd] at hr
    obtain rfl : d = '-' := (List.cons.inj hr).1
    exact absurd hdig (by decide)
  · obtain ⟨rfl, rfl⟩ := Prod.mk.inj hm
    simp [takeWhole?_digits h, takeFraction?_of_ended h, takeExponent?_of_ended h]

theorem read?_minus_digits (h : Ended rest) :
    read? ('-' :: (digits n ++ rest)) = some (⟨true, digits n, [], none⟩, rest) := by
  simp [read?, takeWhole?_digits h, takeFraction?_of_ended h, takeExponent?_of_ended h]

theorem ofInt?_value (i : Integer) : Number.ofInt? i.value = some (.integer i) := by
  simp [Number.ofInt?, i.low, i.high]

theorem value?_of_digits {negative : Bool} {i : Integer}
    (hi : i.value = if negative then -(n : Int) else n) (hn : negative = true → n ≠ 0) :
    value? ⟨negative, digits n, [], none⟩ = some (.integer i) := by
  have hlt : n < UInt64.size := by
    have hlow := i.low
    have hhigh := i.high
    simp only [UInt64.size]
    split at hi <;> omega
  rw [value?]
  simp only [valueBelow?_eq (Nat.zero_lt_of_lt hlt), value_digits, if_pos hlt]
  rw [if_neg (fun h => hn h.1 h.2), ← hi, ofInt?_value]

/-- An integer is read back from its text. -/
theorem read?_signed (i : Integer) (h : Ended rest) :
    ∃ m, read? (signed i.value ++ rest) = some (m, rest) ∧ m.value? = some (.integer i) := by
  rw [signed]
  split
  · next hneg =>
    exact ⟨_, read?_minus_digits h, value?_of_digits (by rw [if_pos rfl]; omega) (by omega)⟩
  · next hpos =>
    exact ⟨_, read?_digits h, value?_of_digits (by rw [if_neg Bool.false_ne_true]; omega) (by simp)⟩

end Numeral

namespace Reader

variable {rest : List Char}

theorem hexValue?_hexDigit {n : Nat} (h : n < 16) : hexValue? (hexDigit n) = some n := by
  have hall : ∀ m < 16, hexValue? (hexDigit m) = some m := by decide
  exact hall n h

theorem string?_unit (done : List Char) {c : Char} (h : c.toNat < 0x20) :
    string? (.unit none 4 0) done
        ('0' :: '0' :: hexDigit (c.toNat / 16) :: hexDigit (c.toNat % 16) :: rest)
      = string? .plain (c :: done) rest := by
  have hhigh := hexValue?_hexDigit (show c.toNat / 16 < 16 by omega)
  have hlow := hexValue?_hexDigit (show c.toNat % 16 < 16 by omega)
  have hzero : hexValue? '0' = some 0 := by decide
  have hc : 16 * (c.toNat / 16) + c.toNat % 16 = c.toNat := by omega
  have hh : Utf16.isHigh c.toNat = false := by simp [Utf16.isHigh]; omega
  have hl : Utf16.isLow c.toNat = false := by simp [Utf16.isLow]; omega
  simp [string?, StringState.step, hzero, hhigh, hlow, hc, hh, hl, Char.ofNat_toNat]

/-- An escaped character is read back. -/
theorem string?_escapeChar (done : List Char) (c : Char) :
    string? .plain done (escapeChar c ++ rest) = string? .plain (c :: done) rest := by
  unfold escapeChar
  split
  · rfl
  · rfl
  · rfl
  · rfl
  · rfl
  · rfl
  · rfl
  · next hquote hback _ _ _ _ _ =>
    split
    · next hc => exact string?_unit done hc
    · next hc =>
      rw [List.singleton_append, string?]
      · simp [StringState.step, show c ≠ '\\' from hback, hc]
      · exact fun _ => hquote

theorem string?_flatMap_escapeChar (done cs : List Char) :
    string? .plain done (cs.flatMap escapeChar ++ '"' :: rest)
      = some (.ofList (done.reverse ++ cs), rest) := by
  induction cs generalizing done with
  | nil => simp [string?]
  | cons c cs ih =>
    rw [List.flatMap_cons, List.append_assoc, string?_escapeChar, ih, List.reverse_cons,
      List.append_assoc, List.singleton_append]

/-- A text is read back from between its quotes. -/
theorem stringBody?_quoted (s : String) (rest : List Char) :
    stringBody? (s.toList.flatMap escapeChar ++ '"' :: rest) = some (s, rest) := by
  rw [stringBody?, string?_flatMap_escapeChar, List.reverse_nil, List.nil_append,
    String.ofList_toList]

/-- A value is read back from its text, whatever follows, as long as that would not go on with a
number. -/
def Reads (levels : Nat) (v : Json) : Prop :=
  ∀ fuel rest, v.chars.length ≤ fuel → Numeral.Ended rest →
    value? fuel levels (v.chars ++ rest) = some (v, rest)

theorem skipSpace_cons {c : Char} (h : isSpace c = false) (cs : List Char) :
    skipSpace (c :: cs) = c :: cs := by
  simp [skipSpace, h]

/-- Nothing that stands between or behind values goes on with a number. -/
theorem ended_mark {c : Char} (h : c = ',' ∨ c = ']' ∨ c = '}') (rest : List Char) :
    Numeral.Ended (c :: rest) := by
  rintro d r hd
  obtain ⟨rfl, -⟩ := List.cons.inj hd
  rcases h with rfl | rfl | rfl <;> decide

section Compound

variable {levels fuel : Nat} {v : Json} {more : List Char}

/-- An item is read, and those after it. -/
theorem items?_comma {done : List Json} (hv : Reads levels v) (hf : v.chars.length ≤ fuel)
    (more : List Char) :
    items? (fuel + 1) levels done (v.chars ++ ',' :: more)
      = items? fuel levels (v :: done) more := by
  have hread := hv fuel _ hf (ended_mark (.inl rfl) more)
  have hcomma : isSpace ',' = false := by decide
  simp only [items?, hread, skipSpace_cons hcomma]

/-- The last item is read. -/
theorem items?_close {done : List Json} (hv : Reads levels v) (hf : v.chars.length ≤ fuel)
    (more : List Char) :
    items? (fuel + 1) levels done (v.chars ++ ']' :: more)
      = some (.array (v :: done).reverse, more) := by
  have hread := hv fuel _ hf (ended_mark (.inr (.inl rfl)) more)
  have hclose : isSpace ']' = false := by decide
  simp only [items?, hread, skipSpace_cons hclose]

/-- A member is read, and those after it. -/
theorem members?_comma {done : Fields Json} {name : String} (hv : Reads levels v)
    (hf : v.chars.length ≤ fuel) (more : List Char) :
    members? (fuel + 1) levels done (quoted name ++ ':' :: (v.chars ++ ',' :: more))
      = members? fuel levels (done.insert name v) more := by
  have hread := hv fuel _ hf (ended_mark (.inl rfl) more)
  have hquote : isSpace '"' = false := by decide
  have hcolon : isSpace ':' = false := by decide
  have hcomma : isSpace ',' = false := by decide
  simp only [quoted, List.cons_append, List.append_assoc, List.nil_append, members?,
    skipSpace_cons hquote, stringBody?_quoted, skipSpace_cons hcolon, hread, skipSpace_cons hcomma]

/-- The last member is read. -/
theorem members?_close {done : Fields Json} {name : String} (hv : Reads levels v)
    (hf : v.chars.length ≤ fuel) (more : List Char) :
    members? (fuel + 1) levels done (quoted name ++ ':' :: (v.chars ++ '}' :: more))
      = some (.object (done.insert name v), more) := by
  have hread := hv fuel _ hf (ended_mark (.inr (.inr rfl)) more)
  have hquote : isSpace '"' = false := by decide
  have hcolon : isSpace ':' = false := by decide
  have hclose : isSpace '}' = false := by decide
  simp only [quoted, List.cons_append, List.append_assoc, List.nil_append, members?,
    skipSpace_cons hquote, stringBody?_quoted, skipSpace_cons hcolon, hread, skipSpace_cons hclose]

theorem items?_chars {vs done : List Json} (hr : ∀ w ∈ v :: vs, Reads levels w)
    (hf : (v.chars ++ moreItems vs).length ≤ fuel) :
    items? fuel levels done (v.chars ++ (moreItems vs ++ rest))
      = some (.array (done.reverse ++ v :: vs), rest) := by
  induction vs generalizing v done fuel with
  | nil =>
    cases fuel with
    | zero => simp [moreItems] at hf
    | succ fuel =>
      have hf : v.chars.length ≤ fuel := by simpa [moreItems] using hf
      have hclose := @items?_close _ _ _ done (hr v List.mem_cons_self) hf rest
      simpa [moreItems] using hclose
  | cons w vs ih =>
    cases fuel with
    | zero => simp [moreItems] at hf
    | succ fuel =>
      obtain ⟨hv, hr⟩ := List.forall_mem_cons.mp hr
      simp only [moreItems, List.length_append, List.length_cons] at hf
      have hrest : items? fuel levels (v :: done) (w.chars ++ (moreItems vs ++ rest)) = _ :=
        ih hr (by rw [List.length_append]; omega)
      simp only [moreItems, List.cons_append, List.append_assoc]
      rw [items?_comma hv (by omega), hrest, List.reverse_cons, List.append_assoc,
        List.singleton_append]

theorem insert_of_lt {done : Fields Json} {name : String} (h : ∀ p ∈ done, p.1 < name) :
    done.insert name v = done ++ [(name, v)] := by
  induction done with
  | nil => rfl
  | cons p done ih =>
    obtain ⟨hp, hdone⟩ := List.forall_mem_cons.mp h
    rw [Fields.insert, if_neg hp.ne, if_neg hp.not_gt, ih hdone, List.cons_append]

theorem insert_of_ordered {done fields : Fields Json} {name : String}
    (h : Fields.Ordered (done ++ (name, v) :: fields)) :
    done.insert name v = done ++ [(name, v)] :=
  insert_of_lt fun p hp => (List.pairwise_append.mp h).2.2 p hp _ List.mem_cons_self

theorem members?_chars {name : String} {fields done : Fields Json}
    (hr : ∀ p ∈ (name, v) :: fields, Reads levels p.2)
    (ho : Fields.Ordered (done ++ (name, v) :: fields))
    (hf : (quoted name ++ ':' :: (v.chars ++ moreMembers fields)).length ≤ fuel) :
    members? fuel levels done (quoted name ++ ':' :: (v.chars ++ (moreMembers fields ++ rest)))
      = some (.object (done ++ (name, v) :: fields), rest) := by
  induction fields generalizing name v done fuel with
  | nil =>
    cases fuel with
    | zero => simp [quoted] at hf
    | succ fuel =>
      simp only [moreMembers, List.length_append, List.length_cons] at hf
      have hv : Reads levels v := hr (name, v) List.mem_cons_self
      rw [moreMembers, List.singleton_append, members?_close hv (by omega), insert_of_ordered ho]
  | cons p fields ih =>
    cases fuel with
    | zero => simp [quoted] at hf
    | succ fuel =>
      obtain ⟨other, w⟩ := p
      have hv : Reads levels v := hr (name, v) List.mem_cons_self
      have hr := fun p hp => hr p (List.mem_cons_of_mem (name, v) hp)
      simp only [moreMembers, List.length_append, List.length_cons] at hf
      have hrest : members? fuel levels (done ++ [(name, v)])
          (quoted other ++ ':' :: (w.chars ++ (moreMembers fields ++ rest))) = _ :=
        ih hr (by simpa using ho) (by simp only [List.length_append, List.length_cons]; omega)
      simp only [moreMembers, List.cons_append, List.append_assoc]
      rw [members?_comma hv (by omega), insert_of_ordered ho, hrest, List.append_assoc,
        List.singleton_append]

end Compound

/-- A character that a number starts with. -/
def StartsNumber (c : Char) : Prop := c = '-' ∨ Decimal.isDigit c = true

instance (c : Char) : Decidable (StartsNumber c) := inferInstanceAs (Decidable (_ ∨ _))

theorem exists_signed_eq_cons (n : Int) : ∃ c cs, Decimal.signed n = c :: cs ∧ StartsNumber c := by
  rw [Decimal.signed]
  split
  · exact ⟨_, _, rfl, Or.inl rfl⟩
  · obtain ⟨c, cs, hc⟩ := List.exists_cons_of_ne_nil (Decimal.digits_ne_nil n.natAbs)
    have hmem : c ∈ Decimal.digits n.natAbs := hc ▸ List.mem_cons_self
    exact ⟨c, cs, hc, Or.inr (Decimal.isDigit_of_mem_digits hmem)⟩

theorem isSpace_of_startsNumber {c : Char} (h : StartsNumber c) : isSpace c = false := by
  simp only [isSpace, Bool.or_eq_false_iff, decide_eq_false_iff_not]
  refine ⟨⟨⟨?_, ?_⟩, ?_⟩, ?_⟩ <;> rintro rfl <;> exact absurd h (by decide)

/-- A number starts with none of the characters that tell other values. -/
theorem value?_of_startsNumber {levels fuel : Nat} {c : Char} {cs : List Char}
    (h : StartsNumber c) :
    value? (fuel + 1) levels (c :: cs) = match Numeral.read? (c :: cs) with
      | none => none
      | some (n, r) => n.value?.map fun v => (.number v, r) := by
  rw [value?, skipSpace_cons (isSpace_of_startsNumber h)]
  split
  case h_7 => rfl
  all_goals
    next heq =>
      obtain ⟨rfl, -⟩ := List.cons.inj heq
      exact absurd h (by decide)

theorem chars_start {levels : Nat} {v : Json} (h : Plain levels v) :
    ∃ c cs, v.chars = c :: cs ∧ isSpace c = false ∧ c ≠ ']' := by
  cases h with
  | null => exact ⟨_, _, rfl, by decide⟩
  | bool n b => cases b <;> exact ⟨_, _, rfl, by decide⟩
  | integer n i =>
    obtain ⟨c, cs, hc, hs⟩ := exists_signed_eq_cons i.value
    exact ⟨c, cs, hc, isSpace_of_startsNumber hs, by rintro rfl; exact absurd hs (by decide)⟩
  | string => exact ⟨_, _, rfl, by decide⟩
  | @array n items _ => cases items <;> exact ⟨_, _, rfl, by decide⟩
  | @object n fields _ _ => cases fields <;> exact ⟨_, _, rfl, by decide⟩

section Values

variable {levels : Nat}

theorem reads_of_succ {v : Json} (hc : v.chars ≠ [])
    (h : ∀ fuel rest, v.chars.length ≤ fuel + 1 → Numeral.Ended rest →
      value? (fuel + 1) levels (v.chars ++ rest) = some (v, rest)) : Reads levels v := by
  intro fuel rest hf he
  cases fuel with
  | zero => exact absurd (List.eq_nil_of_length_eq_zero (Nat.le_zero.mp hf)) hc
  | succ fuel => exact h fuel rest hf he

theorem reads_null (levels : Nat) : Reads levels .null := by
  refine reads_of_succ (by simp [chars]) fun fuel rest _ _ => ?_
  simp [chars, value?, skipSpace_cons, isSpace]

theorem reads_bool (levels : Nat) (b : Bool) : Reads levels (.bool b) := by
  cases b <;> refine reads_of_succ (by simp [chars]) fun fuel rest _ _ => ?_ <;>
    simp [chars, value?, skipSpace_cons, isSpace]

theorem reads_integer (levels : Nat) (i : Integer) : Reads levels (.number (.integer i)) := by
  obtain ⟨c, cs, hc, hs⟩ := exists_signed_eq_cons i.value
  have hchars : chars (.number (.integer i)) = Decimal.signed i.value := by
    rw [chars, Number.chars]
  refine reads_of_succ (by simp [hchars, hc]) fun fuel rest _ he => ?_
  obtain ⟨n, hn, hv⟩ := Numeral.read?_signed i he
  rw [hc, List.cons_append] at hn
  rw [hchars, hc, List.cons_append, value?_of_startsNumber hs, hn]
  simp [hv]

theorem reads_string (levels : Nat) (s : String) : Reads levels (.string s) := by
  refine reads_of_succ (by simp [chars, quoted]) fun fuel rest _ _ => ?_
  simp [chars, quoted, value?, skipSpace_cons, isSpace, stringBody?_quoted]

theorem reads_array {items : List Json} (hp : ∀ v ∈ items, ∃ n, Plain n v)
    (hr : ∀ v ∈ items, Reads levels v) : Reads (levels + 1) (.array items) := by
  cases items with
  | nil =>
    refine reads_of_succ (by simp [chars]) fun fuel rest _ _ => ?_
    simp [chars, value?, skipSpace_cons, isSpace]
  | cons v vs =>
    refine reads_of_succ (by simp [chars]) fun fuel rest hf _ => ?_
    obtain ⟨n, hn⟩ := hp v List.mem_cons_self
    obtain ⟨c, cs, hc, hspace, hne⟩ := chars_start hn
    simp only [chars, List.length_cons] at hf
    have hitems : items? fuel levels [] (v.chars ++ (moreItems vs ++ rest)) = _ :=
      items?_chars hr (Nat.le_of_succ_le_succ hf)
    simp only [chars, List.cons_append, List.append_assoc]
    rw [hc, List.cons_append] at hitems ⊢
    rw [value?, skipSpace_cons (by decide)]
    simp only
    rw [skipSpace_cons hspace]
    split
    · next h0 => exact absurd h0 (by omega)
    · next heq => exact absurd (List.cons.inj heq).1 hne
    · next hlevels _ =>
      obtain rfl := Nat.succ.inj hlevels
      exact hitems

theorem reads_object {fields : Fields Json} (ho : fields.Ordered)
    (hr : ∀ p ∈ fields, Reads levels p.2) : Reads (levels + 1) (.object fields) := by
  cases fields with
  | nil =>
    refine reads_of_succ (by simp [chars]) fun fuel rest _ _ => ?_
    simp [chars, value?, skipSpace_cons, isSpace]
  | cons p fields =>
    obtain ⟨name, v⟩ := p
    refine reads_of_succ (by simp [chars]) fun fuel rest hf _ => ?_
    simp only [chars, List.length_cons] at hf
    have hmembers : members? fuel levels []
        (quoted name ++ ':' :: (v.chars ++ (moreMembers fields ++ rest))) = _ :=
      members?_chars hr ho (Nat.le_of_succ_le_succ hf)
    simp only [chars, List.cons_append, List.append_assoc]
    rw [value?, skipSpace_cons (by decide)]
    simp only [quoted, List.cons_append] at hmembers ⊢
    rw [skipSpace_cons (by decide)]
    exact hmembers

end Values

/-- A value is read back from its compact text. -/
theorem reads_of_plain {n levels : Nat} {v : Json} (h : Plain n v) (hl : n ≤ levels) :
    Reads levels v := by
  induction h generalizing levels with
  | null => exact reads_null levels
  | bool _ b => exact reads_bool levels b
  | integer _ i => exact reads_integer levels i
  | string _ s => exact reads_string levels s
  | @array n items h ih =>
    obtain ⟨levels, rfl⟩ := Nat.exists_eq_add_of_lt hl
    exact reads_array (fun v hv => ⟨n, h v hv⟩) fun v hv => ih v hv (by omega)
  | @object n fields ho h ih =>
    obtain ⟨levels, rfl⟩ := Nat.exists_eq_add_of_lt hl
    exact reads_object ho fun p hp => ih p hp (by omega)

theorem ended_of_atEnd {rest : List Char} (h : atEnd rest = true) : Numeral.Ended rest := by
  rintro c r rfl
  cases hc : isSpace c with
  | false => simp [atEnd, skipSpace_cons hc] at h
  | true =>
    simp only [isSpace, Bool.or_eq_true, decide_eq_true_eq] at hc
    rcases hc with ((rfl | rfl) | rfl) | rfl <;> decide

end Reader

open Reader in
/-- A value is read back from its text, also if white space follows. -/
theorem read?_chars {v : Json} (h : Plain maxLevels v) {rest : List Char}
    (hr : atEnd rest = true) : read? (v.chars ++ rest) = some v := by
  have hsteps : v.chars.length ≤ steps (v.chars ++ rest) := by
    rw [steps, List.length_append]
    omega
  rw [read?, reads_of_plain h le_rfl _ rest hsteps (ended_of_atEnd hr)]
  exact if_pos hr

/-- A value is read back from the bytes of its text and a line feed. -/
theorem ofBytes?_text {v : Json} (h : Plain Reader.maxLevels v) :
    ofBytes? (Utf8.encode v.text ++ [10]) = some v := by
  have hbytes : Utf8.encode v.text ++ [10] = Utf8.encode (v.text ++ "\n") := by
    rw [Utf8.encode_append]
    rfl
  rw [ofBytes?, hbytes, Utf8.decode?_encode]
  simpa [text] using read?_chars h (show Reader.atEnd ['\n'] = true from rfl)

end Json
end BufferCheck
