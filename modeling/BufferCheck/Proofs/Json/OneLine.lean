import BufferCheck.Json.Printer
import BufferCheck.Proofs.Text.Utf8

/-! The compact text of a value holds no control character, so it stands on one line whatever its
texts hold. -/
namespace BufferCheck

/-- The character is no control character. -/
def Printable (c : Char) : Prop := 0x20 ≤ c.toNat

instance (c : Char) : Decidable (Printable c) := inferInstanceAs (Decidable (_ ≤ _))

/-- Fixed characters are looked at one by one. -/
theorem printable_of_all {cs : List Char} (h : cs.all (Printable ·) = true) :
    ∀ c ∈ cs, Printable c :=
  fun c hc => of_decide_eq_true (List.all_eq_true.mp h c hc)

namespace Decimal

theorem printable_of_isDigit {c : Char} (h : isDigit c = true) : Printable c := by
  simp only [isDigit, Bool.and_eq_true, decide_eq_true_eq] at h
  have hlow : ('0' : Char).toNat ≤ c.toNat := h.1
  exact Nat.le_trans (by decide) hlow

theorem printable_digits (n : Nat) : ∀ c ∈ digits n, Printable c :=
  fun _ hc => printable_of_isDigit (isDigit_of_mem_digits hc)

theorem printable_signed (n : Int) : ∀ c ∈ signed n, Printable c := by
  rw [signed]
  split
  · exact List.forall_mem_cons.mpr ⟨by decide, printable_digits _⟩
  · exact printable_digits _

theorem printable_zeros (n : Nat) : ∀ c ∈ List.replicate n '0', Printable c := by
  intro c hc
  rw [List.eq_of_mem_replicate hc]
  decide

/-- A double is laid out in digits and a few marks. -/
theorem printable_layout (s : Scientific) : ∀ c ∈ s.layout, Printable c := by
  have hdigits := printable_digits s.coefficient
  rw [Scientific.layout]
  split
  · exact List.forall_mem_append.mpr
      ⟨List.forall_mem_append.mpr ⟨hdigits, printable_zeros _⟩, printable_of_all rfl⟩
  split
  · refine List.forall_mem_append.mpr ⟨fun c hc => hdigits c (List.mem_of_mem_take hc), ?_⟩
    exact List.forall_mem_cons.mpr ⟨by decide, fun c hc => hdigits c (List.mem_of_mem_drop hc)⟩
  split
  · refine List.forall_mem_cons.mpr ⟨by decide, List.forall_mem_cons.mpr ⟨by decide, ?_⟩⟩
    exact List.forall_mem_append.mpr ⟨printable_zeros _, hdigits⟩
  · refine List.forall_mem_append.mpr ⟨List.forall_mem_append.mpr ⟨?mantissa, ?mark⟩,
      printable_signed _⟩
    case mantissa =>
      split
      · exact List.forall_mem_nil _
      · next heq => exact heq ▸ hdigits
      · next heq =>
        rw [heq] at hdigits
        obtain ⟨hd, hmore⟩ := List.forall_mem_cons.mp hdigits
        exact List.forall_mem_cons.mpr ⟨hd, List.forall_mem_cons.mpr ⟨by decide, hmore⟩⟩
    case mark =>
      refine List.forall_mem_cons.mpr ⟨by decide, ?_⟩
      split <;> exact printable_of_all rfl

theorem printable_ofDouble (bits : UInt64) : ∀ c ∈ ofDouble bits, Printable c := by
  have htext : ∀ c ∈ (if bits.toNat % Nat.pow 2 63 = 0 then ['0', '.', '0']
      else (shortest (bits.toNat % Nat.pow 2 63)).layout), Printable c := by
    split
    · exact printable_of_all rfl
    · exact printable_layout _
  rw [ofDouble]
  split
  · exact List.forall_mem_cons.mpr ⟨by decide, htext⟩
  · exact htext

end Decimal

namespace Json

theorem Number.printable_chars (n : Number) : ∀ c ∈ n.chars, Printable c :=
  match n with
  | .integer _ => Decimal.printable_signed _
  | .double _ => Decimal.printable_ofDouble _

theorem printable_hexDigit {n : Nat} (h : n < 16) : Printable (hexDigit n) := by
  have hall : ∀ m < 16, Printable (hexDigit m) := by decide
  exact hall n h

/-- Whatever the character is, what stands for it in a string is printable. -/
theorem printable_escapeChar (c : Char) : ∀ d ∈ escapeChar c, Printable d := by
  rw [escapeChar.eq_def]
  split
  iterate 7 exact printable_of_all rfl
  split
  · next hlow =>
    have hhigh : Printable (hexDigit (c.toNat / 16)) := printable_hexDigit (by omega)
    have hrest : Printable (hexDigit (c.toNat % 16)) := printable_hexDigit (by omega)
    change ∀ d ∈ ['\\', 'u', '0', '0'] ++ [hexDigit (c.toNat / 16), hexDigit (c.toNat % 16)], _
    refine List.forall_mem_append.mpr ⟨printable_of_all rfl, ?_⟩
    exact List.forall_mem_cons.mpr ⟨hhigh, List.forall_mem_singleton.mpr hrest⟩
  · next hlow => exact List.forall_mem_cons.mpr ⟨Nat.le_of_not_lt hlow, List.forall_mem_nil _⟩

theorem printable_quoted (s : String) : ∀ c ∈ quoted s, Printable c := by
  refine List.forall_mem_append.mpr ⟨List.forall_mem_cons.mpr ⟨by decide, ?_⟩,
    printable_of_all rfl⟩
  exact List.forall_mem_flatMap.mpr fun c _ => printable_escapeChar c

mutual

/-- The compact text of a value, of the items and of the members after the first are printable. -/
theorem printable_chars (v : Json) : ∀ c ∈ v.chars, Printable c :=
  match v with
  | .null => by simpa only [chars] using printable_of_all rfl
  | .bool true => by simpa only [chars] using printable_of_all rfl
  | .bool false => by simpa only [chars] using printable_of_all rfl
  | .number n => by simpa only [chars] using n.printable_chars
  | .string s => by simpa only [chars] using printable_quoted s
  | .array [] => by simpa only [chars] using printable_of_all rfl
  | .array (v :: vs) => by
    rw [chars]
    refine List.forall_mem_cons.mpr ⟨by decide, List.forall_mem_append.mpr ⟨?_, ?_⟩⟩
    · exact printable_chars v
    · exact printable_moreItems vs
  | .object [] => by simpa only [chars] using printable_of_all rfl
  | .object ((name, v) :: rest) => by
    rw [chars]
    refine List.forall_mem_cons.mpr ⟨by decide, List.forall_mem_append.mpr
      ⟨printable_quoted name, List.forall_mem_cons.mpr ⟨by decide, ?_⟩⟩⟩
    exact List.forall_mem_append.mpr ⟨printable_chars v, printable_moreMembers rest⟩

theorem printable_moreItems (vs : List Json) : ∀ c ∈ moreItems vs, Printable c :=
  match vs with
  | [] => by simpa only [moreItems] using printable_of_all rfl
  | v :: vs => by
    rw [moreItems]
    refine List.forall_mem_cons.mpr ⟨by decide, List.forall_mem_append.mpr ⟨?_, ?_⟩⟩
    · exact printable_chars v
    · exact printable_moreItems vs

theorem printable_moreMembers (members : List (String × Json)) :
    ∀ c ∈ moreMembers members, Printable c :=
  match members with
  | [] => by simpa only [moreMembers] using printable_of_all rfl
  | (name, v) :: rest => by
    rw [moreMembers]
    refine List.forall_mem_cons.mpr ⟨by decide, List.forall_mem_append.mpr
      ⟨printable_quoted name, List.forall_mem_cons.mpr ⟨by decide, ?_⟩⟩⟩
    exact List.forall_mem_append.mpr ⟨printable_chars v, printable_moreMembers rest⟩

end

/-- The compact text of a value has no line break. -/
theorem lineFeed_notMem_text (v : Json) : 10 ∉ Utf8.encode v.text := by
  rw [Utf8.lineFeed_mem_encode, text, String.toList_ofList]
  exact fun hmem => absurd (v.printable_chars _ hmem) (by decide)

end Json
end BufferCheck
