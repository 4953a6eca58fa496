import BufferCheck.Proofs.Text.Utf8

/-! Decoding any bytes: what encodes a text is decoded to it, whatever follows, and a byte that no
text has costs itself alone. -/
namespace BufferCheck.Utf8

variable {b x : UInt8} {c : Char} {done : List Char} {p : Pending} {bytes : List UInt8} {s : String}

section Frame

/-- A decoder that had done more before. -/
def Decoder.following (d : Decoder) (done : List Char) : Decoder := ⟨d.done ++ done, d.pending⟩

theorem Decoder.open_following (before done : List Char) (b : UInt8) :
    Decoder.open (before ++ done) b = (Decoder.open before b).following done := by
  unfold Decoder.open
  cases lead b <;> rfl

/-- What has been decoded has no effect on what is. -/
theorem Decoder.push_following (d : Decoder) (done : List Char) (b : UInt8) :
    (d.following done).push b = (d.push b).following done := by
  obtain ⟨before, pending⟩ := d
  cases pending with
  | none => exact open_following before done b
  | some p =>
    simp only [following, push]
    split
    · split <;> rfl
    · exact open_following (replacement :: before) done b

theorem Decoder.foldl_push_following (d : Decoder) (done : List Char) (bytes : List UInt8) :
    bytes.foldl push (d.following done) = (bytes.foldl push d).following done := by
  induction bytes generalizing d with
  | nil => rfl
  | cons b bytes ih => rw [List.foldl_cons, push_following, ih, List.foldl_cons]

theorem Decoder.finish_following (d : Decoder) (done : List Char) :
    (d.following done).finish = done.reverse ++ d.finish := by
  obtain ⟨before, pending⟩ := d
  cases pending <;> simp [finish, following]

/-- Between two characters the rest is decoded by itself. -/
theorem finish_foldl_push (done : List Char) (bytes : List UInt8) :
    (bytes.foldl Decoder.push ⟨done, none⟩).finish
      = done.reverse ++ (bytes.foldl Decoder.push .start).finish := by
  rw [← Decoder.finish_following, ← Decoder.foldl_push_following]
  rfl

end Frame

section Character

theorem not_lt_of_toNat_le {k : UInt8} (h : k.toNat ≤ b.toNat) : ¬ b < k :=
  UInt8.not_lt.mpr (UInt8.le_iff_toNat_le.mpr h)

theorem lead_single (h : b.toNat < 0x80) : lead b = .single (Char.ofNat b.toNat) := by
  rw [lead, if_pos (UInt8.lt_iff_toNat_lt.mpr h)]

theorem lead_two (h : 0xC2 ≤ b.toNat) (h' : b.toNat < 0xE0) :
    lead b = .opens ⟨1, 0x80, 0xBF, b.toNat - 0xC0⟩ := by
  have h80 : ¬ b < 0x80 := not_lt_of_toNat_le (Nat.le_trans (by decide) h)
  have hC2 : ¬ b < 0xC2 := not_lt_of_toNat_le h
  rw [lead, if_neg h80, if_neg hC2, if_pos (UInt8.lt_iff_toNat_lt.mpr h')]

theorem lead_three (h : 0xE0 ≤ b.toNat) (h' : b.toNat < 0xF0) :
    lead b = .opens ⟨2, if b = 0xE0 then 0xA0 else 0x80, if b = 0xED then 0x9F else 0xBF,
      b.toNat - 0xE0⟩ := by
  have h80 : ¬ b < 0x80 := not_lt_of_toNat_le (Nat.le_trans (by decide) h)
  have hC2 : ¬ b < 0xC2 := not_lt_of_toNat_le (Nat.le_trans (by decide) h)
  have hE0 : ¬ b < 0xE0 := not_lt_of_toNat_le h
  rw [lead, if_neg h80, if_neg hC2, if_neg hE0]
  by_cases he : b = 0xE0
  · subst he
    rfl
  · by_cases hd : b = 0xED
    · subst hd
      rfl
    · rw [if_neg he, if_neg hd, if_pos (UInt8.lt_iff_toNat_lt.mpr h'), if_neg he, if_neg hd]

theorem lead_four (h : 0xF0 ≤ b.toNat) (h' : b.toNat < 0xF5) :
    lead b = .opens ⟨3, if b = 0xF0 then 0x90 else 0x80, if b = 0xF4 then 0x8F else 0xBF,
      b.toNat - 0xF0⟩ := by
  have h80 : ¬ b < 0x80 := not_lt_of_toNat_le (Nat.le_trans (by decide) h)
  have hC2 : ¬ b < 0xC2 := not_lt_of_toNat_le (Nat.le_trans (by decide) h)
  have hE0 : ¬ b < 0xE0 := not_lt_of_toNat_le (Nat.le_trans (by decide) h)
  have hF0 : ¬ b < 0xF0 := not_lt_of_toNat_le h
  have he : b ≠ 0xE0 := by rintro rfl; exact absurd h (by decide)
  have hd : b ≠ 0xED := by rintro rfl; exact absurd h (by decide)
  rw [lead, if_neg h80, if_neg hC2, if_neg hE0, if_neg he, if_neg hd, if_neg hF0]
  by_cases hf : b = 0xF0
  · subst hf
    rfl
  · by_cases h4 : b = 0xF4
    · subst h4
      rfl
    · have hne : b.toNat ≠ 0xF4 := fun hn => h4 (UInt8.toNat_inj.mp hn)
      have hF4 : b < 0xF4 := UInt8.lt_iff_toNat_lt.mpr (Nat.lt_of_le_of_ne (Nat.le_of_lt_succ h') hne)
      rw [if_neg hf, if_pos hF4, if_neg hf, if_neg h4]

theorem lead_bad (h : b = 0xC0 ∨ b = 0xC1 ∨ 0xF5 ≤ b.toNat) : lead b = .bad := by
  rcases h with rfl | rfl | h
  · rfl
  · rfl
  · have hne : ∀ k : UInt8, k.toNat < 0xF5 → b ≠ k := by
      rintro k hk rfl
      omega
    have hge : ∀ k : UInt8, k.toNat < 0xF5 → ¬ b < k := by
      intro k hk
      exact not_lt_of_toNat_le (Nat.le_trans (Nat.le_of_lt hk) h)
    rw [lead, if_neg (hge _ (by decide)), if_neg (hge _ (by decide)), if_neg (hge _ (by decide)),
      if_neg (hne _ (by decide)), if_neg (hne _ (by decide)), if_neg (hge _ (by decide)),
      if_neg (hne _ (by decide)), if_neg (hge _ (by decide)), if_neg (hne _ (by decide))]

/-- A byte in range adds six bits to the character under way. -/
theorem push_tail {owed bits v : Nat} {low high : UInt8} (done : List Char)
    (hlow : low.toNat ≤ v % 64 + 128) (hhigh : v % 64 + 128 ≤ high.toNat) :
    Decoder.push ⟨done, some ⟨owed, low, high, bits⟩⟩ (UInt8.ofNat (v % 64 + 128))
      = if owed ≤ 1 then ⟨Char.ofNat (64 * bits + v % 64) :: done, none⟩
        else ⟨done, some ⟨owed - 1, 0x80, 0xBF, 64 * bits + v % 64⟩⟩ := by
  have hbyte : (UInt8.ofNat (v % 64 + 128)).toNat = v % 64 + 128 := by
    rw [UInt8.toNat_ofNat']
    omega
  have hin : low ≤ UInt8.ofNat (v % 64 + 128) ∧ UInt8.ofNat (v % 64 + 128) ≤ high := by
    rw [UInt8.le_iff_toNat_le, UInt8.le_iff_toNat_le, hbyte]
    exact ⟨hlow, hhigh⟩
  have hsub : v % 64 + 128 - 0x80 = v % 64 := Nat.add_sub_cancel (v % 64) 128
  simp only [Decoder.push, if_pos hin, hbyte, hsub]

/-- The range of a byte that the lead does not narrow. -/
theorem tail_range (v : Nat) :
    (0x80 : UInt8).toNat ≤ v % 64 + 128 ∧ v % 64 + 128 ≤ (0xBF : UInt8).toNat := by
  constructor
  · exact Nat.le_add_left 128 (v % 64)
  · change v % 64 + 128 ≤ 191
    omega

theorem push_next {k bits v : Nat} {low high : UInt8} (done : List Char)
    (hlow : low.toNat ≤ v % 64 + 128) (hhigh : v % 64 + 128 ≤ high.toNat) :
    Decoder.push ⟨done, some ⟨k + 2, low, high, bits⟩⟩ (UInt8.ofNat (v % 64 + 128))
      = ⟨done, some ⟨k + 1, 0x80, 0xBF, 64 * bits + v % 64⟩⟩ := by
  rw [push_tail done hlow hhigh, if_neg (by omega)]
  rfl

theorem push_last {bits v : Nat} (done : List Char) :
    Decoder.push ⟨done, some ⟨1, 0x80, 0xBF, bits⟩⟩ (UInt8.ofNat (v % 64 + 128))
      = ⟨Char.ofNat (64 * bits + v % 64) :: done, none⟩ := by
  obtain ⟨hlow, hhigh⟩ := tail_range v
  rw [push_tail done hlow hhigh, if_pos (Nat.le_refl 1)]

theorem push_of_single (h : lead b = .single c) (done : List Char) :
    Decoder.push ⟨done, none⟩ b = ⟨c :: done, none⟩ := by
  simp only [Decoder.push, Decoder.open, h]

theorem push_of_opens (h : lead b = .opens p) (done : List Char) :
    Decoder.push ⟨done, none⟩ b = ⟨done, some p⟩ := by
  simp only [Decoder.push, Decoder.open, h]

theorem push_of_bad (h : lead b = .bad) (done : List Char) :
    Decoder.push ⟨done, none⟩ b = ⟨replacement :: done, none⟩ := by
  simp only [Decoder.push, Decoder.open, h]

variable {v : Nat}

theorem foldl_push_two (done : List Char) (h : 0x7F < v) (h' : v ≤ 0x7FF) :
    [UInt8.ofNat (v / 64 % 32 + 192), UInt8.ofNat (v % 64 + 128)].foldl Decoder.push ⟨done, none⟩
      = ⟨Char.ofNat v :: done, none⟩ := by
  have hfirst : (UInt8.ofNat (v / 64 % 32 + 192)).toNat = v / 64 % 32 + 192 := by
    rw [UInt8.toNat_ofNat']
    omega
  have hv : 64 * (v / 64 % 32 + 192 - 192) + v % 64 = v := by omega
  rw [List.foldl_cons, push_of_opens (lead_two (by omega) (by omega)), List.foldl_cons,
    push_last done, hfirst, hv, List.foldl_nil]

theorem foldl_push_three (done : List Char) (h : 0x7FF < v) (h' : v ≤ 0xFFFF)
    (hvalid : v < 0xD800 ∨ 0xDFFF < v) :
    [UInt8.ofNat (v / 4096 % 16 + 224), UInt8.ofNat (v / 64 % 64 + 128),
        UInt8.ofNat (v % 64 + 128)].foldl Decoder.push ⟨done, none⟩
      = ⟨Char.ofNat v :: done, none⟩ := by
  have hfirst : (UInt8.ofNat (v / 4096 % 16 + 224)).toNat = v / 4096 % 16 + 224 := by
    rw [UInt8.toNat_ofNat']
    omega
  have heq : ∀ k, UInt8.ofNat (v / 4096 % 16 + 224) = k → v / 4096 % 16 + 224 = k.toNat := by
    rintro k rfl
    exact hfirst.symm
  have hv : 64 * (64 * (v / 4096 % 16 + 224 - 224) + v / 64 % 64) + v % 64 = v := by omega
  rw [List.foldl_cons, push_of_opens (lead_three (by omega) (by omega)), List.foldl_cons,
    push_next done ?low ?high, List.foldl_cons,
    push_last done, hfirst, hv, List.foldl_nil]
  case low =>
    -- A lower second byte would be an overlong form.
    split
    · next he =>
      have hlead : v / 4096 % 16 + 224 = 224 := heq _ he
      change 160 ≤ v / 64 % 64 + 128
      omega
    · exact (tail_range _).1
  case high =>
    -- A higher one would be a surrogate.
    split
    · next he =>
      have hlead : v / 4096 % 16 + 224 = 237 := heq _ he
      change v / 64 % 64 + 128 ≤ 159
      omega
    · exact (tail_range _).2

theorem foldl_push_four (done : List Char) (h : 0xFFFF < v) (h' : v < 0x110000) :
    [UInt8.ofNat (v / 262144 % 8 + 240), UInt8.ofNat (v / 4096 % 64 + 128),
        UInt8.ofNat (v / 64 % 64 + 128), UInt8.ofNat (v % 64 + 128)].foldl Decoder.push ⟨done, none⟩
      = ⟨Char.ofNat v :: done, none⟩ := by
  have hfirst : (UInt8.ofNat (v / 262144 % 8 + 240)).toNat = v / 262144 % 8 + 240 := by
    rw [UInt8.toNat_ofNat']
    omega
  have heq : ∀ k, UInt8.ofNat (v / 262144 % 8 + 240) = k → v / 262144 % 8 + 240 = k.toNat := by
    rintro k rfl
    exact hfirst.symm
  have hv : 64 * (64 * (64 * (v / 262144 % 8 + 240 - 240) + v / 4096 % 64) + v / 64 % 64) + v % 64
      = v := by omega
  obtain ⟨hlow, hhigh⟩ := tail_range (v / 64)
  rw [List.foldl_cons, push_of_opens (lead_four (by omega) (by omega)), List.foldl_cons,
    push_next done ?low ?high, List.foldl_cons,
    push_next done hlow hhigh, List.foldl_cons,
    push_last done, hfirst, hv, List.foldl_nil]
  case low =>
    split
    · next he =>
      have hlead : v / 262144 % 8 + 240 = 240 := heq _ he
      change 144 ≤ v / 4096 % 64 + 128
      omega
    · exact (tail_range _).1
  case high =>
    -- A higher second byte would be past the last code point.
    split
    · next he =>
      have hlead : v / 262144 % 8 + 240 = 244 := heq _ he
      change v / 4096 % 64 + 128 ≤ 143
      omega
    · exact (tail_range _).2

/-- The bytes of a character are decoded to it. -/
theorem foldl_push_utf8EncodeChar (done : List Char) (c : Char) :
    (String.utf8EncodeChar c).foldl Decoder.push ⟨done, none⟩ = ⟨c :: done, none⟩ := by
  have hvalid : c.val.toNat < 0xD800 ∨ 0xDFFF < c.val.toNat ∧ c.val.toNat < 0x110000 := c.valid
  have hc : Char.ofNat c.val.toNat = c := Char.ofNat_toNat c
  unfold String.utf8EncodeChar
  simp only
  generalize c.val.toNat = v at hvalid hc
  subst hc
  split
  · next h =>
    have hbyte : (UInt8.ofNat v).toNat = v := by
      rw [UInt8.toNat_ofNat']
      omega
    rw [List.foldl_cons, List.foldl_nil, push_of_single (lead_single (by omega)), hbyte]
  split
  · next h => exact foldl_push_two done (by omega) h
  split
  · next h => exact foldl_push_three done (by omega) h (by omega)
  · exact foldl_push_four done (by omega) (by omega)

theorem foldl_push_encode (done : List Char) (s : String) :
    (encode s).foldl Decoder.push ⟨done, none⟩ = ⟨s.toList.reverse ++ done, none⟩ := by
  rw [encode_eq_flatMap]
  generalize s.toList = cs
  induction cs generalizing done with
  | nil => rfl
  | cons c cs ih =>
    rw [List.flatMap_cons, List.foldl_append, foldl_push_utf8EncodeChar, ih]
    simp

end Character

section Lossy

/-- Text is decoded as it is, and has no effect on what follows. -/
theorem decodeLossy_encode_append (s : String) (bytes : List UInt8) :
    decodeLossy (encode s ++ bytes) = s ++ decodeLossy bytes := by
  have hstart : (encode s).foldl Decoder.push .start = ⟨s.toList.reverse, none⟩ := by
    simpa [Decoder.start] using foldl_push_encode [] s
  rw [decodeLossy, List.foldl_append, hstart, finish_foldl_push, List.reverse_reverse,
    String.ofList_append, String.ofList_toList, decodeLossy]

theorem decodeLossy_encode (s : String) : decodeLossy (encode s) = s := by
  simpa [decodeLossy, Decoder.start, Decoder.finish] using decodeLossy_encode_append s []

/-- A byte that starts no character is replaced where a character may start. -/
theorem decodeLossy_cons_of_bad (h : lead x = .bad) (bytes : List UInt8) :
    decodeLossy (x :: bytes) = "\uFFFD" ++ decodeLossy bytes := by
  rw [decodeLossy, List.foldl_cons, Decoder.start, push_of_bad h, finish_foldl_push,
    String.ofList_append, decodeLossy]
  rfl

end Lossy

section Never

/-- A character with the given byte in its encoding, for a byte that some character has. -/
def carrier (n : Nat) : Char :=
  Char.ofNat <|
    if n < 0xC0 then n
    else if n < 0xE0 then 64 * (n - 0xC0)
    else if n < 0xF0 then max 0x800 (4096 * (n - 0xE0))
    else max 0x10000 (262144 * (n - 0xF0))

theorem mem_utf8EncodeChar_carrier : ∀ n < 0xF5, n ≠ 0xC0 → n ≠ 0xC1 →
    UInt8.ofNat n ∈ String.utf8EncodeChar (carrier n) := by
  decide +kernel

theorem toNat_of_mem_utf8EncodeChar (h : b ∈ String.utf8EncodeChar c) :
    b.toNat < 0xC0 ∨ 0xC2 ≤ b.toNat ∧ b.toNat < 0xF5 := by
  have hvalid : c.val.toNat < 0xD800 ∨ 0xDFFF < c.val.toNat ∧ c.val.toNat < 0x110000 := c.valid
  have hbyte : ∀ n : Nat, n < 0xC0 ∨ 0xC2 ≤ n ∧ n < 0xF5 → b = UInt8.ofNat n →
      b.toNat < 0xC0 ∨ 0xC2 ≤ b.toNat ∧ b.toNat < 0xF5 := by
    rintro n hn rfl
    rw [UInt8.toNat_ofNat']
    omega
  unfold String.utf8EncodeChar at h
  simp only at h
  generalize c.val.toNat = v at hvalid h
  split at h
  · exact hbyte _ (by omega) (List.mem_singleton.mp h)
  split at h
  · simp only [List.mem_cons, List.not_mem_nil, or_false] at h
    rcases h with h | h <;> exact hbyte _ (by omega) h
  split at h
  · simp only [List.mem_cons, List.not_mem_nil, or_false] at h
    rcases h with h | h | h <;> exact hbyte _ (by omega) h
  · simp only [List.mem_cons, List.not_mem_nil, or_false] at h
    rcases h with h | h | h | h <;> exact hbyte _ (by omega) h

/-- The bytes that no text has. -/
theorem notMem_encode_iff :
    (∀ s, x ∉ encode s) ↔ x = 0xC0 ∨ x = 0xC1 ∨ 0xF5 ≤ x.toNat := by
  have heq : ∀ k : UInt8, x = k ↔ x.toNat = k.toNat := fun k => UInt8.toNat_inj.symm
  have h0 : x = 0xC0 ↔ x.toNat = 0xC0 := heq 0xC0
  have h1 : x = 0xC1 ↔ x.toNat = 0xC1 := heq 0xC1
  rw [h0, h1]
  constructor
  · intro h
    by_cases hx : x.toNat < 0xF5 ∧ x.toNat ≠ 0xC0 ∧ x.toNat ≠ 0xC1
    · have hmem := mem_utf8EncodeChar_carrier x.toNat hx.1 hx.2.1 hx.2.2
      rw [UInt8.ofNat_toNat] at hmem
      exfalso
      apply h (.singleton (carrier x.toNat))
      simpa [encode_eq_flatMap] using hmem
    · omega
  · intro hx s h
    rw [encode_eq_flatMap] at h
    obtain ⟨c, -, hc⟩ := List.mem_flatMap.mp h
    have hrange := toNat_of_mem_utf8EncodeChar hc
    omega

end Never

end BufferCheck.Utf8
