import BufferCheck.Text.Utf8

/-! The bytes of a text: they are decoded to the text, and come character by character. -/
namespace BufferCheck.Utf8

theorem toByteArray_encode (s : String) : (encode s).toByteArray = s.toUTF8 := by
  apply ByteArray.ext
  rw [List.data_toByteArray, encode, Array.toArray_toList]

theorem decode?_encode (s : String) : decode? (encode s) = some s := by
  rw [decode?, toByteArray_encode]
  unfold String.fromUTF8?
  rw [String.toUTF8_eq_toByteArray, dif_pos s.isValidUTF8]
  rfl

/-- The bytes that decode to a text are those of the text. -/
theorem decode?_eq_some_iff {bytes : List UInt8} {s : String} :
    decode? bytes = some s ↔ bytes = encode s := by
  constructor
  · intro h
    unfold decode? String.fromUTF8? at h
    split at h
    · obtain rfl := Option.some.inj h
      simp [encode, String.fromUTF8]
    · cases h
  · rintro rfl
    exact decode?_encode s

/-- Each character is encoded by itself. -/
theorem encode_eq_flatMap (s : String) : encode s = s.toList.flatMap String.utf8EncodeChar := by
  have h : s.toUTF8 = (s.toList.flatMap String.utf8EncodeChar).toByteArray := by
    rw [String.toUTF8_eq_toByteArray, ← String.utf8Encode_toList, List.utf8Encode]
  rw [encode, h, List.data_toByteArray]

theorem encode_append (s t : String) : encode (s ++ t) = encode s ++ encode t := by
  simp [encode_eq_flatMap]

/-- Only a line feed has the byte of a line feed in its encoding. -/
theorem lineFeed_mem_utf8EncodeChar {c : Char} (h : (10 : UInt8) ∈ String.utf8EncodeChar c) :
    c = '\n' := by
  have hbyte : ∀ n : Nat, (10 : UInt8) = UInt8.ofNat n ↔ n % 256 = 10 := by
    intro n
    rw [← UInt8.toNat_inj, UInt8.toNat_ofNat', eq_comm]
    rfl
  unfold String.utf8EncodeChar at h
  simp only at h
  split at h
  · have hv : c.val.toNat % 256 = 10 := by simpa only [List.mem_singleton, hbyte] using h
    apply Char.ext
    apply UInt32.toNat_inj.mp
    change c.val.toNat = 10
    omega
  · -- The bytes of longer forms have the high bit.
    split at h
    · simp only [List.mem_cons, List.not_mem_nil, or_false, hbyte] at h
      omega
    · split at h <;> simp only [List.mem_cons, List.not_mem_nil, or_false, hbyte] at h <;> omega

theorem lineFeed_mem_encode {s : String} : (10 : UInt8) ∈ encode s ↔ '\n' ∈ s.toList := by
  rw [encode_eq_flatMap, List.mem_flatMap]
  constructor
  · rintro ⟨c, hc, hb⟩
    rwa [lineFeed_mem_utf8EncodeChar hb] at hc
  · intro h
    exact ⟨_, h, by decide⟩

/-- An ASCII character is one byte. -/
theorem encode_of_ascii {s : String} (h : ∀ c ∈ s.toList, c.toNat < 128) :
    encode s = s.toList.map fun c => UInt8.ofNat c.toNat := by
  rw [encode_eq_flatMap]
  generalize s.toList = cs at h
  induction cs with
  | nil => rfl
  | cons c cs ih =>
    obtain ⟨hc, hcs⟩ := List.forall_mem_cons.mp h
    have hbyte : String.utf8EncodeChar c = [UInt8.ofNat c.toNat] := by
      rw [String.utf8EncodeChar]
      exact if_pos (Nat.le_of_lt_succ hc)
    rw [List.flatMap_cons, hbyte, ih hcs]
    rfl

/-- ASCII text may be cut anywhere. -/
theorem encode_take {s : String} (h : ∀ c ∈ s.toList, c.toNat < 128) (n : Nat) :
    (encode s).take n = encode (.ofList (s.toList.take n)) := by
  have htake : ∀ c ∈ (String.ofList (s.toList.take n)).toList, c.toNat < 128 := by
    rw [String.toList_ofList]
    exact fun c hc => h c (List.mem_of_mem_take hc)
  rw [encode_of_ascii h, encode_of_ascii htake, String.toList_ofList, List.map_take]

end BufferCheck.Utf8
