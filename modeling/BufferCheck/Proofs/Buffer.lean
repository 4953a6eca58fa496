import BufferCheck.Buffer
import BufferCheck.Proofs.Text.Lossy

/-! The text of a stream depends on the bytes received alone, however they come. -/
namespace BufferCheck

/-- Reading goes on after a read. -/
def ReadResult.GoesOn : ReadResult → Prop
  | .chunk bytes => bytes ≠ []
  | .interrupted => True
  | .failed _ => False

/-- The bytes that a read gives. -/
def ReadResult.bytes : ReadResult → List UInt8
  | .chunk bytes => bytes
  | .interrupted => []
  | .failed _ => []

/-- The bytes that several reads give. -/
def received (reads : List ReadResult) : List UInt8 := reads.flatMap ReadResult.bytes

variable {reads before rest : List ReadResult} {e : ReadError}

/-- Reads after which reading goes on add their bytes to those that follow. -/
theorem readBytes_append (h : ∀ r ∈ before, r.GoesOn) (rest : List ReadResult) :
    readBytes (before ++ rest) = (readBytes rest).map (received before ++ ·) := by
  induction before with
  | nil => cases hrest : readBytes rest <;> simp [hrest, received, Except.map]
  | cons r before ih =>
    obtain ⟨hr, hbefore⟩ := List.forall_mem_cons.mp h
    have hmore := ih hbefore
    cases r with
    | chunk bytes =>
      rw [List.cons_append, readBytes, hmore]
      · cases readBytes rest <;> simp [Except.map, received, ReadResult.bytes]
      · rintro rfl
        exact hr rfl
    | interrupted =>
      rw [List.cons_append, readBytes, hmore]
      rfl
    | failed text => exact absurd hr id

/-- Reading fails exactly if a read fails before the end of the stream. -/
theorem readBytes_eq_error_iff : readBytes reads = .error e ↔
    ∃ before after, reads = before ++ .failed e.text :: after ∧ ∀ r ∈ before, r.GoesOn := by
  constructor
  · intro h
    fun_induction readBytes reads with
    | case1 => cases h
    | case2 => cases h
    | case3 bytes rest hne ih =>
      cases hrest : readBytes rest with
      | ok more => simp [hrest, Except.map] at h
      | error e' =>
        rw [hrest] at h
        obtain rfl : e' = e := Except.error.inj h
        obtain ⟨before, after, rfl, hbefore⟩ := ih hrest
        refine ⟨.chunk bytes :: before, after, rfl, List.forall_mem_cons.mpr ⟨?_, hbefore⟩⟩
        exact hne
    | case4 rest ih =>
      obtain ⟨before, after, rfl, hbefore⟩ := ih h
      exact ⟨.interrupted :: before, after, rfl, List.forall_mem_cons.mpr ⟨trivial, hbefore⟩⟩
    | case5 text rest =>
      obtain rfl := Except.error.inj h
      exact ⟨[], rest, rfl, List.forall_mem_nil _⟩
  · rintro ⟨before, after, rfl, hbefore⟩
    rw [readBytes_append hbefore]
    rfl

theorem readBuffer_eq_error_iff : readBuffer reads = .error e ↔ readBytes reads = .error e := by
  rw [readBuffer]
  cases readBytes reads <;> simp [Except.map]

/-- Up to the end of the stream, the text is the decoding of what was received. -/
theorem readBuffer_append (h : ∀ r ∈ before, r.GoesOn) (hrest : readBytes rest = .ok []) :
    readBuffer (before ++ rest) = .ok (Utf8.decodeLossy (received before)) := by
  rw [readBuffer, readBytes_append h, hrest]
  simp [Except.map]

theorem readBuffer_of_goesOn (h : ∀ r ∈ reads, r.GoesOn) :
    readBuffer reads = .ok (Utf8.decodeLossy (received reads)) := by
  have hread : readBuffer (reads ++ []) = .ok (Utf8.decodeLossy (received reads)) :=
    readBuffer_append h rfl
  rwa [List.append_nil] at hread

/-- A stream that no read of fails before its end gives the decoding of the bytes received, the same
for all ways to cut the bytes and to interrupt the reads, and one that fails first gives the failure
alone. The decoding gives back every text, and around a byte that no text has it keeps the text
before and decodes what follows by itself. -/
theorem readBuffer_of_received (h : ∀ r ∈ reads, r.GoesOn) {x : UInt8}
    (hx : ∀ s, x ∉ Utf8.encode s) :
    (readBuffer reads = .ok (Utf8.decodeLossy (received reads)) ∧
      ∀ after, readBuffer (reads ++ .chunk [] :: after) = readBuffer reads) ∧
    (∀ others, (∀ r ∈ others, r.GoesOn) → received others = received reads →
      readBuffer others = readBuffer reads) ∧
    (∀ text after, readBuffer (reads ++ .failed text :: after) = .error ⟨text⟩) ∧
    (∀ s, Utf8.decodeLossy (Utf8.encode s) = s) ∧
    ∀ a bytes, Utf8.decodeLossy (Utf8.encode a ++ x :: bytes)
      = a ++ "\uFFFD" ++ Utf8.decodeLossy bytes := by
  have hread := readBuffer_of_goesOn h
  refine ⟨⟨hread, fun after => ?_⟩, fun others hothers hsame => ?_, fun text after => ?_,
    Utf8.decodeLossy_encode, fun a bytes => ?_⟩
  · rw [hread]
    exact readBuffer_append h rfl
  · rw [hread, readBuffer_of_goesOn hothers, hsame]
  · apply readBuffer_eq_error_iff.mpr
    exact readBytes_eq_error_iff.mpr ⟨reads, after, rfl, h⟩
  · have hbad : Utf8.lead x = .bad := Utf8.lead_bad (Utf8.notMem_encode_iff.mp hx)
    rw [Utf8.decodeLossy_encode_append, Utf8.decodeLossy_cons_of_bad hbad, String.append_assoc]

section Sample

/-- The two bytes of a character, with an interruption between them. -/
def sampleReads : List ReadResult := [.chunk [0xC3], .interrupted, .chunk [0xA9]]

end Sample

theorem readBuffer_sampleReads :
    (∀ r ∈ sampleReads, r.GoesOn) ∧ (∀ s, (0xFF : UInt8) ∉ Utf8.encode s) ∧
      readBuffer sampleReads = .ok "é" ∧
      readBuffer (sampleReads ++ [.failed "closed", .chunk [120]]) = .error ⟨"closed"⟩ ∧
      Utf8.decodeLossy (Utf8.encode "é" ++ [0xFF, 0xC3]) = "é\uFFFD\uFFFD" := by
  have hgoes : ∀ r ∈ sampleReads, r.GoesOn := by
    simp [sampleReads, ReadResult.GoesOn]
  have hnever : ∀ s, (0xFF : UInt8) ∉ Utf8.encode s :=
    Utf8.notMem_encode_iff.mpr (Or.inr (Or.inr (by decide)))
  obtain ⟨⟨hread, -⟩, -, hfailed, hencode, hbad⟩ := readBuffer_of_received hgoes hnever
  refine ⟨hgoes, hnever, hread.trans ?_, hfailed "closed" [.chunk [120]], ?_⟩
  · exact congrArg Except.ok (hencode "é")
  · rw [hbad]
    rfl

end BufferCheck
