import BufferCheck.Proofs.Json.RoundTrip
import BufferCheck.Proofs.Server.Head
import BufferCheck.Server.Client

/-! Streams of frames: what is read of them, whole or cut off anywhere. -/
namespace BufferCheck.Server.Frame

/-- The body of a frame. -/
def body (v : Json) : List UInt8 := Utf8.encode v.text ++ [10]

/-- A message that a frame can carry: its text reads back, and its body fits into memory. -/
structure Sendable (v : Json) : Prop where
  plain : v.Plain Json.Reader.maxLevels
  fits : (body v).length ≤ maxBody

/-- A message with the head that a server writes before it. -/
structure Framed where
  head : Head
  value : Json

def Framed.bytes (f : Framed) : List UInt8 := f.head.bytes (body f.value).length ++ body f.value

theorem lt_size_of_le_maxBody {size : Nat} (h : size ≤ maxBody) : size < UInt64.size :=
  Nat.lt_of_le_of_lt h (by decide)

section ReadAll

variable {bytes rest : List UInt8} {v : Json}

theorem readAll_of_message (h : read bytes = .ok (some (v, rest))) :
    readAll bytes = (v :: (readAll rest).1, (readAll rest).2) := by
  rw [readAll]
  split
  · next he => simp [h] at he
  · next he => simp [h] at he
  · next he =>
    simp only [h, Except.ok.injEq, Option.some.injEq, Prod.mk.injEq] at he
    obtain ⟨rfl, rfl⟩ := he
    rfl

theorem readAll_of_end (h : read bytes = .ok none) : readAll bytes = ([], none) := by
  rw [readAll]
  split
  · next he => simp [h] at he
  · rfl
  · next he => simp [h] at he

theorem readAll_of_error {e : StreamError} (h : read bytes = .error e) :
    readAll bytes = ([], some e) := by
  rw [readAll]
  split
  · next he => rw [Except.error.inj (h.symm.trans he)]
  · next he => simp [h] at he
  · next he => simp [h] at he

theorem read_nil : read [] = .ok none := by
  rw [read, head, dif_pos rfl]

/-- A frame is read to its last byte, and no further. -/
theorem read_framed (f : Framed) (hs : Sendable f.value) (rest : List UInt8) :
    read (f.bytes ++ rest) = .ok (some (f.value, rest)) := by
  rw [Framed.bytes, List.append_assoc, read, head_bytes f.head (lt_size_of_le_maxBody hs.fits)]
  simp only [List.take_left', List.drop_left', lt_irrefl, if_false, Nat.not_lt_of_le hs.fits]
  rw [body, Json.ofBytes?_text hs.plain]

/-- A head that announces more than fits into memory ends the reading. -/
theorem readAll_oversized (h : Head) {size : Nat} (hlt : maxBody < size) (hs : size < UInt64.size)
    (rest : List UInt8) : readAll (h.bytes size ++ rest) = ([], some .oversizedBody) := by
  refine readAll_of_error ?_
  rw [read, head_bytes h hs]
  simp only [if_pos hlt]

theorem readAll_append (fs : List Framed) (hs : ∀ f ∈ fs, Sendable f.value) (rest : List UInt8) :
    readAll (fs.flatMap Framed.bytes ++ rest)
      = (fs.map (·.value) ++ (readAll rest).1, (readAll rest).2) := by
  induction fs with
  | nil => rfl
  | cons f fs ih =>
    obtain ⟨hf, hs⟩ := List.forall_mem_cons.mp hs
    rw [List.flatMap_cons, List.append_assoc, readAll_of_message (read_framed f hf _), ih hs]
    rfl

end ReadAll

/-- The line of a head that announces a length. -/
def headLine (size : Nat) : List UInt8 :=
  Utf8.encode ("Content-Length: " ++ .ofList (Decimal.digits size) ++ "\r\n")

/-- The head as it is usually written. -/
def Head.usual : Head :=
  { blanks := []
    before := []
    length :=
      { name := "Content-Length".toList
        beforeName := []
        afterName := []
        beforeSize := [' ']
        afterSize := []
        lineEnd := .crlf
        anyCase := by decide
        blank := by simp [isBlank] }
    after := []
    lineEnd := .crlf }

theorem bytes_usual_length (size : Nat) : Head.usual.length.bytes size = headLine size := by
  simp only [LengthLine.bytes, lineBytes, Head.usual, LengthLine.text, LineEnd.mark, headLine]
  simp [Utf8.encode_eq_flatMap]
  rfl

theorem ofJson_eq_append (v : Json) :
    ofJson v = headLine (body v).length ++ ([13, 10] ++ body v) := by
  have hend : Utf8.encode "\r\n\r\n" = Utf8.encode "\r\n" ++ [13, 10] := by decide
  rw [ofJson, headLine, Utf8.encode_append, Utf8.encode_append _ "\r\n", hend]
  simp only [List.append_assoc]
  rfl

theorem ofJson_eq_bytes (v : Json) : ofJson v = (⟨.usual, v⟩ : Framed).bytes := by
  have hblank : lineBytes "" .crlf = [13, 10] := by decide
  rw [ofJson_eq_append, Framed.bytes, Head.bytes, bytes_usual_length]
  simp [Head.usual, hblank]

/-- Frames put their messages into the queue, and then the end. -/
theorem ofStream_frames {vs : List Json} (hs : ∀ v ∈ vs, Sendable v) :
    Inbound.ofStream (vs.flatMap ofJson) = vs.map .message ++ [.closed] := by
  have hread := readAll_append (vs.map fun v => ⟨.usual, v⟩) (by simpa using hs) []
  rw [List.flatMap_map, List.append_nil, readAll_of_end read_nil, List.map_map,
    List.append_nil] at hread
  simp only [← ofJson_eq_bytes, Function.comp_def, List.map_id'] at hread
  rw [Inbound.ofStream, hread]
  rfl

/-- Reading undoes writing. The messages of a stream are read in order, and then its end, with any
heads that a server may write before them, and with the usual ones. -/
theorem readAll_framed (fs : List Framed) (hs : ∀ f ∈ fs, Sendable f.value) :
    readAll (fs.flatMap Framed.bytes) = (fs.map (·.value), none) ∧
      readAll ((fs.map (·.value)).flatMap ofJson) = (fs.map (·.value), none) := by
  have hread : ∀ gs : List Framed, (∀ f ∈ gs, Sendable f.value) →
      readAll (gs.flatMap Framed.bytes) = (gs.map (·.value), none) := by
    intro gs hgs
    have h := readAll_append gs hgs []
    rwa [readAll_of_end read_nil, List.append_nil, List.append_nil] at h
  refine ⟨hread fs hs, ?_⟩
  -- The usual frames are those of the same messages under the usual head.
  have husual := hread (fs.map fun f => ⟨.usual, f.value⟩) (by simpa using hs)
  rw [List.flatMap_map, List.map_map] at husual
  rw [List.flatMap_map]
  simpa only [Function.comp_def, ofJson_eq_bytes] using husual

section Sample

/-- A head with all that a head may have. -/
def sampleHead : Head :=
  { blanks := [.lf, .crlf]
    before := [⟨"Content-Type: text/plain\r", .lf, by decide, ⟨'C', by decide⟩, by decide⟩]
    length :=
      { name := "cOnTeNt-LENGTH".toList
        beforeName := ['\t', ' ']
        afterName := ['\u00a0']
        beforeSize := []
        afterSize := [' ', '\r']
        lineEnd := .lf
        anyCase := by decide
        blank := by simp [isBlank] }
    after := [⟨"Content-Length", .crlf, by decide, ⟨'C', by decide⟩, by decide⟩]
    lineEnd := .lf }

/-- A message with all kinds of values that is longer in bytes than in characters. -/
def sampleMessage : Json :=
  .object [("a", .array [.number (.integer ⟨-7, by decide, by decide⟩), .bool true]),
    ("é", .string "\n👋")]

theorem sendable_sampleMessage : Sendable sampleMessage := by
  have harray :
      (Json.array [.number (.integer ⟨-7, by decide, by decide⟩), .bool true]).Plain 126 := by
    refine .array ?_
    rintro v (_ | ⟨_, _ | ⟨_, ⟨⟩⟩⟩)
    · exact .integer _ _
    · exact .bool _ _
  have hlt : "a" < "é" := by decide
  have hplain : sampleMessage.Plain Json.Reader.maxLevels := by
    refine .object (List.pairwise_pair.mpr hlt) ?_
    rintro p (_ | ⟨_, _ | ⟨_, ⟨⟩⟩⟩)
    · exact harray
    · exact .string _ _
  exact ⟨hplain, by decide +kernel⟩

theorem sendable_null : Sendable .null := ⟨.null _, by decide⟩

theorem length_ofJson_null : (ofJson .null).length = 26 := by decide +kernel

theorem length_headLine_null : (headLine (body .null).length).length = 19 := by decide +kernel

end Sample

theorem readAll_sampleFrames :
    (∀ f ∈ [(⟨sampleHead, sampleMessage⟩ : Framed), ⟨.usual, .null⟩], Sendable f.value) ∧
      readAll ((⟨sampleHead, sampleMessage⟩ : Framed).bytes ++ ofJson .null)
        = ([sampleMessage, .null], none) := by
  have hs : ∀ f ∈ [(⟨sampleHead, sampleMessage⟩ : Framed), ⟨.usual, .null⟩], Sendable f.value := by
    simp [sendable_sampleMessage, sendable_null]
  refine ⟨hs, ?_⟩
  have h := (readAll_framed _ hs).1
  simpa [ofJson_eq_bytes] using h

/-- What a cut after some bytes leaves of a stream of frames: the messages whose frames are whole,
and, if the cut falls into a frame, its message and the bytes that are left of it. -/
def cut (n : Nat) : List Json → List Json × Option (Json × Nat)
  | [] => ([], none)
  | v :: vs =>
    if (ofJson v).length ≤ n then
      let more := cut (n - (ofJson v).length) vs
      (v :: more.1, more.2)
    else ([], if n = 0 then none else some (v, n))

section Cut

variable {v : Json} {n size : Nat} {length : Option Nat} {rest : List UInt8}

theorem head_nil (started : Bool) (length : Option Nat) : head started length [] = .ok none := by
  rw [head, dif_pos rfl]

/-- The line of a head that announces a length is in ASCII, and its line feed is at its end. -/
theorem exists_headLine_eq (size : Nat) :
    ∃ text : String, (∀ c ∈ text.toList, c.toNat < 128 ∧ c ≠ '\n') ∧
      headLine size = Utf8.encode text ++ [10] := by
  have hname : ∀ c ∈ "Content-Length: ".toList, c.toNat < 128 ∧ c ≠ '\n' := by simp
  have hmark : ∀ c ∈ "\r".toList, c.toNat < 128 ∧ c ≠ '\n' := by simp
  have hend : Utf8.encode "\r\n" = Utf8.encode "\r" ++ [10] := by decide
  have hdigits : ∀ c ∈ (String.ofList (Decimal.digits size)).toList,
      c.toNat < 128 ∧ c ≠ '\n' := by
    intro c hc
    rw [String.toList_ofList] at hc
    have hd := Decimal.isDigit_of_mem_digits hc
    simp only [Decimal.isDigit, Bool.and_eq_true, decide_eq_true_eq] at hd
    have hlow : 48 ≤ c.toNat := hd.1
    have hhigh : c.toNat ≤ 57 := hd.2
    refine ⟨by omega, ?_⟩
    rintro rfl
    exact absurd hlow (by decide)
  refine ⟨"Content-Length: " ++ .ofList (Decimal.digits size) ++ "\r", ?_, ?_⟩
  · rw [String.toList_append, String.toList_append]
    exact List.forall_mem_append.mpr ⟨List.forall_mem_append.mpr ⟨hname, hdigits⟩, hmark⟩
  · rw [headLine, Utf8.encode_append, Utf8.encode_append _ "\r", hend, List.append_assoc]

/-- A stream that ends inside the first line of a head seems to end before it. -/
theorem head_take_headLine (h : n ≤ (headLine size).length) (hs : size < UInt64.size) :
    head false none ((headLine size).take n) = .ok none := by
  rcases Nat.lt_or_eq_of_le h with hlt | rfl
  · obtain ⟨text, htext, hline⟩ := exists_headLine_eq size
    have hascii : ∀ c ∈ text.toList, c.toNat < 128 := fun c hc => (htext c hc).1
    rw [hline, List.length_append, List.length_singleton] at hlt
    rw [hline, List.take_append_of_le_length (by omega)]
    cases n with
    | zero => exact head_nil false none
    | succ n =>
      have hne : (Utf8.encode text).take (n + 1) ≠ [] :=
        List.ne_nil_of_length_pos (by rw [List.length_take]; omega)
      have hlast : '\n' ∉ (String.ofList (text.toList.take (n + 1))).toList := by
        rw [String.toList_ofList]
        exact fun hmem => (htext _ (List.mem_of_mem_take hmem)).2 rfl
      rw [Utf8.encode_take hascii] at hne ⊢
      rw [head_of_cutLine hne (cutLine_of_last hlast)]
      simp only [head_nil, Bool.false_eq_true, if_false, ite_self]
  · have hline := @head_lengthLine false none size Head.usual.length hs []
    rwa [bytes_usual_length, List.append_nil, head_nil, ← @List.take_length _ (headLine size)]
      at hline

/-- A stream that ends after the first line of a head gives no whole body. -/
theorem read_headLine_append (hs : size ≤ maxBody) {bytes : List UInt8}
    (hb : bytes.length = size) (h0 : 0 < size) (h : n < size + 1) :
    read (headLine size ++ ([13, 10] ++ bytes).take (n + 1)) = .error .truncatedBody := by
  have hrest : ∃ rest, rest.length < size ∧
      head true (some size) (([13, 10] ++ bytes).take (n + 1)) = .ok (some (some size, rest)) := by
    cases n with
    | zero =>
      have hcr : ([13] : List UInt8) = Utf8.encode "\r" := by decide
      refine ⟨[], h0, ?_⟩
      change head true (some size) [13] = _
      rw [hcr, head_of_cutLine (by decide) (cutLine_of_last (by decide))]
      rfl
    | succ n =>
      refine ⟨bytes.take n, by rw [List.length_take]; omega, ?_⟩
      exact head_blank .crlf (bytes.take n)
  obtain ⟨rest, hlt, hhead⟩ := hrest
  rw [read, ← bytes_usual_length, head_lengthLine _ (lt_size_of_le_maxBody hs), hhead]
  simp only
  rw [if_neg (Nat.not_lt_of_le hs), if_pos (by rw [List.length_take]; omega)]

theorem read_take_ofJson (hs : Sendable v) (h : n < (ofJson v).length) :
    read ((ofJson v).take n)
      = if n ≤ (headLine (body v).length).length then .ok none else .error .truncatedBody := by
  rw [ofJson_eq_append] at h ⊢
  simp only [List.length_append] at h
  split
  · next hn =>
    rw [read, List.take_append_of_le_length hn, head_take_headLine hn
      (lt_size_of_le_maxBody hs.fits)]
  · next hn =>
    obtain ⟨m, rfl⟩ := Nat.exists_eq_add_of_lt (Nat.lt_of_not_le hn)
    rw [List.take_append, List.take_of_length_le (by omega)]
    have hpos : 0 < (body v).length := by simp [body]
    simp only [List.length_cons, List.length_nil] at h
    have hm : (headLine (body v).length).length + m + 1 - (headLine (body v).length).length
        = m + 1 := by omega
    rw [hm]
    exact read_headLine_append hs.fits rfl hpos (by omega)

end Cut

/-- Of a stream that is cut off anywhere, the messages are read whose frames are whole. It ends in
an error if the cut falls behind the first line of a head, but not if it falls into that line. -/
theorem readAll_take (vs : List Json) (hs : ∀ v ∈ vs, Sendable v) (n : Nat) :
    readAll ((vs.flatMap ofJson).take n) = ((cut n vs).1, (cut n vs).2.bind fun p =>
      if p.2 ≤ (headLine (body p.1).length).length then none else some .truncatedBody) := by
  induction vs generalizing n with
  | nil => rw [List.flatMap_nil, List.take_nil, readAll_of_end read_nil]; rfl
  | cons v vs ih =>
    obtain ⟨hv, hs⟩ := List.forall_mem_cons.mp hs
    rw [List.flatMap_cons, cut]
    split
    · next hn =>
      rw [List.take_append, List.take_of_length_le hn, ofJson_eq_bytes,
        readAll_of_message (read_framed ⟨.usual, v⟩ hv _), ← ofJson_eq_bytes, ih hs]
    · next hn =>
      rw [List.take_append_of_le_length (by omega)]
      have hread := read_take_ofJson hv (Nat.lt_of_not_le hn)
      split
      · next h0 => rw [h0, List.take_zero, readAll_of_end read_nil]; rfl
      · next h0 =>
        split at hread
        · next hle => rw [readAll_of_end hread]; simp [hle]
        · next hle => rw [readAll_of_error hread]; simp [hle]

theorem readAll_take_nulls :
    (∀ v ∈ [Json.null, .null], Sendable v) ∧
      readAll (([Json.null, .null].flatMap ofJson).take 47) = ([.null], some .truncatedBody) := by
  have hs : ∀ v ∈ [Json.null, .null], Sendable v := by simp [sendable_null]
  have hcut : cut 47 [Json.null, .null] = ([.null], some (.null, 21)) := by
    simp [cut, length_ofJson_null]
  refine ⟨hs, (readAll_take _ hs 47).trans ?_⟩
  simp only [hcut, Option.bind_some, length_headLine_null]
  rfl

/-- The end of a stream inside a head is taken for a clean end. -/
theorem cut_in_head_ends_clean :
    Sendable .null ∧ cut 19 [.null] = ([], some (.null, 19)) ∧
      readAll (([Json.null].flatMap ofJson).take 19) = ([], none) := by
  have hread := read_take_ofJson sendable_null (n := 19) (by rw [length_ofJson_null]; decide)
  rw [length_headLine_null, if_pos le_rfl] at hread
  rw [List.flatMap_singleton]
  exact ⟨sendable_null, by simp [cut, length_ofJson_null], readAll_of_end hread⟩

end BufferCheck.Server.Frame
