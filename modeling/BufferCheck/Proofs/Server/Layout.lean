import BufferCheck.Proofs.Fields
import BufferCheck.Proofs.Json.Shape
import BufferCheck.Server.Message
import Mathlib.Data.List.Nodup
import Mathlib.Tactic.MkIffOfInductiveProp

/-! How messages of the server may be laid out. A message is read from the members it has, not from
how they are laid out: in an object by their names, with any others beside them, or in a list by
their places, the last of them left out or not. -/
namespace BufferCheck.Server
open Json

/-- The members of a response in the order of a list. -/
def Response.names : List String := ["request_seq", "success", "command", "message", "body"]

/-- The members of an event in the order of a list. -/
def Event.names : List String := ["event", "body"]

/-- A value is a message of a type, with these members. An object may have any other members too; a
list has the type before the members, and may end before the last. -/
inductive LaidOut (kind : String) (names : List String) : Json → Fields Json → Prop
  | object {fields : Fields Json} (h : fields.find? "type" = some (.string kind)) :
      LaidOut kind names (.object fields) fields
  | list {items : List Json} (h : items.length ≤ names.length) :
      LaidOut kind names (.array (.string kind :: items)) (names.zip items)

/-- Members tell a response. A missing command is the empty one; a missing message or body is none,
and so is one that is null. -/
@[mk_iff told_iff]
structure Response.Told (r : Response) (members : Fields Json) : Prop where
  requestSeq : (members.find? "request_seq").bind asNat? = some r.requestSeq
  success : members.find? "success" = some (.bool r.success)
  command : (members.find? "command").getD (.string "") = .string r.command
  message : given (members.find? "message") = r.message.map .string
  body : given (members.find? "body") = r.body

/-- Members tell an event. -/
@[mk_iff told_iff]
structure Event.Told (name : String) (body : Option Json) (members : Fields Json) : Prop where
  name : members.find? "event" = some (.string name)
  body : given (members.find? "body") = body

/-- What a value says as a message. -/
inductive Says : Json → Message → Prop
  | response {v : Json} {members : Fields Json} {r : Response}
      (hl : LaidOut "response" Response.names v members) (ht : r.Told members) :
      Says v (.response r)
  | event {v : Json} {members : Fields Json} {name : String} {body : Option Json}
      (hl : LaidOut "event" Event.names v members) (ht : Event.Told name body members) :
      Says v (.event name body)
  | other {v : Json} {members : Fields Json} {kind : String} (hl : LaidOut kind [] v members)
      (hr : kind ≠ "response") (he : kind ≠ "event") : Says v .other

/-- The members of a response as they are stored, in the order of a list. -/
def Response.values (r : Response) : List Json :=
  [.ofNat r.requestSeq, .bool r.success, .string r.command, (r.message.map .string).getD .null,
    r.body.getD .null]

/-- The members of an event as they are stored, in the order of a list. -/
def Event.values (name : String) (body : Option Json) : List Json :=
  [.string name, body.getD .null]

/-- The first members of a response tell all of it: those behind them have their defaults. -/
structure Response.Within (r : Response) (k : Nat) : Prop where
  required : 2 ≤ k
  command : k ≤ 2 → r.command = ""
  message : k ≤ 3 → r.message = none
  body : k ≤ 4 → r.body = none

/-- The first members of an event tell all of it. -/
structure Event.Within (body : Option Json) (k : Nat) : Prop where
  required : 1 ≤ k
  body : k ≤ 1 → body = none

variable {fields : Fields Json} {items : List Json} {v : Json} {r : Response} {name kind : String}
  {names : List String} {body : Option Json} {m : Message}

/-- In a list a member is found at its place. -/
theorem find?_zip {i : Nat} (hnodup : names.Nodup) (h : names[i]? = some name) :
    Fields.find? name (names.zip items) = items[i]? := by
  induction names generalizing i items with
  | nil => simp at h
  | cons first names ih =>
    obtain ⟨hfirst, hnodup⟩ := List.nodup_cons.mp hnodup
    cases items with
    | nil => simp [Fields.find?]
    | cons item items =>
      rw [List.zip_cons_cons, Fields.find?]
      cases i with
      | zero =>
        obtain rfl := Option.some.inj h
        rw [if_pos rfl]
        rfl
      | succ i =>
        have hmem : name ∈ names := List.mem_of_getElem? h
        rw [if_neg (ne_of_mem_of_not_mem hmem hfirst).symm]
        exact ih hnodup h

namespace Message
open Shape

section Fields

theorem join_eq_getD {α : Type} (o : Option (Option α)) : o.join = o.getD none := by
  cases o <;> rfl

theorem responseOfFields_eq_ok_iff : responseOfFields fields = .ok r ↔ r.Told fields := by
  simp only [responseOfFields, bind_eq_ok_iff, pure, Except.pure, Except.ok.injEq]
  constructor
  · rintro ⟨body, hbody, command, hcommand, message, hmessage, seq, hseq, success, hsuccess, n, hn,
      b, hb, rfl⟩
    exact
      { requestSeq := reads_u64_iff.mp (present?_required_iff.mp ⟨_, hseq, hn⟩)
        success := reads_boolean_iff.mp (present?_required_iff.mp ⟨_, hsuccess, hb⟩)
        command := readsOr_string_iff.mp (present?_getD_iff.mp ⟨_, hcommand, rfl⟩)
        message := readsOr_nullable_string_iff.mp
          (present?_getD_iff.mp ⟨_, hmessage, (join_eq_getD _).symm⟩)
        body := readsOr_anything_iff.mp (present?_getD_iff.mp ⟨_, hbody, (join_eq_getD _).symm⟩) }
  · rintro ⟨hseq, hsuccess, hcommand, hmessage, hbody⟩
    obtain ⟨seq, hseq, hn⟩ := present?_required_iff.mpr (reads_u64_iff.mpr hseq)
    obtain ⟨success, hsuccess, hb⟩ := present?_required_iff.mpr (reads_boolean_iff.mpr hsuccess)
    obtain ⟨command, hcommand, hc⟩ := present?_getD_iff.mpr (readsOr_string_iff.mpr hcommand)
    obtain ⟨message, hmessage, hm⟩ :=
      present?_getD_iff.mpr (readsOr_nullable_string_iff.mpr hmessage)
    obtain ⟨body, hbody, hbd⟩ := present?_getD_iff.mpr (readsOr_anything_iff.mpr hbody)
    refine ⟨body, hbody, command, hcommand, message, hmessage, seq, hseq, success, hsuccess, _, hn,
      _, hb, ?_⟩
    rw [join_eq_getD, join_eq_getD, hc, hm, hbd]

theorem eventOfFields_eq_ok_iff : eventOfFields fields = .ok m ↔
    ∃ name body, m = .event name body ∧ Event.Told name body fields := by
  simp only [eventOfFields, bind_eq_ok_iff, pure, Except.pure, Except.ok.injEq]
  constructor
  · rintro ⟨body, hbody, name, hname, n, hn, rfl⟩
    exact ⟨n, body.join, rfl, reads_string_iff.mp (present?_required_iff.mp ⟨_, hname, hn⟩),
      readsOr_anything_iff.mp (present?_getD_iff.mp ⟨_, hbody, (join_eq_getD _).symm⟩)⟩
  · rintro ⟨name, body, rfl, hname, hbody⟩
    obtain ⟨found, hname, hn⟩ := present?_required_iff.mpr (reads_string_iff.mpr hname)
    obtain ⟨body, hbody, hb⟩ := present?_getD_iff.mpr (readsOr_anything_iff.mpr hbody)
    exact ⟨body, hbody, found, hname, _, hn, by rw [join_eq_getD, hb]⟩

end Fields

section Items

theorem responseTold_zip_iff : r.Told (Response.names.zip items) ↔
    Reads u64 items[0]? r.requestSeq ∧ Reads boolean items[1]? r.success ∧
      ReadsOr "" string items[2]? r.command ∧
      ReadsOr none (nullable string) items[3]? r.message ∧
      ReadsOr none anything items[4]? r.body := by
  have hat : ∀ (i : Nat) (name : String), Response.names[i]? = some name →
      Fields.find? name (Response.names.zip items) = items[i]? := fun _ _ => find?_zip (by decide)
  have hseq := hat 0 "request_seq" rfl
  have hsuccess := hat 1 "success" rfl
  have hcommand := hat 2 "command" rfl
  have hmessage := hat 3 "message" rfl
  have hbody := hat 4 "body" rfl
  rw [Response.told_iff, hseq, hsuccess, hcommand, hmessage, hbody, reads_u64_iff,
    reads_boolean_iff, readsOr_string_iff, readsOr_nullable_string_iff, readsOr_anything_iff]

theorem eventTold_zip_iff : Event.Told name body (Event.names.zip items) ↔
    Reads string items[0]? name ∧ ReadsOr none anything items[1]? body := by
  have hname : Fields.find? "event" (Event.names.zip items) = items[0]? := find?_zip (by decide) rfl
  have hbody : Fields.find? "body" (Event.names.zip items) = items[1]? := find?_zip (by decide) rfl
  rw [Event.told_iff, hname, hbody, reads_string_iff, readsOr_anything_iff]

theorem responseOfItems_eq_ok_iff : responseOfItems items = .ok r ↔
    items.length ≤ Response.names.length ∧ r.Told (Response.names.zip items) := by
  rw [responseTold_zip_iff]
  simp only [responseOfItems, bind_eq_ok_iff, Prod.exists, next_eq_ok_iff, nextOr_eq_ok_iff,
    pure, Except.pure, Except.ok.injEq]
  constructor
  · rintro ⟨n, _, ⟨hseq, rfl⟩, b, _, ⟨hsuccess, rfl⟩, command, _, ⟨hcommand, rfl⟩, message, _,
      ⟨hmessage, rfl⟩, body, _, ⟨hbody, rfl⟩, _, hdone, rfl⟩
    simp only [List.drop_drop, List.getElem?_drop] at hsuccess hcommand hmessage hbody
    have hlength := done_eq_ok_iff.mp hdone
    simp only [List.drop_drop, List.drop_eq_nil_iff] at hlength
    exact ⟨hlength, hseq, hsuccess, hcommand, hmessage, hbody⟩
  · rintro ⟨hlength, hseq, hsuccess, hcommand, hmessage, hbody⟩
    refine ⟨_, _, ⟨hseq, rfl⟩, r.success, _, ⟨?_, rfl⟩, r.command, _, ⟨?_, rfl⟩, r.message, _,
      ⟨?_, rfl⟩, r.body, _, ⟨?_, rfl⟩, (), done_eq_ok_iff.mpr ?_, rfl⟩
    all_goals simp only [List.drop_drop, List.getElem?_drop, List.drop_eq_nil_iff]
    · exact hsuccess
    · exact hcommand
    · exact hmessage
    · exact hbody
    · exact hlength

theorem eventOfItems_eq_ok_iff : eventOfItems items = .ok m ↔
    ∃ name body, m = .event name body ∧ items.length ≤ Event.names.length ∧
      Event.Told name body (Event.names.zip items) := by
  simp only [eventTold_zip_iff, eventOfItems, bind_eq_ok_iff, Prod.exists, next_eq_ok_iff,
    nextOr_eq_ok_iff, pure, Except.pure, Except.ok.injEq]
  constructor
  · rintro ⟨name, _, ⟨hname, rfl⟩, body, _, ⟨hbody, rfl⟩, _, hdone, rfl⟩
    simp only [List.getElem?_drop] at hbody
    have hlength := done_eq_ok_iff.mp hdone
    simp only [List.drop_drop, List.drop_eq_nil_iff] at hlength
    exact ⟨name, body, rfl, hlength, hname, hbody⟩
  · rintro ⟨name, body, rfl, hlength, hname, hbody⟩
    refine ⟨name, _, ⟨hname, rfl⟩, body, _, ⟨?_, rfl⟩, (), done_eq_ok_iff.mpr ?_, rfl⟩
    all_goals simp only [List.drop_drop, List.getElem?_drop, List.drop_eq_nil_iff]
    · exact hbody
    · exact hlength

end Items

section Kinds

theorem ofJson_object (h : fields.find? "type" = some (.string kind)) :
    ofJson (.object fields) =
      if kind = "response" then (responseOfFields fields).map .response
      else if kind = "event" then eventOfFields fields else .ok .other := by
  have hkind : Message.kind (.object fields) = .ok kind := by rw [Message.kind, h]
  rw [ofJson, hkind]
  rfl

theorem ofJson_list : ofJson (.array (.string kind :: items)) =
      if kind = "response" then (responseOfItems items).map .response
      else if kind = "event" then eventOfItems items else (done items).map fun _ => .other := rfl

/-- A value that is a message has a type. -/
theorem exists_kind_of_ofJson (h : ofJson v = .ok m) :
    (∃ kind fields, v = .object fields ∧ Fields.find? "type" fields = some (.string kind)) ∨
      ∃ kind items, v = .array (.string kind :: items) := by
  obtain ⟨kind, hkind, -⟩ := bind_eq_ok_iff.mp h
  unfold Message.kind at hkind
  split at hkind
  · next fields =>
    split at hkind
    · cases hkind
    · next hs => exact .inl ⟨_, fields, rfl, hs⟩
    · cases hkind
  · cases hkind
  · next s items => exact .inr ⟨s, items, rfl⟩
  · cases hkind
  · cases hkind

/-- What a value is decoded to, it says. -/
theorem says_of_ofJson (h : ofJson v = .ok m) : Says v m := by
  obtain ⟨kind, fields, rfl, hs⟩ | ⟨kind, items, rfl⟩ := exists_kind_of_ofJson h
  · rw [ofJson_object hs] at h
    split at h
    · next hk =>
      obtain ⟨r, hr, rfl⟩ := map_eq_ok_iff.mp h
      exact .response (.object (hk ▸ hs)) (responseOfFields_eq_ok_iff.mp hr)
    · next hr =>
      split at h
      · next hk =>
        obtain ⟨name, body, rfl, ht⟩ := eventOfFields_eq_ok_iff.mp h
        exact .event (.object (hk ▸ hs)) ht
      · next he => exact Except.ok.inj h ▸ .other (.object hs) hr he
  · rw [ofJson_list] at h
    split at h
    · next hk =>
      obtain ⟨r, hr, rfl⟩ := map_eq_ok_iff.mp h
      obtain ⟨hlength, ht⟩ := responseOfItems_eq_ok_iff.mp hr
      exact .response (hk ▸ .list hlength) ht
    · next hr =>
      split at h
      · next hk =>
        obtain ⟨name, body, rfl, hlength, ht⟩ := eventOfItems_eq_ok_iff.mp h
        exact .event (hk ▸ .list hlength) ht
      · next he =>
        obtain ⟨_, hdone, rfl⟩ := map_eq_ok_iff.mp h
        obtain rfl := done_eq_ok_iff.mp hdone
        exact .other (.list (Nat.le_refl 0)) hr he

theorem ofJson_of_says (h : Says v m) : ofJson v = .ok m := by
  cases h with
  | response hl ht =>
    cases hl with
    | object hs => rw [ofJson_object hs, if_pos rfl, responseOfFields_eq_ok_iff.mpr ht]; rfl
    | list hlength =>
      rw [ofJson_list, if_pos rfl, responseOfItems_eq_ok_iff.mpr ⟨hlength, ht⟩]
      rfl
  | event hl ht =>
    cases hl with
    | object hs =>
      rw [ofJson_object hs, if_neg (by decide), if_pos rfl]
      exact eventOfFields_eq_ok_iff.mpr ⟨_, _, rfl, ht⟩
    | list hlength =>
      rw [ofJson_list, if_neg (by decide), if_pos rfl]
      exact eventOfItems_eq_ok_iff.mpr ⟨_, _, rfl, hlength, ht⟩
  | other hl hr he =>
    cases hl with
    | object hs => rw [ofJson_object hs, if_neg hr, if_neg he]
    | list hlength =>
      obtain rfl := List.length_eq_zero_iff.mp (Nat.le_zero.mp hlength)
      rw [ofJson_list, if_neg hr, if_neg he]
      rfl

end Kinds

end Message

section Stored

variable {extra members : Fields Json} {values : List Json} {eventName : String}

/-- An object with the members of a message, put over any others. -/
def storedObject (kind : String) (names : List String) (values : List Json)
    (extra : Fields Json) : Fields Json :=
  extra.extend (("type", .string kind) :: names.zip values)

/-- Members that are put over others are found, whatever the others are. -/
theorem find?_storedObject (hlength : names.length = values.length)
    (hnodup : ("type" :: names).Nodup) :
    (storedObject kind names values extra).find? "type" = some (.string kind) ∧
      ∀ (i : Nat) (name : String), names[i]? = some name →
        (storedObject kind names values extra).find? name = values[i]? := by
  have hmap : ((("type", Json.string kind) :: names.zip values).map (·.1)).Nodup := by
    rwa [List.map_cons, List.map_fst_zip hlength.le]
  have hfind : ∀ name, (storedObject kind names values extra).find? name
      = (Fields.find? name (("type", .string kind) :: names.zip values)).or (extra.find? name) :=
    fun _ => Fields.find?_extend hmap
  obtain ⟨htype, hnames⟩ := List.nodup_cons.mp hnodup
  refine ⟨(hfind "type").trans ?_, fun i name hname => (hfind name).trans ?_⟩
  · rw [Fields.find?, if_pos rfl, Option.some_or]
  · have hne : "type" ≠ name := (ne_of_mem_of_not_mem (List.mem_of_getElem? hname) htype).symm
    have hi : i < values.length := hlength ▸ (List.getElem?_eq_some_iff.mp hname).1
    rw [Fields.find?, if_neg hne, find?_zip hnames hname, List.getElem?_eq_getElem hi,
      Option.some_or]

theorem Response.told_of_find? {k : Nat} (hseq : r.requestSeq < UInt64.size)
    (hbody : r.body ≠ some .null) (hk : r.Within k)
    (h : ∀ (i : Nat) (name : String), Response.names[i]? = some name →
      members.find? name = (r.values.take k)[i]?) : r.Told members := by
  obtain ⟨hrequired, hcommand, hmessage, hnone⟩ := hk
  simp only [List.getElem?_take] at h
  refine ⟨?_, ?_, ?_, ?_, ?_⟩
  · rw [h 0 "request_seq" rfl, if_pos (by omega)]
    exact asNat?_ofNat hseq
  · rw [h 1 "success" rfl, if_pos (by omega)]
    rfl
  · rw [h 2 "command" rfl]
    split
    · rfl
    · rw [hcommand (by omega)]
      rfl
  · rw [h 3 "message" rfl]
    split
    · change given (some ((r.message.map .string).getD .null)) = _
      cases r.message <;> rfl
    · rw [hmessage (by omega)]
      rfl
  · rw [h 4 "body" rfl]
    split
    · exact given_getD hbody
    · rw [hnone (by omega)]
      rfl

theorem Event.told_of_find? {k : Nat} (hbody : body ≠ some .null) (hk : Event.Within body k)
    (h : ∀ (i : Nat) (name : String), Event.names[i]? = some name →
      members.find? name = ((Event.values eventName body).take k)[i]?) :
    Event.Told eventName body members := by
  obtain ⟨hrequired, hnone⟩ := hk
  simp only [List.getElem?_take] at h
  refine ⟨?_, ?_⟩
  · rw [h 0 "event" rfl, if_pos (by omega)]
    rfl
  · rw [h 1 "body" rfl]
    split
    · exact given_getD hbody
    · rw [hnone (by omega)]
      rfl

end Stored

/-- A value is decoded to exactly the message that it says, however it is laid out. Each response
and each event can be said by an object with any other members beside its own, and by a list, from
which members with their defaults may be left out at the end. -/
theorem Message.ofJson_layouts :
    (∀ (v : Json) (m : Message), ofJson v = .ok m ↔ Says v m) ∧
    (∀ r : Response, r.requestSeq < UInt64.size → r.body ≠ some .null →
      (∀ extra : Fields Json,
        ofJson (.object (storedObject "response" Response.names r.values extra))
          = .ok (.response r)) ∧
      ∀ k, r.Within k →
        ofJson (.array (.string "response" :: r.values.take k)) = .ok (.response r)) ∧
    ∀ (name : String) (body : Option Json), body ≠ some .null →
      (∀ extra : Fields Json,
        ofJson (.object (storedObject "event" Event.names (Event.values name body) extra))
          = .ok (.event name body)) ∧
      ∀ k, Event.Within body k →
        ofJson (.array (.string "event" :: (Event.values name body).take k))
          = .ok (.event name body) := by
  refine ⟨fun _ _ => ⟨says_of_ofJson, ofJson_of_says⟩,
    fun r hseq hbody => ⟨fun extra => ?_, fun k hk => ?_⟩,
    fun name body hbody => ⟨fun extra => ?_, fun k hk => ?_⟩⟩
  · obtain ⟨htype, hfind⟩ :=
      @find?_storedObject "response" Response.names extra r.values rfl (by decide)
    have hall : r.Within 5 := ⟨by decide, nofun, nofun, nofun⟩
    exact ofJson_of_says
      (.response (.object htype) (Response.told_of_find? hseq hbody hall hfind))
  · have hlength : (r.values.take k).length ≤ Response.names.length := List.length_take_le' ..
    exact ofJson_of_says (.response (.list hlength)
      (Response.told_of_find? hseq hbody hk fun _ _ => find?_zip (by decide)))
  · obtain ⟨htype, hfind⟩ :=
      @find?_storedObject "event" Event.names extra (Event.values name body) rfl (by decide)
    have hall : Event.Within body 2 := ⟨by decide, nofun⟩
    exact ofJson_of_says
      (.event (.object htype) (Event.told_of_find? hbody hall hfind))
  · have hlength : ((Event.values name body).take k).length ≤ Event.names.length :=
      List.length_take_le' ..
    exact ofJson_of_says (.event (.list hlength)
      (Event.told_of_find? hbody hk fun _ _ => find?_zip (by decide)))

/-- Success without a command, a message or a body. -/
def sampleSuccess : Response where
  requestSeq := 7
  success := true

/-- The response can be cut after its second member, and null stands for what it does not have. -/
theorem Message.ofJson_sampleSuccess :
    ofJson (.array [.string "response", .ofNat 7, .bool true]) = .ok (.response sampleSuccess) ∧
    ∀ extra : Fields Json,
      ofJson (.object (extra.extend [("type", .string "response"), ("request_seq", .ofNat 7),
        ("success", .bool true), ("command", .string ""), ("message", .null), ("body", .null)]))
        = .ok (.response sampleSuccess) := by
  obtain ⟨hobject, hlist⟩ := Message.ofJson_layouts.2.1 sampleSuccess (by decide) nofun
  exact ⟨hlist 2 ⟨by decide, fun _ => rfl, fun _ => rfl, fun _ => rfl⟩, hobject⟩

end BufferCheck.Server
