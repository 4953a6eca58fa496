import BufferCheck.Proofs.Json.Levels
import BufferCheck.Proofs.Json.OneLine
import BufferCheck.Proofs.Json.Shape
import BufferCheck.Proofs.Output
import BufferCheck.Proofs.Server.Submission
import BufferCheck.Server.Threads

/-! What the server's input has taken, at any moment and however much it takes: the first bytes of
the lines of the requests that were made, which tell the requests that were written whole. -/
namespace BufferCheck.Server
open Json (asNat?_ofNat)

namespace Request

/-- The line of a request without its line feed. -/
def body (r : Request) : List UInt8 := Utf8.encode r.toJson.text

/-- Commands with arguments, numbered in their order. -/
def ofCalls (calls : List (String × Json)) : List Request :=
  calls.mapIdx fun i call => ⟨seqAt i, call.1, call.2⟩

/-- The lines of requests, one after the other. -/
def lines (requests : List Request) : List UInt8 := (requests.map line).flatten

/-- Some bytes begin with the lines of the first `k` requests, and not with those of more. -/
structure WrittenWhole (requests : List Request) (bytes : List UInt8) (k : Nat) : Prop where
  le : k ≤ requests.length
  whole : lines (requests.take k) <+: bytes
  most : ∀ j ≤ requests.length, lines (requests.take j) <+: bytes → j ≤ k

variable {r : Request} {requests : List Request} {calls : List (String × Json)}
  {bytes : List UInt8} {k : Nat}

theorem line_eq (r : Request) : r.line = r.body ++ [10] := rfl

/-- A line has its line feed at its end and nowhere else. -/
theorem lineFeed_notMem_body (r : Request) : 10 ∉ r.body := Json.lineFeed_notMem_text _

theorem lines_cons (r : Request) (requests : List Request) :
    lines (r :: requests) = r.line ++ lines requests := rfl

theorem lines_append (rs ss : List Request) : lines (rs ++ ss) = lines rs ++ lines ss := by
  rw [lines, List.map_append, List.flatten_append]
  rfl

theorem lines_mono {rs ss : List Request} (h : rs <+: ss) : lines rs <+: lines ss := by
  obtain ⟨more, rfl⟩ := h
  exact ⟨lines more, (lines_append rs more).symm⟩

theorem ofCalls_concat (calls : List (String × Json)) (command : String) (arguments : Json) :
    ofCalls (calls ++ [(command, arguments)])
      = ofCalls calls ++ [⟨seqAt calls.length, command, arguments⟩] :=
  List.mapIdx_concat

/-- Fewer requests than a 64-bit word counts are numbered one, two, three and so on. -/
theorem ofCalls_eq (h : calls.length < UInt64.size - 1) :
    ofCalls calls = calls.mapIdx fun i call => ⟨i + 1, call.1, call.2⟩ := by
  refine List.mapIdx_eq_mapIdx_iff.mpr fun i hi => ?_
  have hseq : seqAt i = i + 1 := by
    unfold seqAt
    omega
  rw [hseq]

section Split

theorem WrittenWhole.nil : WrittenWhole [] bytes 0 :=
  ⟨le_rfl, List.nil_prefix, fun _ hj _ => hj⟩

/-- No line is whole if the first one is not. -/
theorem writtenWhole_zero (h : ¬ r.line <+: bytes) : WrittenWhole (r :: requests) bytes 0 := by
  refine ⟨Nat.zero_le _, List.nil_prefix, fun j _ hpre => ?_⟩
  cases j with
  | zero => exact le_rfl
  | succ j =>
    rw [List.take_succ_cons, lines_cons] at hpre
    exact absurd ((List.prefix_append _ _).trans hpre) h

theorem WrittenWhole.cons (h : WrittenWhole requests bytes k) :
    WrittenWhole (r :: requests) (r.line ++ bytes) (k + 1) := by
  refine ⟨Nat.succ_le_succ h.le, ?_, fun j hj hpre => ?_⟩
  · rw [List.take_succ_cons, lines_cons, List.prefix_append_right_inj]
    exact h.whole
  · cases j with
    | zero => exact Nat.zero_le _
    | succ j =>
      rw [List.take_succ_cons, lines_cons, List.prefix_append_right_inj] at hpre
      exact Nat.succ_le_succ (h.most j (Nat.le_of_succ_le_succ hj) hpre)

/-- A beginning of a line that is not the whole of it has no line feed. -/
theorem lineFeed_notMem_of_cut {rest : List UInt8} (hpre : bytes <+: r.line ++ rest)
    (hline : ¬ r.line <+: bytes) : 10 ∉ bytes := by
  intro hmem
  rcases List.prefix_or_prefix_of_prefix hpre (List.prefix_append r.line rest) with h | h
  · -- The bytes end before the line feed does.
    rw [line_eq, List.prefix_concat_iff, ← line_eq] at h
    rcases h with heq | hbody
    · exact hline (heq ▸ List.prefix_rfl)
    · exact r.lineFeed_notMem_body (hbody.subset hmem)
  · exact hline h

/-- Split at its line feeds, a beginning of the lines gives the requests that were written whole,
and what was written of the next one. -/
theorem splitOn_beginning (h : bytes <+: lines requests) : ∃ k rest,
    WrittenWhole requests bytes k ∧ bytes = lines (requests.take k) ++ rest ∧
      bytes.splitOn 10 = (requests.take k).map body ++ [rest] := by
  induction requests generalizing bytes with
  | nil =>
    obtain rfl := List.prefix_nil.mp h
    exact ⟨0, [], .nil, rfl, rfl⟩
  | cons r requests ih =>
    rw [lines_cons] at h
    by_cases hline : r.line <+: bytes
    · obtain ⟨more, rfl⟩ := hline
      obtain ⟨k, rest, hk, heq, hsplit⟩ := ih ((List.prefix_append_right_inj _).mp h)
      refine ⟨k + 1, rest, hk.cons, ?_, ?_⟩
      · rw [List.take_succ_cons, lines_cons, List.append_assoc, ← heq]
      · rw [line_eq, List.append_assoc, List.singleton_append,
          List.splitOn_append_cons_self_of_not_mem r.lineFeed_notMem_body, hsplit,
          List.take_succ_cons, List.map_cons, List.cons_append]
    · refine ⟨0, bytes, writtenWhole_zero hline, rfl, ?_⟩
      exact List.splitOn_eq_singleton (lineFeed_notMem_of_cut h hline)

end Split

section Written

variable {written : List Request} {room : Option Nat} {out : Output} {writing : Bool}

/-- An output that was written requests one by one has taken a beginning of their lines. -/
theorem prefix_accepted (hw : (Output.fresh room).writeAll (written.map line) = (out, writing))
    (hpre : written <+: requests) : out.accepted <+: lines requests := by
  obtain ⟨haccepted, -⟩ := (Output.fresh room).writeAll_spec (written.map line)
  rw [hw, Output.accepted_fresh, List.nil_append] at haccepted
  change out.accepted = (lines written).take _ at haccepted
  rw [haccepted]
  exact (List.take_prefix _ _).trans (lines_mono hpre)

/-- Once nothing is left to write, or a write has failed, it has taken all that there is room for.
-/
theorem accepted_eq (hw : (Output.fresh room).writeAll (written.map line) = (out, writing))
    (hpre : written <+: requests) (hall : writing = true → written = requests) :
    out.accepted = (lines requests).take (room.getD (lines requests).length) := by
  obtain ⟨haccepted, hfails⟩ := (Output.fresh room).writeAll_spec (written.map line)
  rw [hw] at haccepted hfails
  change out.accepted = (lines written).take (room.getD (lines written).length) at haccepted
  change writing = false ↔ ∃ n, room = some n ∧ n < (lines written).length at hfails
  cases writing with
  | true => rw [haccepted, hall rfl]
  | false =>
    obtain ⟨n, rfl, hlt⟩ := hfails.mp rfl
    obtain ⟨more, rfl⟩ := hpre
    rw [haccepted, lines_append, Option.getD_some, Option.getD_some,
      List.take_append_of_le_length hlt.le]

end Written

section ReadBack

theorem toJson_eq (r : Request) : r.toJson = .object [("arguments", r.arguments),
    ("command", .string r.command), ("seq", .ofNat r.seq), ("type", .string "request")] := by
  have hseq : "seq" < "type" := by decide
  have hcommand : "command" < "seq" := by decide
  have harguments : "arguments" < "command" := by decide
  rw [toJson, Json.ofMembers, Fields.ofList, Fields.extend, List.foldl_cons, List.foldl_cons,
    List.foldl_cons, List.foldl_cons, List.foldl_nil]
  rw [Fields.insert, Fields.insert, if_neg hseq.ne, if_neg hseq.not_gt, Fields.insert]
  rw [Fields.insert, if_neg hcommand.ne', if_pos hcommand]
  rw [Fields.insert, if_neg harguments.ne', if_pos harguments]

/-- Around its arguments a request has one object of names in order, and no deeper nesting. -/
theorem plain_toJson_iff {levels : Nat} (hseq : r.seq < UInt64.size) :
    Json.Plain (levels + 1) r.toJson ↔ Json.Plain levels r.arguments := by
  have ho : Fields.Ordered [("arguments", r.arguments), ("command", Json.string r.command),
      ("seq", .ofNat r.seq), ("type", .string "request")] := by
    rw [← Json.object.inj r.toJson_eq]
    exact Fields.ordered_nil.extend
  rw [toJson_eq]
  constructor
  · intro h
    cases h with
    | object _ h => exact h _ List.mem_cons_self
  · intro h
    refine .object ho ?_
    simp only [List.forall_mem_cons]
    exact ⟨h, .string _ _, .ofNat _ hseq, .string _ _, List.forall_mem_nil _⟩

/-- A request is read back from its line, with the line feed or without, exactly if its arguments
nest one level less deep than the reader allows. -/
theorem ofBytes?_line_iff {n : Nat} (hseq : r.seq < UInt64.size) (h : Json.Plain n r.arguments) :
    ∀ bytes ∈ [r.line, r.body], Json.ofBytes? bytes = some r.toJson ↔
      Json.Plain (Json.Reader.maxLevels - 1) r.arguments := by
  obtain ⟨hline, hbody⟩ := Json.ofBytes?_text_iff ((plain_toJson_iff hseq).mpr h)
  simp only [List.forall_mem_cons]
  exact ⟨hline.trans (plain_toJson_iff hseq), hbody.trans (plain_toJson_iff hseq),
    List.forall_mem_nil _⟩

end ReadBack

end Request

namespace Client
open Request

variable {c : Client} {room : Option Nat} {calls : List (String × Json)}

/-- A client that made some requests, and no others: those it handed over are written, up to the
first write that failed. -/
structure HasMade (room : Option Nat) (calls : List (String × Json)) (c : Client) : Prop where
  nextSeq : c.nextSeq = seqAt calls.length
  output : (Output.fresh room).writeAll (c.submitted.map line) = (c.output, c.writing)
  submitted : c.submitted <+: ofCalls calls
  all : c.writing = true → c.submitted = ofCalls calls

/-- The client after requests, one after the other; a request that fails does not keep the others
from being made. -/
def afterRequests (c : Client) (calls : List (String × Json)) : Client :=
  calls.foldl (fun c call => (c.perform (request call.1 call.2)).2) c

theorem hasMade_ofServer (sent : List UInt8) (room : Option Nat) :
    HasMade room [] (ofServer sent room) :=
  ⟨rfl, rfl, List.prefix_rfl, fun _ => rfl⟩

theorem HasMade.request (h : HasMade room calls c) (command : String) (arguments : Json) :
    HasMade room (calls ++ [(command, arguments)]) (c.perform (request command arguments)).2 := by
  have hnext : succSeq c.nextSeq = seqAt (calls ++ [(command, arguments)]).length := by
    rw [succSeq_eq h.nextSeq, List.length_append, List.length_singleton]
  cases hw : c.writing with
  | false =>
    rw [perform_request_of_stopped hw]
    refine ⟨hnext, h.output, ?_, fun hw' => ?_⟩
    · rw [ofCalls_concat]
      exact h.submitted.trans (List.prefix_append _ _)
    · cases hw.symm.trans hw'
  | true =>
    have hwritten := h.output
    rw [hw] at hwritten
    have hsubmitted : c.submitted ++ [⟨c.nextSeq, command, arguments⟩]
        = ofCalls (calls ++ [(command, arguments)]) := by
      rw [h.all hw, h.nextSeq, ofCalls_concat]
    change HasMade _ _ (Client.request command arguments c).2
    simp only [Client.request, hw, if_true]
    refine ⟨hnext, ?_, hsubmitted ▸ List.prefix_rfl, fun _ => hsubmitted⟩
    rw [List.map_append, Output.writeAll_append_of_true hwritten, List.map_singleton,
      Output.writeAll_singleton]

theorem HasMade.afterRequests (h : HasMade room calls c) (more : List (String × Json)) :
    HasMade room (calls ++ more) (c.afterRequests more) := by
  induction more generalizing c calls with
  | nil => exact (List.append_nil calls).symm ▸ h
  | cons call more ih =>
    have hmore := ih (h.request call.1 call.2)
    rwa [List.append_assoc, List.singleton_append] at hmore

/-- A client has written the lines of its requests as far as there is room. -/
theorem accepted_afterRequests (sent : List UInt8) (room : Option Nat)
    (calls : List (String × Json)) :
    ((ofServer sent room).afterRequests calls).output.accepted
      = (lines (ofCalls calls)).take (room.getD (lines (ofCalls calls)).length) := by
  have h := (hasMade_ofServer sent room).afterRequests calls
  exact accepted_eq h.output h.submitted h.all

end Client

namespace Threads
open Request

variable {s t : Threads} {a : Action} {as : List Action} {room : Option Nat}
  {calls : List (String × Json)}

/-- The request that a move hands over, or that is refused. -/
def Action.call? : Action → Option (String × Json)
  | .handed command arguments _ => some (command, arguments)
  | _ => none

/-- The requests that are made during moves, in their order. -/
def made (as : List Action) : List (String × Json) := as.filterMap Action.call?

/-- The writer has nothing left to write, or a write did not fit. -/
def Settled (s : Threads) : Prop := s.writer = .writing → s.outbound = []

/-- After some requests: the writer has written the first of them, up to the first write that does
not fit, and the others wait in their order. Once it has stopped, requests are refused. -/
structure HasMade (room : Option Nat) (calls : List (String × Json)) (written : List Request)
    (s : Threads) : Prop where
  nextSeq : s.nextSeq = seqAt calls.length
  output : (Output.fresh room).writeAll (written.map line)
    = (s.output, decide (s.writer = .writing))
  waiting : written ++ s.outbound <+: ofCalls calls
  all : s.writer ≠ .stopped → written ++ s.outbound = ofCalls calls

theorem hasMade_start (sent : List UInt8) (room : Option Nat) (patient : Bool) :
    HasMade room [] [] (start sent room patient) :=
  ⟨rfl, rfl, List.prefix_rfl, fun _ => rfl⟩

section Step

variable {written : List Request}

/-- The writer takes the next request to write. -/
theorem HasMade.write (h : HasMade room calls written s) {r : Request} {rest : List Request}
    (hw : s.writer = .writing) (ho : s.outbound = r :: rest) :
    (Output.fresh room).writeAll ((written ++ [r]).map line) = s.output.write r.line ∧
      (written ++ [r]) ++ rest = ofCalls calls := by
  have hwritten := h.output
  rw [hw, decide_eq_true rfl] at hwritten
  constructor
  · rw [List.map_append, Output.writeAll_append_of_true hwritten, List.map_singleton,
      Output.writeAll_singleton]
  · rw [List.append_assoc, List.singleton_append, ← ho]
    exact h.all (by rw [hw]; decide)

theorem HasMade.step (h : HasMade room calls written s) (hs : Step s a t) :
    ∃ written', HasMade room (calls ++ made [a]) written' t := by
  have hskip : ∀ {written' u}, HasMade room calls written' u → made [a] = [] →
      ∃ written', HasMade room (calls ++ made [a]) written' u := by
    intro written' u hu ha
    exact ⟨written', by rwa [ha, List.append_nil]⟩
  have hnext : ∀ call : String × Json,
      Client.succSeq s.nextSeq = seqAt (calls ++ [call]).length := by
    intro call
    rw [Client.succSeq_eq h.nextSeq, List.length_append, List.length_singleton]
  cases hs with
  | write hw ho hout =>
    obtain ⟨hwritten, hall⟩ := h.write hw ho
    refine hskip ⟨h.nextSeq, ?_, hall ▸ List.prefix_rfl, fun _ => hall⟩ rfl
    rw [hwritten, hout, hw]
    rfl
  | fail hw ho _ hout | stall hw ho _ hout =>
    obtain ⟨hwritten, hall⟩ := h.write hw ho
    refine hskip ⟨h.nextSeq, ?_, hall ▸ List.prefix_rfl, fun _ => hall⟩ rfl
    rw [hwritten, hout]
    rfl
  | stop hw =>
    have houtput := h.output
    rw [hw] at houtput
    exact hskip ⟨h.nextSeq, houtput, h.waiting, fun hne => absurd rfl hne⟩ rfl
  | @hand command arguments hc hw =>
    have hall : written ++ (s.outbound ++ [⟨s.nextSeq, command, arguments⟩])
        = ofCalls (calls ++ [(command, arguments)]) := by
      rw [← List.append_assoc, h.all hw, h.nextSeq, ofCalls_concat]
    exact ⟨written, hnext _, h.output, hall ▸ List.prefix_rfl, fun _ => hall⟩
  | @refuse command arguments hc hw =>
    have happend : ofCalls calls <+: ofCalls (calls ++ [(command, arguments)]) := by
      rw [ofCalls_concat]
      exact List.prefix_append _ _
    exact ⟨written, hnext _, h.output, h.waiting.trans happend, fun hne => absurd hw hne⟩
  | _ => exact hskip ⟨h.nextSeq, h.output, h.waiting, h.all⟩ rfl

end Step

theorem HasMade.run {written : List Request} (h : HasMade room calls written s)
    (hr : Run s as t) : ∃ written', HasMade room (calls ++ made as) written' t := by
  induction hr generalizing calls written with
  | refl => exact ⟨written, (List.append_nil calls).symm ▸ h⟩
  | @step _ _ _ a as hs _ ih =>
    obtain ⟨next, hnext⟩ := h.step hs
    obtain ⟨last, hlast⟩ := ih hnext
    have hmade : made [a] ++ made as = made (a :: as) := (List.filterMap_append ..).symm
    rw [List.append_assoc, hmade] at hlast
    exact ⟨last, hlast⟩

/-- Whatever is requested, in whatever order the threads move and however much the server's input
takes, it has taken the first bytes of the lines of the requests, and all that there is room for
once the writer is done, whether it refuses the others or lets them wait for ever. Line feeds are at
the ends of lines only, so that splitting at them gives the requests that were written whole; and
each is read back with its number, its command and its arguments, if these nest one level less deep
than the reader allows. -/
theorem written_lines (sent : List UInt8) (room : Option Nat) (calls : List (String × Json))
    (hfew : calls.length < UInt64.size - 1) :
    let requests : List Request := calls.mapIdx fun i call => ⟨i + 1, call.1, call.2⟩
    (∀ patient as s, Run (start sent room patient) as s → made as = calls →
      s.output.accepted <+: lines requests ∧ (s.Settled →
        s.output.accepted = (lines requests).take (room.getD (lines requests).length))) ∧
    ((Client.ofServer sent room).afterRequests calls).output.accepted
      = (lines requests).take (room.getD (lines requests).length) ∧
    (∀ r ∈ requests, r.line = r.body ++ [10] ∧ 10 ∉ r.body) ∧
    (∀ bytes, bytes <+: lines requests → ∃ k rest, WrittenWhole requests bytes k ∧
      bytes = lines (requests.take k) ++ rest ∧
      bytes.splitOn 10 = (requests.take k).map body ++ [rest]) ∧
    ∀ i command arguments, calls[i]? = some (command, arguments) →
      ∃ r, requests[i]? = some r ∧ (Json.ofNat (i + 1)).asNat? = some (i + 1) ∧
        ∀ n, Json.Plain n arguments → ∀ bytes ∈ [r.line, r.body],
          (Json.ofBytes? bytes = some (.object [("arguments", arguments),
              ("command", .string command), ("seq", .ofNat (i + 1)), ("type", .string "request")]) ↔
            Json.Plain (Json.Reader.maxLevels - 1) arguments) := by
  intro requests
  have hrequests : ofCalls calls = requests := ofCalls_eq hfew
  refine ⟨fun patient as s hr hmade => ?_, ?_, fun r _ => ⟨r.line_eq, r.lineFeed_notMem_body⟩,
    fun bytes => splitOn_beginning, fun i command arguments hcall => ?_⟩
  · obtain ⟨written, h⟩ := (hasMade_start sent room patient).run hr
    rw [List.nil_append, hmade] at h
    have hwritten : written <+: requests := by
      rw [← hrequests]
      exact (List.prefix_append _ _).trans h.waiting
    refine ⟨prefix_accepted h.output hwritten, fun hsettled => ?_⟩
    refine accepted_eq h.output hwritten fun hw => ?_
    have hw := of_decide_eq_true hw
    rw [← hrequests, ← h.all (by rw [hw]; decide), hsettled hw, List.append_nil]
  · rw [← hrequests]
    exact Client.accepted_afterRequests sent room calls
  · have hlt : i + 1 < UInt64.size := by
      have := (List.getElem?_eq_some_iff.mp hcall).1
      omega
    refine ⟨⟨i + 1, command, arguments⟩, ?_, asNat?_ofNat hlt, fun n hn bytes hbytes => ?_⟩
    · rw [List.getElem?_mapIdx, hcall]
      rfl
    · have hback := ofBytes?_line_iff hlt hn bytes hbytes
      rwa [toJson_eq] at hback

section Sample

def sampleRequest : Request := ⟨1, "updateOpen", .object [("text", .string "a\n\"b\u2028")]⟩

def sampleCalls : List (String × Json) :=
  [(sampleRequest.command, sampleRequest.arguments), ("exit", .null)]

/-- The server's input takes seventeen bytes, so the writer fails in the first request; the second
one is handed over and never written. -/
theorem written_sampleCalls :
    sampleCalls.length < UInt64.size - 1 ∧
      ∃ as s, Run (start [] (some 17) false) as s ∧ made as = sampleCalls ∧ s.Settled ∧
        s.output.accepted = Utf8.encode "\x7b\"arguments\":\x7b\"te" := by
  have hfew : sampleCalls.length < UInt64.size - 1 := by decide
  obtain ⟨hrun, -⟩ := written_lines [] (some 17) sampleCalls hfew
  have hlong : ¬ sampleRequest.line.length ≤ 17 := by decide +kernel
  have hfails : (Output.fresh (some 17)).write sampleRequest.line = (_, false) := if_neg hlong
  have hsteps : ∃ s, Run (start [] (some 17) false) [.handed "updateOpen" sampleRequest.arguments
      (some 1), .silent, .handed "exit" .null (some 2)] s ∧ s.writer = .failed :=
    ⟨_, .step (.hand rfl (by decide)) (.step (.fail rfl rfl rfl hfails)
      (.step (.hand rfl (by simp)) (.refl _))), rfl⟩
  obtain ⟨s, hs, hfailed⟩ := hsteps
  have hsettled : s.Settled := fun hw => by cases hfailed.symm.trans hw
  obtain ⟨-, hall⟩ := hrun false _ s hs rfl
  refine ⟨hfew, _, s, hs, rfl, hsettled, (hall hsettled).trans ?_⟩
  decide +kernel

end Sample

end Threads
end BufferCheck.Server
