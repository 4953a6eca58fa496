import BufferCheck.Proofs.Output
import BufferCheck.Proofs.Report
import BufferCheck.Proofs.Text.Utf8

/-! What is written for reports: one line for each, from which it can be read back. -/
namespace BufferCheck

/-- The line of output that tells a report. -/
def Report.lineText (r : Report) : String :=
  r.fileName ++ "[" ++ numberText r.line ++ ", " ++ numberText r.character ++ "]: " ++ r.message
    ++ "\n"

section Written

theorem intercalate_eq_join (pieces : List String) :
    "".intercalate pieces = String.join pieces := by
  induction pieces with
  | nil => simp
  | cons piece pieces ih =>
    cases pieces with
    | nil => simp
    | cons next pieces =>
      rw [String.intercalate_cons_cons, ih, String.append_empty, ← String.join_cons]

theorem flatten_map_encode (pieces : List String) :
    (pieces.map Utf8.encode).flatten = Utf8.encode (String.join pieces) := by
  induction pieces with
  | nil => rfl
  | cons piece pieces ih =>
    rw [List.map_cons, List.flatten_cons, ih, String.join_cons, Utf8.encode_append]

theorem join_pieces (r : Report) : String.join r.pieces = r.lineText := by
  simp only [Report.pieces, Report.lineText, String.join_cons, String.join_nil,
    String.append_assoc, String.append_empty]

/-- What is written for reports is their lines. -/
theorem allText_eq (reports : List Report) :
    Report.allText reports = String.join (reports.map Report.lineText) := by
  rw [Report.allText, intercalate_eq_join]
  induction reports with
  | nil => rfl
  | cons r reports ih =>
    rw [List.flatMap_cons, String.join_append, ih, join_pieces, List.map_cons, String.join_cons]

theorem flatten_pieces (reports : List Report) :
    ((reports.flatMap Report.pieces).map Utf8.encode).flatten
      = Utf8.encode (Report.allText reports) := by
  rw [flatten_map_encode, Report.allText, intercalate_eq_join]

/-- An output takes of the text of reports what it has room for. -/
theorem Output.writeReports_spec (out : Output) (reports : List Report) :
    let text := Utf8.encode (Report.allText reports)
    (out.writeReports reports).1.accepted
        = out.accepted ++ text.take (out.room.getD text.length) ∧
      ((out.writeReports reports).2 = false ↔ ∃ n, out.room = some n ∧ n < text.length) := by
  have hspec := out.writeAll_spec ((reports.flatMap Report.pieces).map Utf8.encode)
  rwa [flatten_pieces] at hspec

/-- Reports are taken line by line as far as there is room, and the writing succeeds exactly if all
of them are taken. -/
theorem Output.writeReports_fresh (room : Option Nat) (reports : List Report) :
    let result := (Output.fresh room).writeReports reports
    let lines := Utf8.encode (String.join (reports.map Report.lineText))
    result.1.accepted = lines.take (room.getD lines.length) ∧
      (result.2 = true ↔ result.1.accepted = lines) := by
  intro result lines
  obtain ⟨haccepted, hfails⟩ := (Output.fresh room).writeReports_spec reports
  rw [allText_eq, Output.accepted_fresh, List.nil_append] at haccepted
  rw [allText_eq] at hfails
  refine ⟨haccepted, ?_⟩
  rw [haccepted, List.take_eq_self_iff, ← Bool.not_eq_false, hfails]
  cases room with
  | none => simp [Output.fresh]
  | some n => simp [Output.fresh]

end Written

/-- The lines of a text, cut at its line feeds. -/
def linesOf (text : String) : List String := (text.toList.splitOn '\n').map .ofList

namespace Report
open Decimal

variable {name s : String} {r : Report} {rs : List Report} {rest cs : List Char} {n : Nat}

theorem lineText_eq (r : Report) : r.lineText = r.text ++ "\n" := by
  rw [text, intercalate_eq_join]
  simp [pieces, lineText, String.join_cons, String.append_assoc]

theorem toList_text (r : Report) : r.text.toList = r.fileName.toList ++ "[".toList
    ++ digits r.line ++ ", ".toList ++ digits r.character ++ "]: ".toList ++ r.message.toList := by
  rw [text, intercalate_eq_join]
  simp [pieces, String.join_cons, numberText]

section Read

/-- A number at the front of a text, as numbers are written, and what follows it. -/
def takeNumber? (cs : List Char) : Option (Nat × List Char) :=
  let ds := cs.takeWhile isDigit
  if digits (value ds) = ds then some (value ds, cs.dropWhile isDigit) else none

/-- Read a line as `name[line, character]: message`. -/
def read? (name line : String) : Option Report := do
  let cs ← line.toList.dropPrefix? (name.toList ++ "[".toList)
  let (line, cs) ← takeNumber? cs
  let cs ← cs.dropPrefix? ", ".toList
  let (character, cs) ← takeNumber? cs
  let cs ← cs.dropPrefix? "]: ".toList
  return ⟨name, line, character, .ofList cs⟩

theorem takeNumber?_digits (h : ∀ c ∈ rest.head?, isDigit c = false) :
    takeNumber? (digits n ++ rest) = some (n, rest) := by
  have hall : ∀ c ∈ digits n, isDigit c = true := fun c => isDigit_of_mem_digits
  have hrest : rest.takeWhile isDigit = [] ∧ rest.dropWhile isDigit = rest := by
    cases rest with
    | nil => exact ⟨rfl, rfl⟩
    | cons c r =>
      have hc := h c rfl
      simp [hc]
  rw [takeNumber?, List.takeWhile_append_of_pos hall, List.dropWhile_append_of_pos hall, hrest.1,
    hrest.2, List.append_nil, value_digits, if_pos rfl]

theorem eq_of_takeNumber? (h : takeNumber? cs = some (n, rest)) : cs = digits n ++ rest := by
  simp only [takeNumber?, Option.ite_none_right_eq_some, Option.some.injEq, Prod.mk.injEq] at h
  obtain ⟨hds, rfl, rfl⟩ := h
  rw [hds, List.takeWhile_append_dropWhile]

theorem dropPrefix?_eq_some_iff {mark : List Char} :
    cs.dropPrefix? mark = some rest ↔ cs = mark ++ rest := by
  simp [List.dropPrefix?_eq_some_iff]

/-- A line is read as a report exactly if it is the line of that report. -/
theorem read?_eq_some_iff : read? name s = some r ↔ r.fileName = name ∧ r.text = s := by
  constructor
  · intro h
    simp only [read?, Option.bind_eq_bind, Option.bind_eq_some_iff, dropPrefix?_eq_some_iff,
      Option.pure_def, Option.some.injEq, Prod.exists] at h
    obtain ⟨cs, hs, line, cs₁, hline, cs₂, rfl, character, cs₃, hcharacter, message, rfl, rfl⟩ := h
    refine ⟨rfl, String.toList_inj.mp ?_⟩
    rw [toList_text, hs, eq_of_takeNumber? hline, eq_of_takeNumber? hcharacter]
    simp
  · rintro ⟨rfl, rfl⟩
    simp only [read?, Option.bind_eq_bind, Option.bind_eq_some_iff, dropPrefix?_eq_some_iff,
      Option.pure_def, Option.some.injEq, Prod.exists]
    refine ⟨_, ?_, r.line, _, takeNumber?_digits ?_, _, rfl, r.character, _,
      takeNumber?_digits ?_, r.message.toList, rfl, ?_⟩
    · rw [toList_text]
      simp only [List.append_assoc]
    · rintro c ⟨⟩
      rfl
    · rintro c ⟨⟩
      rfl
    · rw [String.ofList_toList]

end Read

section Lines

theorem linesOf_append (h : '\n' ∉ s.toList) (t : String) :
    linesOf (s ++ "\n" ++ t) = s :: linesOf t := by
  have hcut : (s ++ "\n" ++ t).toList = s.toList ++ '\n' :: t.toList := by simp
  rw [linesOf, hcut, List.splitOn_append_cons_self_of_not_mem h, List.map_cons, String.ofList_toList,
    linesOf]

/-- Reports on one line each are written on as many lines. -/
theorem linesOf_allText (h : ∀ r ∈ rs, '\n' ∉ r.text.toList) :
    linesOf (allText rs) = rs.map text ++ [""] := by
  induction rs with
  | nil => rfl
  | cons r rs ih =>
    obtain ⟨hr, hrs⟩ := List.forall_mem_cons.mp h
    have hcons : allText (r :: rs) = r.text ++ "\n" ++ allText rs := by
      rw [allText_eq, allText_eq, List.map_cons, String.join_cons, lineText_eq]
    rw [hcons, linesOf_append hr, ih hrs, List.map_cons, List.cons_append]

theorem lineFeed_notMem_text (hname : '\n' ∉ r.fileName.toList)
    (hmessage : '\n' ∉ r.message.toList) : '\n' ∉ r.text.toList := by
  have hdigits : ∀ n, '\n' ∉ digits n := by
    intro n h
    exact absurd (isDigit_of_mem_digits h) (by decide)
  rw [toList_text]
  simp [hname, hmessage, hdigits]

end Lines

end Report

section Program
open Report

theorem Message.lineFeed_notMem_firstLine (m : Message) : '\n' ∉ m.firstLine.toList := by
  intro h
  rw [Message.firstLine, String.toList_ofList] at h
  have hne := List.all_eq_true.mp List.all_takeWhile _ h
  simp at hne

theorem Program.lineFeed_notMem_of_mem_reports {p : Program} {target : String} {r : Report}
    (h : '\n' ∉ target.toList) (hr : r ∈ p.reports target) : '\n' ∉ r.text.toList := by
  obtain ⟨d, file, -, -, hname, rfl⟩ := exists_of_mem_reports hr
  apply lineFeed_notMem_text
  · rwa [ofDiagnostic, hname]
  · exact d.message.lineFeed_notMem_firstLine

/-- What an output takes that takes everything. -/
def Program.printed (p : Program) (target : String) : List UInt8 :=
  ((Output.fresh none).writeReports (p.reports target)).1.accepted

theorem decode?_printed (p : Program) (target : String) :
    Utf8.decode? (p.printed target) = some (allText (p.reports target)) := by
  obtain ⟨haccepted, -⟩ := (Output.fresh none).writeReports_spec (p.reports target)
  rw [Program.printed, haccepted, Output.accepted_fresh, List.nil_append, Output.fresh,
    Option.getD_none, List.take_length, Utf8.decode?_encode]

/-- If a name has no line feed, what is printed of the reports on it has a line for each of them,
whatever their messages are, and from its line each is read back as it is. So reports that are not
the same are not printed the same. -/
theorem Program.reports_read_back {target : String} (h : '\n' ∉ target.toList) (p : Program) :
    ∃ text, Utf8.decode? (p.printed target) = some text ∧
      linesOf text = (p.reports target).map Report.text ++ [""] ∧
      (∀ r ∈ p.reports target, Report.read? target r.text = some r) ∧
      ∀ q : Program, q.printed target = p.printed target → q.reports target = p.reports target := by
  have hlines : ∀ q : Program,
      linesOf (allText (q.reports target)) = (q.reports target).map Report.text ++ [""] :=
    fun q => linesOf_allText fun r hr => q.lineFeed_notMem_of_mem_reports h hr
  have hread : ∀ q : Program, ∀ r ∈ q.reports target, Report.read? target r.text = some r :=
    fun q r hr => read?_eq_some_iff.mpr ⟨fileName_of_mem_reports hr, rfl⟩
  refine ⟨_, decode?_printed p target, hlines p, hread p, fun q hq => ?_⟩
  have hall : allText (q.reports target) = allText (p.reports target) := by
    have htext := decode?_printed q target
    rw [hq, decode?_printed] at htext
    exact (Option.some.inj htext).symm
  have htexts : (q.reports target).map Report.text = (p.reports target).map Report.text := by
    have hsame := hlines q
    rw [hall, hlines] at hsame
    exact (List.append_cancel_right hsame).symm
  have hback : ∀ q : Program, ((q.reports target).map Report.text).map (Report.read? target)
      = (q.reports target).map some := by
    intro q
    rw [List.map_map]
    exact List.map_congr_left (hread q)
  apply List.map_injective_iff.mpr (Option.some_injective Report)
  rw [← hback, ← hback, htexts]

section Sample

/-- A file whose name looks like the start of a report. -/
def bracketedFile : SourceFile := .ofText "a[1, 2]: b.ts" "let x\nlet y" .es5

/-- A message of two lines that looks like a report, and one without a text. -/
def bracketedProgram : Program :=
  ⟨[], .empty, [bracketedFile],
    [⟨some bracketedFile, none, none, 1, .error, .text "a[1, 2]: b.ts[3, 4]: x\ny"⟩,
      ⟨some bracketedFile, some 8, some 1, 2, .error, .chain (.node "" [.node "z" []])⟩]⟩

end Sample

theorem Program.reports_bracketedProgram :
    '\n' ∉ "a[1, 2]: b.ts".toList ∧
      bracketedProgram.reports "a[1, 2]: b.ts"
        = [⟨"a[1, 2]: b.ts", 1, 1, "a[1, 2]: b.ts[3, 4]: x"⟩, ⟨"a[1, 2]: b.ts", 2, 3, ""⟩] ∧
      ∃ text, Utf8.decode? (bracketedProgram.printed "a[1, 2]: b.ts") = some text ∧
        linesOf text
          = ["a[1, 2]: b.ts[1, 1]: a[1, 2]: b.ts[3, 4]: x", "a[1, 2]: b.ts[2, 3]: ", ""] ∧
        Report.read? "a[1, 2]: b.ts" "a[1, 2]: b.ts[2, 3]: " = some ⟨"a[1, 2]: b.ts", 2, 3, ""⟩ := by
  have hname : '\n' ∉ "a[1, 2]: b.ts".toList := by decide
  have hreports : bracketedProgram.reports "a[1, 2]: b.ts"
      = [⟨"a[1, 2]: b.ts", 1, 1, "a[1, 2]: b.ts[3, 4]: x"⟩, ⟨"a[1, 2]: b.ts", 2, 3, ""⟩] := by
    cbv
  obtain ⟨text, htext, hlines, hread, -⟩ := reports_read_back hname bracketedProgram
  rw [hreports] at hlines hread
  have hfirst : Report.text ⟨"a[1, 2]: b.ts", 1, 1, "a[1, 2]: b.ts[3, 4]: x"⟩
      = "a[1, 2]: b.ts[1, 1]: a[1, 2]: b.ts[3, 4]: x" := by decide +kernel
  have hlast : Report.text ⟨"a[1, 2]: b.ts", 2, 3, ""⟩ = "a[1, 2]: b.ts[2, 3]: " := by
    decide +kernel
  refine ⟨hname, hreports, text, htext, ?_, ?_⟩
  · rw [hlines, List.map_cons, List.map_singleton, hfirst, hlast]
    rfl
  · rw [← hlast]
    exact hread _ (by simp)

end Program

section Limit
open Report

/-- Reports are written to an output with limited room as the first bytes of their text, all of them
if they fit and else as many as do, and the writing fails exactly if they do not fit. So it is
however the text is cut into writes: each is made in turn, the first that does not fit in part, and
none after it. -/
theorem Report.written_up_to_limit (rs : List Report) (n : Nat) :
    let text := Utf8.encode (allText rs)
    let result := (Output.fresh (some n)).writeReports rs
    result.1.accepted = text.take (min n text.length) ∧
      (result.2 = false ↔ n < text.length) ∧
      Output.Written n ((rs.flatMap pieces).map Utf8.encode) result.1.taken.reverse ∧
      ∀ pieces : List (List UInt8), pieces.flatten = text →
        let other := (Output.fresh (some n)).writeAll pieces
        other.1.accepted = result.1.accepted ∧ other.2 = result.2 ∧
          Output.Written n pieces other.1.taken.reverse := by
  intro text result
  obtain ⟨haccepted, hfails, hwritten⟩ :=
    Output.writeAll_fresh ((rs.flatMap pieces).map Utf8.encode) n
  rw [flatten_pieces] at haccepted hfails
  refine ⟨haccepted, hfails, hwritten, fun pieces hpieces => ?_⟩
  intro other
  obtain ⟨haccepted', hfails', hwritten'⟩ := Output.writeAll_fresh pieces n
  rw [hpieces] at haccepted' hfails'
  refine ⟨haccepted'.trans haccepted.symm, ?_, hwritten'⟩
  rw [Bool.eq_iff_iff, ← not_iff_not, Bool.not_eq_true, Bool.not_eq_true]
  exact hfails'.trans hfails.symm

/-- The limit is inside the first character. -/
theorem Report.written_up_to_one :
    let result := (Output.fresh (some 1)).writeReports [⟨"é.ts", 1, 1, ""⟩]
    result.1.accepted = [0xC3] ∧ result.2 = false := by
  intro result
  obtain ⟨haccepted, hfails, -⟩ := written_up_to_limit [⟨"é.ts", 1, 1, ""⟩] 1
  have htext : Utf8.encode (allText [⟨"é.ts", 1, 1, ""⟩])
      = [0xC3, 0xA9, 46, 116, 115, 91, 49, 44, 32, 49, 93, 58, 32, 10] := by
    decide +kernel
  rw [htext] at haccepted hfails
  exact ⟨haccepted, hfails.mpr (by decide)⟩

end Limit
end BufferCheck
