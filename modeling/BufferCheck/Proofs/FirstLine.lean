import BufferCheck.Proofs.ReportText
import BufferCheck.Server.Finding
import Mathlib.Data.List.TakeWhile

/-! The message that is reported: the first line of what the server says, without its line end, and
of a tree of explanations the first line of the text at the root. -/
namespace BufferCheck

/-- A text and its first line. A line ends at a line feed, and a carriage return right before the
line feed belongs to the end. -/
inductive FirstLine : String → String → Prop
  | whole {line : String} (h : '\n' ∉ line.toList) : FirstLine line line
  | feed {line rest : String} (h : '\n' ∉ line.toList) (hr : line.toList.getLast? ≠ some '\r') :
      FirstLine (line ++ "\n" ++ rest) line
  | returnFeed {line rest : String} (h : '\n' ∉ line.toList) :
      FirstLine (line ++ "\r\n" ++ rest) line

section Text

variable {before rest : List Char} {text line line' : String}

theorem exists_firstLine (text : String) : ∃ line, FirstLine text line := by
  by_cases h : '\n' ∈ text.toList
  · obtain ⟨before, rest, htext, hbefore⟩ := List.eq_append_cons_of_mem h
    by_cases hr : before.getLast? = some '\r'
    · obtain ⟨line, rfl⟩ := List.getLast?_eq_some_iff.mp hr
      obtain rfl : text = .ofList line ++ "\r\n" ++ .ofList rest := by
        rw [← String.toList_inj, htext]
        simp
      refine ⟨_, .returnFeed ?_⟩
      rw [String.toList_ofList]
      exact fun hline => hbefore (List.mem_append_left _ hline)
    · obtain rfl : text = .ofList before ++ "\n" ++ .ofList rest := by
        rw [← String.toList_inj, htext]
        simp
      exact ⟨_, .feed (by rwa [String.toList_ofList]) (by rwa [String.toList_ofList])⟩
  · exact ⟨text, .whole h⟩

theorem takeWhile_of_notMem (h : '\n' ∉ before) : before.takeWhile (· ≠ '\n') = before :=
  List.takeWhile_eq_self_iff.mpr fun c hc => by simpa using ne_of_mem_of_not_mem hc h

/-- Nothing that starts with a line feed adds to a first line. -/
theorem takeWhile_append (before : List Char) (hr : ∀ c ∈ rest.head?, c = '\n') :
    (before ++ rest).takeWhile (· ≠ '\n') = before.takeWhile (· ≠ '\n') := by
  induction before with
  | nil =>
    cases rest with
    | nil => rfl
    | cons c rest => exact List.takeWhile_cons_of_neg (by simp [hr c rfl])
  | cons c before ih => rw [List.cons_append, List.takeWhile_cons, List.takeWhile_cons, ih]

namespace Server.Finding

theorem lineFeeds_cons {c : Char} (h : c = '\r' → rest.head? ≠ some '\n') :
    lineFeeds (c :: rest) = c :: lineFeeds rest := by
  rw [lineFeeds]
  rintro cs rfl rfl
  exact h rfl rfl

/-- What stands before the first line feed stays, unless a carriage return is the last of it. -/
theorem lineFeeds_append (h : '\n' ∉ before)
    (hr : rest.head? = some '\n' → before.getLast? ≠ some '\r') :
    lineFeeds (before ++ rest) = before ++ lineFeeds rest := by
  induction before with
  | nil => rfl
  | cons c before ih =>
    rw [List.mem_cons, not_or] at h
    cases before with
    | nil =>
      refine lineFeeds_cons ?_
      rintro rfl hrest
      exact hr hrest rfl
    | cons d before =>
      rw [List.cons_append, lineFeeds_cons, ih h.2]
      · rfl
      · exact fun hrest => by simpa using hr hrest
      · rintro - hd
        obtain rfl := Option.some.inj hd
        exact h.2 List.mem_cons_self

theorem firstLine_messageText {f : Finding} (h : FirstLine f.message line) :
    (Message.text f.messageText).firstLine = line := by
  rw [Message.firstLine, Message.shown, Message.flatten, messageText, String.toList_ofList]
  generalize f.message = text at h
  cases h with
  | whole h =>
    have hsame : lineFeeds line.toList = line.toList := by
      simpa [lineFeeds] using @lineFeeds_append line.toList [] h (by simp)
    rw [hsame, takeWhile_of_notMem h, String.ofList_toList]
  | @feed _ rest h hr =>
    have hcut : (line ++ "\n" ++ rest).toList = line.toList ++ '\n' :: rest.toList := by simp
    rw [hcut, lineFeeds_append h fun _ => hr, lineFeeds_cons (by simp),
      takeWhile_append _ (by simp), takeWhile_of_notMem h, String.ofList_toList]
  | @returnFeed _ rest h =>
    have hcut : (line ++ "\r\n" ++ rest).toList = line.toList ++ '\r' :: '\n' :: rest.toList := by
      simp
    rw [hcut, lineFeeds_append h (by simp), lineFeeds, takeWhile_append _ (by simp),
      takeWhile_of_notMem h, String.ofList_toList]

theorem firstLine_messageText_iff {f : Finding} :
    (Message.text f.messageText).firstLine = line ↔ FirstLine f.message line := by
  constructor
  · rintro rfl
    obtain ⟨line, h⟩ := exists_firstLine f.message
    rwa [firstLine_messageText h]
  · exact firstLine_messageText

end Server.Finding

end Text

section Chain

/-- Nodes below the root start on a new line. -/
theorem eq_lineFeed_of_flattenAll {depth : Nat} (es : List Explanation) :
    ∀ c ∈ (flattenAll "\n" (depth + 1) es).toList.head?, c = '\n' := by
  intro c h
  cases es with
  | nil => cases h
  | cons e es =>
    obtain ⟨text, next⟩ := e
    simp only [flattenAll, Explanation.flatten, Nat.succ_ne_zero, if_false, String.toList_append,
      List.append_assoc] at h
    exact (Option.some.inj h).symm

theorem Message.firstLine_chain (text : String) (next : List Explanation) :
    (Message.chain (.node text next)).firstLine = .ofList (text.toList.takeWhile (· ≠ '\n')) := by
  rw [firstLine, shown, flatten, Explanation.flatten, if_pos rfl, String.empty_append,
    String.toList_append, takeWhile_append _ (eq_lineFeed_of_flattenAll next)]

end Chain

/-- The report on a diagnostic from the server tells the first line of the server's text, without
its line end; on a tree it tells the root's text up to its first line feed, whatever is below. No
report tells a line feed. -/
theorem Report.message_firstLine (file : SourceFile) :
    (∀ (f : Server.Finding) (line : String),
      (ofDiagnostic file (f.toDiagnostic (some file))).message = line ↔
        FirstLine f.message line) ∧
    (∀ (d : Diagnostic) (text : String) (next : List Explanation),
      (ofDiagnostic file { d with message := .chain (.node text next) }).message
        = .ofList (text.toList.takeWhile (· ≠ '\n'))) ∧
    ∀ d : Diagnostic, '\n' ∉ (ofDiagnostic file d).message.toList :=
  ⟨fun _ _ => Server.Finding.firstLine_messageText_iff,
    fun _ text next => Message.firstLine_chain text next,
    fun d => d.message.lineFeed_notMem_firstLine⟩

/-- Of two carriage returns before a line feed the first belongs to the line. -/
example : (Message.text (Server.Finding.messageText
    ⟨none, none, "one\r\r\ntwo", "error", 1, none, none⟩)).firstLine = "one\r" := by
  decide +kernel

end BufferCheck
