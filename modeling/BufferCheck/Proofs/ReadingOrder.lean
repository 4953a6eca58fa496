import BufferCheck.Proofs.LineIndex
import BufferCheck.Proofs.Report
import Mathlib.Data.Prod.Lex

/-! Reports come in reading order, each at a place of its file's text. -/
namespace BufferCheck

namespace Diagnostic

variable {d e : Diagnostic}

/-- Of two diagnostics of one file, the one that the order puts first does not start later; one
without a start counts as starting at zero. -/
theorem start_le_of_order (h : d.order e = .lt) (hname : d.fileName = e.fileName) :
    d.start.getD 0 ≤ e.start.getD 0 := by
  have hstart : (compare d.start e.start).isLE := by
    have hself : compare e.fileName e.fileName = .eq := Std.ReflCmp.compare_self
    rw [order, hname, hself, Ordering.eq_then] at h
    cases hc : compare d.start e.start with
    | lt => rfl
    | eq => rfl
    | gt => simp [hc] at h
  cases hd : d.start with
  | none => exact Nat.zero_le _
  | some start =>
    cases he : e.start with
    | none =>
      rw [hd, he] at hstart
      cases hstart
    | some start' =>
      rw [hd, he] at hstart
      exact Nat.isLE_compare.mp hstart

end Diagnostic

open Diagnostic

variable {target : String} {file : SourceFile} {found : List Diagnostic}

namespace Report

/-- A report stands before another in reading order, or at the same place. -/
def Precedes (r s : Report) : Prop := toLex (r.line, r.character) ≤ toLex (s.line, s.character)

/-- A report stands where an offset is in the text of a file: on the line that holds it, and as far
from the start of the line as the offset is, or as the end of the text if the offset is past it. -/
structure StandsAt (file : SourceFile) (offset : Nat) (r : Report) : Prop where
  line_pos : 1 ≤ r.line
  line_le : r.line ≤ file.lines.lineCount
  character_pos : 1 ≤ r.character
  place : ∃ start, file.lines.lineStart? (r.line - 1) = some start ∧
    start + r.character - 1 = min offset (Utf16.length file.text)
  before_next : ∀ next, file.lines.lineStart? r.line = some next →
    min offset (Utf16.length file.text) < next

variable {d e : Diagnostic}

theorem isTable_lines (file : SourceFile) : file.lines.IsTable := by
  rw [file.lines_eq]
  exact LineIndex.isTable_ofText file.text

theorem standsAt_ofDiagnostic (file : SourceFile) (d : Diagnostic) :
    StandsAt file (d.start.getD 0) (ofDiagnostic file d) := by
  have htable := isTable_lines file
  obtain ⟨start, hs, hplace, hafter⟩ := htable.position_spec (d.start.getD 0)
  have hlength : file.lines.length = Utf16.length file.text := by
    rw [file.lines_eq, LineIndex.length_ofText]
  rw [hlength] at hplace hafter
  exact ⟨Nat.le_add_left 1 _, htable.line_lt _, Nat.le_add_left 1 _, ⟨start, hs, hplace⟩, hafter⟩

theorem precedes_ofDiagnostic (file : SourceFile) (h : d.start.getD 0 ≤ e.start.getD 0) :
    Precedes (ofDiagnostic file d) (ofDiagnostic file e) := by
  rw [Precedes, Prod.Lex.toLex_le_toLex]
  have := (isTable_lines file).position_mono h
  simp only [ofDiagnostic]
  omega

end Report

namespace Program

/-- The reports on a file go up through its text, and each stands where its diagnostic starts,
whatever the diagnostics start at and whatever else was found. -/
theorem reports_in_reading_order (roots : List String) (options : OptionSet)
    (files : List SourceFile)
    (hfile : ∀ d ∈ (ofBuild roots options files found).diagnostics,
      d.fileName = some target → d.file = some file) :
    let program := ofBuild roots options files found
    (program.reports target).Pairwise Report.Precedes ∧
      List.Forall₂ (fun d r => Report.StandsAt file (d.start.getD 0) r)
        (ofFile target program.diagnostics) (program.reports target) := by
  intro program
  have hown : ∀ d ∈ ofFile target program.diagnostics, d.file = some file := by
    intro d hd
    obtain ⟨hd, hname⟩ := mem_ofFile.mp hd
    exact hfile d hd hname
  rw [reports_eq_map hown, List.pairwise_map, List.forall₂_map_right_iff]
  constructor
  · have hascending : Ascending (ofFile target program.diagnostics) :=
      (ascending_sorted found).ofFile
    refine hascending.imp_of_mem fun ha hb hlt => ?_
    have hname := (mem_ofFile.mp ha).2.trans (mem_ofFile.mp hb).2.symm
    exact Report.precedes_ofDiagnostic file (start_le_of_order hlt hname)
  · exact List.forall₂_same.mpr fun d _ => Report.standsAt_ofDiagnostic file d

section Sample

/-- Two lines, the second with a character of two units. -/
def sampleLines : SourceFile := .ofText "a.ts" "let x\r\n👋y" .es5

/-- A problem at the start, one past the end, one in the text, and one of another file. -/
def sampleScattered : List Diagnostic :=
  [⟨some sampleLines, some 99, none, 1, .error, .text "end"⟩,
    ⟨some sampleLines, none, none, 1, .error, .text "start"⟩,
    ⟨some (.ofText "b.ts" "" .es5), some 8, none, 1, .error, .text "other"⟩,
    ⟨some sampleLines, some 9, some 1, 1, .error, .text "y"⟩]

def sampleInOrder : List Diagnostic :=
  [⟨some sampleLines, none, none, 1, .error, .text "start"⟩,
    ⟨some sampleLines, some 9, some 1, 1, .error, .text "y"⟩,
    ⟨some sampleLines, some 99, none, 1, .error, .text "end"⟩,
    ⟨some (.ofText "b.ts" "" .es5), some 8, none, 1, .error, .text "other"⟩]

theorem sorted_sampleScattered : sorted sampleScattered = sampleInOrder := by
  have hperm : sampleScattered.Perm sampleInOrder :=
    .trans (.swap _ _ _) (.cons _ (.trans (.cons _ (.swap _ _ _)) (.swap _ _ _)))
  have hascending : Ascending sampleInOrder := by
    unfold Ascending
    decide
  exact sorted_eq_of_perm hperm hascending

end Sample

theorem reports_sampleScattered :
    let program := ofBuild ["a.ts"] .empty [sampleLines] sampleScattered
    (∀ d ∈ program.diagnostics, d.fileName = some "a.ts" → d.file = some sampleLines) ∧
      program.reports "a.ts"
        = [⟨"a.ts", 1, 1, "start"⟩, ⟨"a.ts", 2, 3, "y"⟩, ⟨"a.ts", 2, 4, "end"⟩] ∧
      (program.reports "a.ts").Pairwise Report.Precedes := by
  intro program
  have hdiagnostics : program.diagnostics = sampleInOrder := sorted_sampleScattered
  have hfile : ∀ d ∈ program.diagnostics,
      d.fileName = some "a.ts" → d.file = some sampleLines := by
    rw [hdiagnostics]
    simp [sampleInOrder, fileName, SourceFile.ofText]
  have hreports : program.reports "a.ts"
      = [⟨"a.ts", 1, 1, "start"⟩, ⟨"a.ts", 2, 3, "y"⟩, ⟨"a.ts", 2, 4, "end"⟩] := by
    rw [reports, hdiagnostics]
    cbv
  exact ⟨hfile, hreports, (reports_in_reading_order ["a.ts"] .empty [sampleLines] hfile).1⟩

end Program
end BufferCheck
