import BufferCheck.Report
import BufferCheck.Proofs.Diagnostic
import Mathlib.Data.Finset.Card
import Mathlib.Data.List.Forall2

/-! The reports on a file come from the set of its own problems alone. -/
namespace BufferCheck

namespace Diagnostic

variable {target : String} {d e : Diagnostic} {ds es : List Diagnostic}

/-- The diagnostics of files of a name. -/
def ofFile (target : String) (ds : List Diagnostic) : List Diagnostic :=
  ds.filter (·.fileName = some target)

theorem mem_ofFile : d ∈ ofFile target ds ↔ d ∈ ds ∧ d.fileName = some target := by
  simp [ofFile]

theorem Ascending.ofFile (h : Ascending ds) : Ascending (ofFile target ds) := h.filter _

theorem covered_ofFile_sorted (ds : List Diagnostic) :
    Covered (ofFile target ds) (ofFile target (sorted ds)) := by
  intro d hd
  obtain ⟨hd, hname⟩ := mem_ofFile.mp hd
  obtain ⟨e, he, hde⟩ := covered_sorted ds d hd
  exact ⟨e, mem_ofFile.mpr ⟨he, (order_eq_iff.mp hde).1 ▸ hname⟩, hde⟩

/-- What sorting keeps of a file has its like in every list that has the file's problems. -/
theorem Covered.ofFile_sorted (h : Covered (ofFile target ds) (ofFile target es)) :
    Covered (ofFile target (sorted ds)) (ofFile target (sorted es)) := by
  intro d hd
  obtain ⟨hd, hname⟩ := mem_ofFile.mp hd
  obtain ⟨e, he, hde⟩ := h d (mem_ofFile.mpr ⟨mem_of_mem_sorted hd, hname⟩)
  obtain ⟨e', he', hee'⟩ := covered_ofFile_sorted es e he
  exact ⟨e', he', Std.TransCmp.eq_trans hde hee'⟩

/-- Of one file, sorting keeps each problem once. -/
theorem length_ofFile_sorted (ds : List Diagnostic) :
    (ofFile target (sorted ds)).length = ((ofFile target ds).map problem).toFinset.card := by
  have hnodup : ((ofFile target (sorted ds)).map problem).Nodup := by
    refine List.pairwise_map.mpr ((ascending_sorted ds).ofFile.imp_of_mem fun ha hb hlt he => ?_)
    have hname := (mem_ofFile.mp ha).2.trans (mem_ofFile.mp hb).2.symm
    rw [order_eq_iff.mpr ⟨hname, he⟩] at hlt
    cases hlt
  have hset : ((ofFile target (sorted ds)).map problem).toFinset
      = ((ofFile target ds).map problem).toFinset := by
    ext p
    simp only [List.mem_toFinset, List.mem_map]
    constructor
    · rintro ⟨d, hd, rfl⟩
      obtain ⟨hd, hname⟩ := mem_ofFile.mp hd
      exact ⟨d, mem_ofFile.mpr ⟨mem_of_mem_sorted hd, hname⟩, rfl⟩
    · rintro ⟨d, hd, rfl⟩
      obtain ⟨e, he, hde⟩ := covered_ofFile_sorted ds d hd
      exact ⟨e, he, (order_eq_iff.mp hde).2.symm⟩
  rw [← hset, List.toFinset_card_of_nodup hnodup, List.length_map]

end Diagnostic

open Diagnostic

variable {target : String} {file : SourceFile} {found others : List Diagnostic}

theorem Report.ofDiagnostic_congr {d e : Diagnostic} (file : SourceFile) (h : d.order e = .eq) :
    ofDiagnostic file d = ofDiagnostic file e := by
  have hproblem := (order_eq_iff.mp h).2
  simp only [problem, Prod.mk.injEq] at hproblem
  simp only [ofDiagnostic, Message.firstLine, hproblem.1, hproblem.2.2.2]

namespace Program

theorem reports_eq_map {p : Program} (h : ∀ d ∈ ofFile target p.diagnostics, d.file = some file) :
    p.reports target = (ofFile target p.diagnostics).map (.ofDiagnostic file) := by
  rw [reports, ofFile, ← List.filterMap_eq_map, List.filterMap_filter]
  refine List.filterMap_congr fun d hd => ?_
  cases hf : d.file with
  | none => simp [fileName, hf]
  | some own =>
    by_cases hname : own.name = target
    · have hown := h d (mem_ofFile.mpr ⟨hd, by simp [fileName, hf, hname]⟩)
      obtain rfl : own = file := Option.some.inj (hf.symm.trans hown)
      simp [fileName, hf, hname]
    · simp [fileName, hf, hname]

theorem exists_of_mem_reports {p : Program} {r : Report} (h : r ∈ p.reports target) :
    ∃ d file, d ∈ p.diagnostics ∧ d.file = some file ∧ file.name = target ∧
      r = .ofDiagnostic file d := by
  obtain ⟨d, hd, hr⟩ := List.mem_filterMap.mp h
  split at hr
  · next file hf =>
    split at hr
    · next hname => exact ⟨d, file, hd, hf, hname, (Option.some.inj hr).symm⟩
    · cases hr
  · cases hr

theorem fileName_of_mem_reports {p : Program} {r : Report} (h : r ∈ p.reports target) :
    r.fileName = target := by
  obtain ⟨d, file, -, -, hname, rfl⟩ := exists_of_mem_reports h
  exact hname

/-- Two builds that found the same problems in a file give the same reports on it, one for each
problem and all under its name, whatever else they found, in which order and how often. -/
theorem reports_eq_of_covered (hfile : ∀ d ∈ ofFile target (found ++ others), d.file = some file)
    (h : Covered (ofFile target found) (ofFile target others))
    (h' : Covered (ofFile target others) (ofFile target found))
    (roots roots' : List String) (options options' : OptionSet) (files files' : List SourceFile) :
    (ofBuild roots options files found).reports target
        = (ofBuild roots' options' files' others).reports target ∧
      ((ofBuild roots options files found).reports target).length
        = ((ofFile target found).map problem).toFinset.card ∧
      ∀ r ∈ (ofBuild roots options files found).reports target, r.fileName = target := by
  have hsorted : ∀ ds, (∀ d ∈ ds, d ∈ found ++ others) →
      ∀ d ∈ ofFile target (sorted ds), d.file = some file := by
    intro ds hds d hd
    obtain ⟨hd, hname⟩ := mem_ofFile.mp hd
    exact hfile d (mem_ofFile.mpr ⟨hds d (mem_of_mem_sorted hd), hname⟩)
  have hfound : (ofBuild roots options files found).reports target
      = (ofFile target (sorted found)).map (.ofDiagnostic file) :=
    reports_eq_map (hsorted found fun d hd => List.mem_append_left others hd)
  have hothers : (ofBuild roots' options' files' others).reports target
      = (ofFile target (sorted others)).map (.ofDiagnostic file) :=
    reports_eq_map (hsorted others fun d hd => List.mem_append_right found hd)
  have hplaces := Ascending.forall₂ (ascending_sorted found).ofFile (ascending_sorted others).ofFile
    h.ofFile_sorted h'.ofFile_sorted
  refine ⟨?_, ?_, fun r => fileName_of_mem_reports⟩
  · rw [hfound, hothers, ← List.forall₂_eq_eq_eq]
    exact List.forall₂_map_left_iff.mpr (List.forall₂_map_right_iff.mpr
      (hplaces.imp fun d e => Report.ofDiagnostic_congr file))
  · rw [hfound, List.length_map, length_ofFile_sorted]

section Sample

def sampleFile : SourceFile := .ofText "a.ts" "let x\nlet y" .es5

def sampleProblem (start code : Nat) (category : Category) (message : Message) : Diagnostic :=
  ⟨some sampleFile, some start, some 1, code, category, message⟩

def sampleText : Diagnostic := sampleProblem 4 1 .error (.text "old\n  older")

/-- The same problem, told in another way. -/
def sampleRetold : Diagnostic :=
  sampleProblem 4 1 .warning (.chain (.node "old" [.node "older" []]))

def sampleLater : Diagnostic := sampleProblem 10 2 .error (.text "new")

def sampleFound : List Diagnostic := [sampleLater, sampleText, sampleRetold]

/-- The same problems, once each, with one of the project and one of another file. -/
def sampleOthers : List Diagnostic :=
  [⟨none, none, none, 1, .message, .text "old"⟩, sampleRetold,
    ⟨some (.ofText "b.ts" "" .es5), some 4, some 1, 1, .error, .text "old\n  older"⟩, sampleLater]

theorem order_sampleText : sampleText.order sampleRetold = .eq := by
  refine order_eq_iff.mpr ⟨rfl, ?_⟩
  simp only [problem]
  cbv

end Sample

theorem reports_sampleFound :
    (∀ d ∈ ofFile "a.ts" (sampleFound ++ sampleOthers), d.file = some sampleFile) ∧
      Covered (ofFile "a.ts" sampleFound) (ofFile "a.ts" sampleOthers) ∧
      Covered (ofFile "a.ts" sampleOthers) (ofFile "a.ts" sampleFound) ∧
      (ofBuild [] .empty [] sampleFound).reports "a.ts"
        = (ofBuild ["a.ts"] .defaults [sampleFile] sampleOthers).reports "a.ts" ∧
      ((ofBuild [] .empty [] sampleFound).reports "a.ts").length = 2 := by
  have hfound : ofFile "a.ts" sampleFound = [sampleLater, sampleText, sampleRetold] := rfl
  have hothers : ofFile "a.ts" sampleOthers = [sampleRetold, sampleLater] := rfl
  have hself : ∀ d : Diagnostic, d.order d = .eq := fun d => Std.ReflCmp.compare_self
  have hfile : ∀ d ∈ ofFile "a.ts" (sampleFound ++ sampleOthers), d.file = some sampleFile := by
    have happend : ofFile "a.ts" (sampleFound ++ sampleOthers)
        = [sampleLater, sampleText, sampleRetold, sampleRetold, sampleLater] := rfl
    rw [happend]
    simp [sampleLater, sampleText, sampleRetold, sampleProblem]
  have hcovered : Covered (ofFile "a.ts" sampleFound) (ofFile "a.ts" sampleOthers) := by
    rw [hfound, hothers]
    simp [Covered, hself, order_sampleText]
  have hcovered' : Covered (ofFile "a.ts" sampleOthers) (ofFile "a.ts" sampleFound) := by
    rw [hfound, hothers]
    simp [Covered, hself]
  have hcard : ((ofFile "a.ts" sampleFound).map problem).toFinset.card = 2 := by
    have hproblem : sampleText.problem = sampleRetold.problem :=
      (order_eq_iff.mp order_sampleText).2
    have hne : sampleLater.problem ≠ sampleRetold.problem := by
      simp [problem, sampleLater, sampleRetold, sampleProblem]
    rw [hfound]
    simp [hproblem, hne]
  obtain ⟨hreports, hlength, -⟩ :=
    reports_eq_of_covered hfile hcovered hcovered' [] ["a.ts"] .empty .defaults [] [sampleFile]
  exact ⟨hfile, hcovered, hcovered', hreports, hlength.trans hcard⟩

end Program
end BufferCheck
