import BufferCheck.CommandLine
import BufferCheck.Proofs.Buffer
import BufferCheck.Proofs.Config.Preorder
import BufferCheck.Proofs.Diagnostic
import BufferCheck.Proofs.FileTree.Place
import BufferCheck.Proofs.ReportText
import BufferCheck.Proofs.Server.Answers
import BufferCheck.Proofs.Server.Stream

/-! The stages of a check. The first that fails ends it: after a failure to read or to resolve, the
engine is not called, and else it is called once. -/
namespace BufferCheck

variable {ω ε : Type}

/-- An engine that notes each call of it, before its own notes. -/
def Engine.recorded (engine : Engine ω ε) : Engine (BuildTask ⊕ ω) ε := fun task host =>
  ⟨.inl task :: (engine task host).log.map .inr, (engine task host).outcome⟩

/-- The tasks that an engine is called with in the course of a check. -/
def tasks (note : Warning → ω) (engine : Engine ω ε) (tree : FileTree) (base path : String)
    (reads : List ReadResult) : List BuildTask :=
  (checkReads (fun w => .inr (note w)) engine.recorded tree base path reads).log.filterMap
    Sum.getLeft?

section Stages

variable {note : Warning → ω} {engine : Engine ω ε} {tree : FileTree}
  {base path target text : String} {reads : List ReadResult}

theorem runCheck_eq : runCheck note engine tree base ⟨target, text⟩
    = ((Config.resolve tree base target).mapBoth note CheckError.config).andThen
        fun resolved => ((engine ⟨[target], resolved.options⟩
          (BufferOverride.wrap ⟨target, text⟩ (diskProvider tree base))).mapBoth id
            CheckError.engine).andThen fun program => pure (program.reports target) := rfl

theorem runCheck_of_error {e : ConfigError}
    (h : (Config.resolve tree base target).outcome = .error e) :
    runCheck note engine tree base ⟨target, text⟩
      = ⟨(Config.resolve tree base target).log.map note, .error (.config e)⟩ := by
  rw [runCheck_eq, Logged.mapBoth, h]
  rfl

/-- Once the options are resolved the engine is called, and its program is reported. -/
theorem runCheck_of_ok {resolved : Resolution}
    (h : (Config.resolve tree base target).outcome = .ok resolved) :
    let built := engine ⟨[target], resolved.options⟩
      (BufferOverride.wrap ⟨target, text⟩ (diskProvider tree base))
    runCheck note engine tree base ⟨target, text⟩
      = ⟨(Config.resolve tree base target).log.map note ++ built.log,
        (built.outcome.mapError .engine).map (·.reports target)⟩ := by
  intro built
  have hbuilt : (built.mapBoth id CheckError.engine).andThen
      (fun program => pure (program.reports target))
      = ⟨built.log, (built.outcome.mapError .engine).map (·.reports target)⟩ := by
    rw [Logged.mapBoth, Logged.andThen, List.map_id]
    cases built.outcome with
    | error e => rfl
    | ok program => simp [Except.mapError, Except.map, pure]
  rw [runCheck_eq, Logged.mapBoth, h]
  change Logged.andThen ⟨_, .ok resolved⟩ _ = _
  rw [Logged.andThen_ok, hbuilt]

theorem checkReads_of_error {e : ReadError} (h : readBuffer reads = .error e) :
    checkReads note engine tree base path reads = ⟨[], .error (.input e)⟩ := by
  rw [checkReads, h]
  rfl

theorem checkReads_of_ok (h : readBuffer reads = .ok text) :
    checkReads note engine tree base path reads
      = runCheck note engine tree base ⟨Path.normalize path, text⟩ := by
  rw [checkReads, h]
  exact Logged.andThen_of_ok rfl

theorem filterMap_getLeft?_of_none {α κ ι : Type} {f : α → κ ⊕ ι}
    (hf : ∀ x, (f x).getLeft? = none) (xs : List α) :
    (xs.map f).filterMap Sum.getLeft? = [] := by
  rw [List.filterMap_map]
  exact List.filterMap_eq_nil_iff.mpr fun x _ => hf x

/-- The engine is not called if the options cannot be resolved. -/
theorem tasks_of_error {e : ConfigError} (h : readBuffer reads = .ok text)
    (hr : (Config.resolve tree base (Path.normalize path)).outcome = .error e) :
    tasks note engine tree base path reads = [] := by
  rw [tasks, checkReads_of_ok h, runCheck_of_error hr]
  exact filterMap_getLeft?_of_none (fun _ => rfl) _

/-- It is called once if they can. -/
theorem tasks_of_ok {resolved : Resolution} (h : readBuffer reads = .ok text)
    (hr : (Config.resolve tree base (Path.normalize path)).outcome = .ok resolved) :
    tasks note engine tree base path reads = [⟨[Path.normalize path], resolved.options⟩] := by
  rw [tasks, checkReads_of_ok h, runCheck_of_ok hr, List.filterMap_append,
    filterMap_getLeft?_of_none fun _ => rfl, List.nil_append]
  exact congrArg (_ :: ·) (filterMap_getLeft?_of_none (fun _ => rfl) _)

end Stages

namespace CommandLine

variable {s : Surroundings} {arguments : List String} {file : String}

theorem failure?_eq_none_iff {e : CheckError Server.Halt} :
    failure? e = none ↔ e = .engine .blocked := by
  rcases e with e | e | (e | _) <;> simp [failure?]

/-- A check that fails prints nothing, and one that waits for ever does not end. -/
theorem run_of_error {e : CheckError Server.Halt}
    (hparse : parse none false arguments = .check file) (h : (check s file).outcome = .error e) :
    (run s arguments = none ↔ e = .engine .blocked) ∧
      ∀ exit, run s arguments = some exit → exit.stdout.accepted = [] ∧ exit.status = 1 := by
  have hrun : run s arguments = (failure? e).map fun e =>
      ⟨1, .fresh s.room, failureText ("failed to check " ++ file) (Failure.chain e)⟩ := by
    simp only [run, hparse, h]
  rw [hrun, Option.map_eq_none_iff, failure?_eq_none_iff]
  refine ⟨Iff.rfl, fun exit hexit => ?_⟩
  obtain ⟨e', -, rfl⟩ := Option.map_eq_some_iff.mp hexit
  exact ⟨Output.accepted_fresh s.room, rfl⟩

/-- A check that succeeds prints the lines of its reports as far as they are taken, and its status
tells whether all of them were. -/
theorem run_of_ok {reports : List Report} (hparse : parse none false arguments = .check file)
    (h : (check s file).outcome = .ok reports) :
    let lines := Utf8.encode (String.join (reports.map Report.lineText))
    ∃ exit, run s arguments = some exit ∧
      exit.stdout.accepted = lines.take (s.room.getD lines.length) ∧
      exit.status = if exit.stdout.accepted = lines then 0 else 1 := by
  intro lines
  obtain ⟨haccepted, hdone⟩ := Output.writeReports_fresh s.room reports
  cases hwrite : (Output.fresh s.room).writeReports reports with
  | mk stdout done =>
    rw [hwrite] at haccepted hdone
    cases done with
    | true =>
      refine ⟨⟨0, stdout, ""⟩, by simp only [run, hparse, h, hwrite], haccepted, ?_⟩
      exact (if_pos (hdone.mp rfl)).symm
    | false =>
      have hcut : stdout.accepted ≠ lines := fun hall => Bool.noConfusion (hdone.mpr hall)
      refine ⟨⟨1, stdout, failureText "failed to write diagnostics" [Output.refusal]⟩,
        by simp only [run, hparse, h, hwrite], haccepted, ?_⟩
      exact (if_neg hcut).symm

end CommandLine

/-- A check ends at the first stage that fails. A read that fails leaves no trace of the later
stages. Else the first configuration with a fault that the target's own leads to ends it, and the
engine is not called. Else the engine is called once, for the target alone and with options that let
nothing be emitted. On the command line the check is that of standard input with the server's
engine. If it fails, then nothing is printed, and if it succeeds, then the lines of its reports are,
as far as standard output takes them; the status is zero exactly if it takes them all. -/
theorem check_stages (note : Warning → ω) (engine : Engine ω ε) (tree : FileTree)
    (base path : String) (reads : List ReadResult) :
    let result := checkReads note engine tree base path reads
    let called := tasks note engine tree base path reads
    let target := Path.normalize path
    let reached := Config.reached tree base target
    (∀ e, readBuffer reads = .error e ↔
      ∃ before after, reads = before ++ .failed e.text :: after ∧ ∀ r ∈ before, r.GoesOn) ∧
    (∀ e, readBuffer reads = .error e → result = ⟨[], .error (.input e)⟩ ∧ called = []) ∧
    (∀ buffer, readBuffer reads = .ok buffer →
      (∀ before config after e, reached = before ++ config :: after →
        (∀ p ∈ before, Config.fault? tree p = none) → Config.fault? tree config = some e →
        result = ⟨(Config.resolve tree base target).log.map note, .error (.config e)⟩ ∧
          e.path = config ∧ called = []) ∧
      ((∀ p ∈ reached, Config.fault? tree p = none) →
        ∃ options, options.get? "noEmit" = some (.bool true) ∧ called = [⟨[target], options⟩] ∧
          let built := engine ⟨[target], options⟩
            (BufferOverride.wrap ⟨target, buffer⟩ (diskProvider tree base))
          result.log = (Config.resolve tree base target).log.map note ++ built.log ∧
          (∀ e, built.outcome = .error e → result.outcome = .error (.engine e)) ∧
          ∀ program, built.outcome = .ok program →
            result.outcome = .ok (program.reports target))) ∧
    (∀ p, p ∈ reached ↔ ∃ root directory fs,
      Config.find? tree (Config.searchDirectory base target) = some root ∧
        Config.Stack tree Config.SpelledAlike root base (⟨p, directory⟩ :: fs)) ∧
    (∀ u : FileTree, (∀ p, tree.isFile p = u.isFile p) →
      (∀ p ∈ Config.opened tree base target, tree.readText p = u.readText p) →
      Config.resolve tree base target = Config.resolve u base target) ∧
    ∀ s arguments file, CommandLine.parse none false arguments = .check file →
      let checked := checkReads id
        (Server.engine s.settings s.tree s.directory s.processId s.launch) s.tree s.directory file
        s.input
      let run := CommandLine.run s arguments
      (∀ e, checked.outcome = .error e → (run = none ↔ e = .engine .blocked) ∧
        ∀ exit, run = some exit → exit.stdout.accepted = [] ∧ exit.status = 1) ∧
      ∀ reports, checked.outcome = .ok reports →
        let lines := Utf8.encode (String.join (reports.map Report.lineText))
        ∃ exit, run = some exit ∧
          exit.stdout.accepted = lines.take (s.room.getD lines.length) ∧
          exit.status = if exit.stdout.accepted = lines then 0 else 1 := by
  intro result called target reached
  refine ⟨fun e => readBuffer_eq_error_iff.trans readBytes_eq_error_iff, fun e hread => ?_,
    fun buffer hread => ⟨?_, ?_⟩, fun p => ?_, fun u => Config.resolve_congr, ?_⟩
  · refine ⟨checkReads_of_error hread, ?_⟩
    simp only [called, tasks, checkReads_of_error hread, List.filterMap_nil]
  · intro before config after e hreached hbefore hfault
    have hfails := Config.failure?_resolve tree base target
    have hfirst : (Config.reached tree base target).findSome? (Config.fault? tree) = some e :=
      List.findSome?_eq_some_iff.mpr ⟨before, config, after, hreached, hfault, hbefore⟩
    have hresolve := Logged.failure?_eq_some.mp (hfails.trans hfirst)
    refine ⟨?_, Config.path_of_fault? hfault, tasks_of_error hread hresolve⟩
    exact (checkReads_of_ok hread).trans (runCheck_of_error hresolve)
  · intro hnone
    have hfails := Config.failure?_resolve tree base target
    have hfirst : (Config.reached tree base target).findSome? (Config.fault? tree) = none :=
      List.findSome?_eq_none_iff.mpr hnone
    obtain ⟨resolved, hresolve⟩ := Logged.failure?_eq_none.mp (hfails.trans hfirst)
    have hresult : result = _ := (checkReads_of_ok hread).trans (runCheck_of_ok hresolve)
    refine ⟨resolved.options, Config.noEmit_of_resolve hresolve, tasks_of_ok hread hresolve, ?_⟩
    intro built
    refine ⟨congrArg Logged.log hresult, fun e he => ?_, fun program hp => ?_⟩
    · have houtcome := congrArg Logged.outcome hresult
      rw [he] at houtcome
      exact houtcome
    · have houtcome := congrArg Logged.outcome hresult
      rw [hp] at houtcome
      exact houtcome
  · exact Config.mem_reached_iff tree base target p
  · intro s arguments file hparse checked run
    exact ⟨fun e he => CommandLine.run_of_error hparse he,
      fun reports hreports => CommandLine.run_of_ok hparse hreports⟩

section Sample
open Server

/-- A response that tells success. -/
def response (seq : Nat) (more : List Json) : Json :=
  .array (.string "response" :: .ofNat seq :: .bool true :: more)

/-- What a server says that answers all calls of a build of one root, and finds a problem in it. -/
def sampleSaid : List Json :=
  [response 1 [], response 2 [], response 3 [],
    response 4 [.string "", .null, .array [sampleFinding]], response 5 [], response 6 []]

theorem sendable_sampleSaid : ∀ v ∈ sampleSaid, Frame.Sendable v := by
  have hfinding : (Json.array [sampleFinding]).Plain 126 := by
    simp [Json.plain_array_iff, sampleFinding, Json.Plain.ofNat, Json.Plain.string, UInt64.size]
  have hresponse : ∀ seq more, seq ≤ 6 → (∀ v ∈ more, Json.Plain 126 v) →
      (response seq more).Plain Json.Reader.maxLevels := by
    intro seq more hseq hmore
    have hlt : seq < UInt64.size := Nat.lt_of_le_of_lt hseq (by decide)
    simpa [response, Json.plain_array_iff, Json.Plain.ofNat _ hlt, Json.Plain.string,
      Json.Plain.bool, Json.Reader.maxLevels] using hmore
  have hplain : ∀ v ∈ sampleSaid, v.Plain Json.Reader.maxLevels := by
    simp [sampleSaid, hresponse, hfinding, Json.Plain.string, Json.Plain.null]
  have hfits : ∀ v ∈ sampleSaid, (Frame.body v).length ≤ Frame.maxBody := by decide +kernel
  exact fun v hv => ⟨hplain v hv, hfits v hv⟩

theorem answers_sampleSaid : Answers 0 (sampleSaid.map .message ++ [.closed])
    [none, none, none, some (.array [sampleFinding]), none, none] := by
  refine .cons ⟨[], _, _, rfl, by simp, rfl, rfl, rfl, rfl⟩ ?_
  refine .cons ⟨[], _, _, rfl, by simp, rfl, rfl, rfl, rfl⟩ ?_
  refine .cons ⟨[], _, _, rfl, by simp, rfl, rfl, rfl, rfl⟩ ?_
  refine .cons ⟨[], _, _, rfl, by simp, rfl, rfl, rfl, rfl⟩ ?_
  refine .cons ⟨[], _, _, rfl, by simp, rfl, rfl, rfl, rfl⟩ ?_
  exact .cons ⟨[], _, _, rfl, by simp, rfl, rfl, rfl, rfl⟩ (.nil _ _)

/-- A server that says so whatever it is asked. -/
def sampleLaunch : Launcher := fun _ => .ok (sampleSaid.flatMap Frame.ofJson)

/-- A run of the command line where the server's file is given. -/
def sampleRun (input : List ReadResult) (room : Option Nat) : CommandLine.Surroundings where
  tree := {}
  directory := "/p"
  settings := { server := some "/ts.js" }
  processId := 1
  input
  room
  launch := sampleLaunch

/-- The engine finds the problem in the buffer. -/
theorem engine_sampleLaunch (tree : FileTree) (text : String) (options : OptionSet) :
    let file := SourceFile.ofText "a.ts" text options.target
    let finding : Finding := ⟨some 0, some 1, "m", "error", 7, none, none⟩
    (engine { server := some "/ts.js" } tree "/p" 1 sampleLaunch ⟨["a.ts"], options⟩
        (BufferOverride.wrap ⟨"a.ts", text⟩ (diskProvider tree "/p"))).outcome
      = .ok (.ofBuild ["a.ts"] options [file] [inFile file finding]) := by
  intro file finding
  have hw := @Session.writing_build (Session.ofBase "/p" (projectName "/p" 1)) ⟨["a.ts"], options⟩
    (BufferOverride.wrap ⟨"a.ts", text⟩ (diskProvider tree "/p"))
    (.ofServer (sampleSaid.flatMap Frame.ofJson) none) ⟨rfl, rfl⟩
  have hanswers : Answers 0 (Inbound.ofStream (sampleSaid.flatMap Frame.ofJson))
      [none, none, none, some (.array [sampleFinding]), none, none] := by
    rw [Frame.ofStream_frames sendable_sampleSaid]
    exact answers_sampleSaid
  exact (Session.outcome_build_iff hw).mpr ⟨_, ⟨_, hanswers, gathered_plan_iff.mpr ⟨_, _, _, _, _,
    rfl, .cons holds_sampleFinding (.cons .nothing (.cons .nothing .nil)), rfl, rfl⟩⟩, rfl⟩

theorem reached_sampleRun : Config.reached {} "/p" "a.ts" = [] := by
  have hnone : Config.find? {} (Config.searchDirectory "/p" "a.ts") = none := by
    rw [Config.find?_eq]
    unfold FileTree.isFile FileTree.readBytes
    simp only [FileTree.locate_eq]
    decide +kernel
  rw [Config.reached, hnone]

theorem reports_sampleRun (options : OptionSet) :
    let file := SourceFile.ofText "a.ts" "x" options.target
    let finding : Finding := ⟨some 0, some 1, "m", "error", 7, none, none⟩
    (Program.ofBuild ["a.ts"] options [file] [inFile file finding]).reports "a.ts"
      = [⟨"a.ts", 1, 1, "m"⟩] := by
  intro file finding
  have hsorted : Diagnostic.sorted [inFile file finding] = [inFile file finding] :=
    Diagnostic.sorted_eq_of_perm (.refl _) (List.pairwise_singleton _ _)
  rw [Program.ofBuild, hsorted]
  cbv

end Sample

open Server in
/-- A run whose report is taken, one whose output has no room for all of it, and one that cannot
read its input to the end. -/
theorem check_sampleRun :
    CommandLine.parse none false ["./a.ts"] = .check "./a.ts" ∧
      (∃ exit, CommandLine.run (sampleRun [.chunk [120]] none) ["./a.ts"] = some exit ∧
        exit.stdout.accepted = Utf8.encode "a.ts[1, 1]: m\n" ∧ exit.status = 0) ∧
      (∃ exit, CommandLine.run (sampleRun [.chunk [120]] (some 3)) ["./a.ts"] = some exit ∧
        exit.stdout.accepted = Utf8.encode "a.t" ∧ exit.status = 1) ∧
      ∃ exit, CommandLine.run (sampleRun [.chunk [120], .failed "gone"] none) ["./a.ts"]
          = some exit ∧ exit.stdout.accepted = [] ∧ exit.status = 1 := by
  have hparse : CommandLine.parse none false ["./a.ts"] = .check "./a.ts" := by decide +kernel
  have htarget : Path.normalize "./a.ts" = "a.ts" := by decide +kernel
  obtain ⟨-, -, hok, -, -, hcommand⟩ := check_stages id
    (engine { server := some "/ts.js" } {} "/p" 1 sampleLaunch) {} "/p" "./a.ts" [.chunk [120]]
  obtain ⟨hfails, hfailed, -⟩ := check_stages id
    (engine { server := some "/ts.js" } {} "/p" 1 sampleLaunch) {} "/p" "./a.ts"
    [.chunk [120], .failed "gone"]
  simp only [htarget] at hok
  have hreached : ∀ p ∈ Config.reached {} "/p" "a.ts", Config.fault? {} p = none := by
    simp [reached_sampleRun]
  obtain ⟨options, -, -, -, -, hbuilt⟩ := (hok "x" (by decide +kernel)).2 hreached
  have hreports := hbuilt _ (engine_sampleLaunch {} "x" options)
  rw [reports_sampleRun] at hreports
  have hread := (hfails ⟨"gone"⟩).mpr ⟨[.chunk [120]], [], rfl, by simp [ReadResult.GoesOn]⟩
  have herror := congrArg Logged.outcome (hfailed ⟨"gone"⟩ hread).1
  have hlines : Utf8.encode (String.join ([⟨"a.ts", 1, 1, "m"⟩].map Report.lineText))
      = Utf8.encode "a.ts[1, 1]: m\n" := by decide +kernel
  have hrun := fun room =>
    (hcommand (sampleRun [.chunk [120]] room) ["./a.ts"] "./a.ts" hparse).2 _ hreports
  simp only [hlines] at hrun
  have hfirst : (Utf8.encode "a.ts[1, 1]: m\n").take 3 = Utf8.encode "a.t" := by decide +kernel
  have hcut : Utf8.encode "a.t" ≠ Utf8.encode "a.ts[1, 1]: m\n" := by decide +kernel
  refine ⟨hparse, ?_, ?_, ?_⟩
  · obtain ⟨exit, hexit, haccepted, hstatus⟩ := hrun none
    have hall := haccepted.trans (List.take_length ..)
    exact ⟨exit, hexit, hall, hstatus.trans (if_pos hall)⟩
  · obtain ⟨exit, hexit, haccepted, hstatus⟩ := hrun (some 3)
    have hthree : exit.stdout.accepted = Utf8.encode "a.t" := haccepted.trans hfirst
    exact ⟨exit, hexit, hthree, hstatus.trans (if_neg (hthree ▸ hcut))⟩
  · obtain ⟨hends, hempty⟩ :=
      (hcommand (sampleRun [.chunk [120], .failed "gone"] none) _ _ hparse).1 _ herror
    obtain ⟨exit, hexit⟩ := Option.ne_none_iff_exists'.mp (mt hends.mp (by simp))
    exact ⟨exit, hexit, hempty exit hexit⟩

end BufferCheck
