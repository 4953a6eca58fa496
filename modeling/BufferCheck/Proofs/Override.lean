import BufferCheck.Proofs.Check
import BufferCheck.Proofs.FileTree.Differ
import BufferCheck.Proofs.Path.Relative
import BufferCheck.Proofs.Server.Submission
import BufferCheck.Proofs.SourceProvider

/-! In a check the buffer stands in for its target: the file that the disk has there is not looked
at, under whatever name. -/
namespace BufferCheck

namespace Server

variable {t u : FileTree} {s : Session} {task : BuildTask} {host host' : SourceProvider}
  {settings : Settings} {base : String} {processId : Nat} {launch : Launcher}

/-- The engine, with the requests that it submits noted before its warnings. -/
def wiretapped (settings : Settings) (tree : FileTree) (base : String) (processId : Nat)
    (launch : Launcher) : Engine (Request ⊕ Warning) Halt := fun task host =>
  let (built, submitted) := converse settings tree base processId launch task host
  ⟨submitted.map .inl ++ built.log.map .inr, built.outcome⟩

section Congruence

theorem loadRoots_congr {target : ScriptTarget} {names : List String}
    (h : ∀ name ∈ names, host name target = host' name target) :
    s.loadRoots target host names = s.loadRoots target host' names := by
  induction names with
  | nil => rfl
  | cons name names ih =>
    obtain ⟨hname, hnames⟩ := List.forall_mem_cons.mp h
    rw [Session.loadRoots, Session.loadRoots, hname, ih hnames]

theorem build_congr
    (h : ∀ name ∈ task.rootNames, host name task.options.target = host' name task.options.target)
    (c : Client) : s.build task host c = s.build task host' c := by
  rw [Session.build, Session.build, loadRoots_congr h]

theorem locate_congr (hfiles : ∀ p, t.isFile p = u.isFile p) (directories : List String) :
    settings.locate t directories = settings.locate u directories := by
  have hserver : findServer? t = findServer? u := by
    funext directory
    rw [findServer?, findServer?]
    simp only [Config.firstFile?, funext hfiles]
  rw [Settings.locate, Settings.locate, hserver]

/-- What comes of a build depends on the tree by the paths that lead to files, and on the host by
what it has for the roots. -/
theorem converse_congr (hfiles : ∀ p, t.isFile p = u.isFile p)
    (h : ∀ name ∈ task.rootNames, host name task.options.target = host' name task.options.target) :
    converse settings t base processId launch task host
      = converse settings u base processId launch task host' := by
  rw [converse, converse, locate_congr hfiles]
  cases settings.locate u (searchDirectories base task.rootNames) with
  | error e => rfl
  | ok server =>
    cases hsent : launch (settings.command server) with
    | error cause => simp only [hsent]
    | ok sent => simp only [hsent, build_congr h]

end Congruence

/-- The requests of a build for one root hand over the text that the host has for it. -/
theorem openFiles_of_mem_converse {name : String} {file : SourceFile} {r : Request}
    (hroots : task.rootNames = [name])
    (hfile : (host name task.options.target).file = some file)
    (hr : r ∈ (converse settings t base processId launch task host).2)
    (hc : r.command = "updateOpen") :
    Session.listed "openFiles" "file" r.arguments
        = some [some (.string (Path.toAbsolute (Path.toAbsolute base ".") name))] ∧
      Session.listed "openFiles" "fileContent" r.arguments = some [some (.string file.text)] := by
  rw [converse] at hr
  split at hr
  · cases hr
  split at hr
  · cases hr
  next sent _ =>
  obtain ⟨made, hsent, hmade⟩ :=
    (Session.ofBase base (projectName base processId)).exists_made task host
      (c := .ofServer sent none) rfl rfl
  have hgiven : (Session.ofBase base (projectName base processId)).given task host
      = [⟨name, Path.toAbsolute (Path.toAbsolute base ".") name, file⟩] := by
    rw [Session.given, hroots, List.filterMap_cons_some (by rw [hfile]; rfl)]
    rfl
  rw [hgiven] at hmade
  have hr : r ∈ numbered 0 made := hsent ▸ hr
  exact ⟨Session.openFiles_of_made hmade hr hc "file",
    Session.openFiles_of_made hmade hr hc "fileContent"⟩

end Server

section Requests
open Server

variable {t u : FileTree} {base target text path : String} {settings : Settings} {processId : Nat}
  {launch : Launcher}

/-- The requests that a check submits to the server. -/
def requests (settings : Settings) (tree : FileTree) (base : String) (processId : Nat)
    (launch : Launcher) (buffer : BufferOverride) : List Request :=
  (runCheck .inr (wiretapped settings tree base processId launch) tree base buffer).log.filterMap
    Sum.getLeft?

theorem requests_of_ok {resolved : Resolution}
    (h : (Config.resolve t base target).outcome = .ok resolved) :
    requests settings t base processId launch ⟨target, text⟩
      = (converse settings t base processId launch ⟨[target], resolved.options⟩
          (BufferOverride.wrap ⟨target, text⟩ (diskProvider t base))).2 := by
  rw [requests, runCheck_of_ok h, List.filterMap_append,
    filterMap_getLeft?_of_none fun _ => rfl, List.nil_append, wiretapped, List.filterMap_append,
    filterMap_getLeft?_of_none (f := Sum.inr) fun _ => rfl, List.append_nil, List.filterMap_map]
  exact List.filterMap_some

theorem requests_of_error {e : ConfigError}
    (h : (Config.resolve t base target).outcome = .error e) :
    requests settings t base processId launch ⟨target, text⟩ = [] := by
  rw [requests, runCheck_of_error h]
  exact filterMap_getLeft?_of_none (fun _ => rfl) _

/-- Where files are handed over, it is the target alone, with the buffer as its content. -/
theorem openFiles_of_mem_requests {r : Request}
    (hr : r ∈ requests settings t base processId launch ⟨target, text⟩)
    (hc : r.command = "updateOpen") :
    Session.listed "openFiles" "file" r.arguments
        = some [some (.string (Path.toAbsolute (Path.toAbsolute base ".") target))] ∧
      Session.listed "openFiles" "fileContent" r.arguments = some [some (.string text)] := by
  cases houtcome : (Config.resolve t base target).outcome with
  | error e =>
    rw [requests_of_error houtcome] at hr
    cases hr
  | ok resolved =>
    rw [requests_of_ok houtcome] at hr
    have hfile : (BufferOverride.wrap ⟨target, text⟩ (diskProvider t base) target
        resolved.options.target).file = some (.ofText target text resolved.options.target) := by
      rw [BufferOverride.wrap_self ⟨target, text⟩]
    exact openFiles_of_mem_converse rfl hfile hr hc

end Requests

section Target
open Server

variable {ω ε : Type} {t u : FileTree} {base target text path : String}

/-- Under its target the buffer is what the engine gets, whatever the disk has. -/
theorem converse_override (hfiles : ∀ p, t.isFile p = u.isFile p) (target text base : String)
    (settings : Settings) (processId : Nat) (launch : Launcher) (options : OptionSet) :
    converse settings t base processId launch ⟨[target], options⟩
        (BufferOverride.wrap ⟨target, text⟩ (diskProvider t base))
      = converse settings u base processId launch ⟨[target], options⟩
        (BufferOverride.wrap ⟨target, text⟩ (diskProvider u base)) := by
  refine converse_congr hfiles fun name hname => ?_
  obtain rfl := List.mem_singleton.mp hname
  rw [BufferOverride.wrap_self ⟨name, text⟩, BufferOverride.wrap_self ⟨name, text⟩]

/-- The same comes of a check if the same comes of resolving and of the engine. -/
theorem runCheck_congr {note : Warning → ω} {engine engine' : Engine ω ε}
    (hresolve : Config.resolve t base target = Config.resolve u base target)
    (hengine : ∀ options, engine ⟨[target], options⟩
        (BufferOverride.wrap ⟨target, text⟩ (diskProvider t base))
      = engine' ⟨[target], options⟩ (BufferOverride.wrap ⟨target, text⟩ (diskProvider u base))) :
    runCheck note engine t base ⟨target, text⟩ = runCheck note engine' u base ⟨target, text⟩ := by
  rw [runCheck_eq, runCheck_eq, hresolve]
  simp only [hengine]

/-- The bytes that the disk has at the target's path have no effect on a check, as long as no
configuration is read from there: the same options are resolved with the same warnings, the same
requests are submitted, with the buffer as the content of the target, and the outcome is the same.
-/
theorem check_ignores_target_on_disk (hb : Path.isRooted base = true)
    (hd : FileTree.DifferAt (Path.names (Path.toAbsolute base path)) t u)
    (hopened : ∀ p ∈ Config.opened t base (Path.normalize path),
      t.realPath p ≠ .ok (Path.toAbsolute base path))
    (settings : Settings) (processId : Nat) (launch : Launcher) (text : String) :
    let target := Path.normalize path
    let buffer := BufferOverride.ofPath path text
    let submitted := requests settings t base processId launch buffer
    Config.resolve t base target = Config.resolve u base target ∧
      runCheck id (engine settings t base processId launch) t base buffer
        = runCheck id (engine settings u base processId launch) u base buffer ∧
      submitted = requests settings u base processId launch buffer ∧
      ∀ r ∈ submitted, r.command = "updateOpen" →
        Session.listed "openFiles" "file" r.arguments
            = some [some (.string (Path.toAbsolute base path))] ∧
          Session.listed "openFiles" "fileContent" r.arguments = some [some (.string text)] := by
  intro target buffer submitted
  have hfiles := hd.sameShape.isFile_eq
  have hplace : Path.ofNames (Path.names (Path.toAbsolute base path)) = Path.toAbsolute base path :=
    Path.ofNames_names_toAbsolute hb
  have hresolve : Config.resolve t base target = Config.resolve u base target := by
    refine Config.resolve_congr hfiles fun p hp => hd.readText_eq ?_
    rw [hplace]
    exact hopened p hp
  have hconverse := converse_override hfiles target text base settings processId launch
  refine ⟨hresolve, runCheck_congr hresolve fun options => ?_, ?_, fun r hr hc => ?_⟩
  · rw [engine, engine, hconverse]
  · have hwiretapped : ∀ options, wiretapped settings t base processId launch ⟨[target], options⟩
        (BufferOverride.wrap ⟨target, text⟩ (diskProvider t base))
          = wiretapped settings u base processId launch ⟨[target], options⟩
            (BufferOverride.wrap ⟨target, text⟩ (diskProvider u base)) := by
      intro options
      rw [wiretapped, wiretapped, hconverse]
    exact congrArg (fun r => r.log.filterMap Sum.getLeft?) (runCheck_congr hresolve hwiretapped)
  · have hr : r ∈ requests settings t base processId launch ⟨Path.normalize path, text⟩ := hr
    have hopen := openFiles_of_mem_requests hr hc
    rwa [Path.toAbsolute_normalize hb] at hopen

end Target

section Sample
open Server

/-- A project with one configuration and a target of the given content. -/
def targetTree (bytes : List UInt8) : FileTree :=
  { inside := [("p", .directory
      [("tsconfig.json", .file (Utf8.encode "\x7b\x7d")), ("a.ts", .file bytes)])] }

/-- What is on the disk, before and after it is written. -/
def savedTree : FileTree := targetTree [120]

theorem differAt_targetTree (a b : List UInt8) :
    FileTree.DifferAt ["p", "a.ts"] (targetTree a) (targetTree b) := by
  refine ⟨rfl, ⟨⟨a, rfl⟩, b, rfl⟩, fun names hne => ?_⟩
  cases names with
  | nil => rfl
  | cons n names =>
    simp only [targetTree, FileTree.entry?, FileTree.entryFrom?, List.lookup_cons]
    split
    · next hn =>
      cases names with
      | nil => rfl
      | cons m names =>
        simp only [Option.bind_some, FileTree.entryFrom?, List.lookup_cons]
        split
        · rfl
        · split
          · next hm =>
            cases names with
            | nil => exact absurd (by rw [eq_of_beq hn, eq_of_beq hm]) hne
            | cons => rfl
          · rfl
    · rfl

theorem found_savedTree :
    Config.find? savedTree (Config.searchDirectory "/p" "a.ts") = some "/p/tsconfig.json" ∧
      savedTree.readBytes "/p/tsconfig.json" = .ok (Utf8.encode "\x7b\x7d") ∧
      savedTree.realPath "/p/tsconfig.json" = .ok "/p/tsconfig.json" := by
  rw [Config.find?_eq]
  unfold FileTree.isFile FileTree.readBytes FileTree.realPath
  simp only [FileTree.locate_eq]
  decide +kernel

theorem declaration?_savedTree :
    Config.declaration? savedTree "/p/tsconfig.json" = some ⟨[], []⟩ := by
  obtain ⟨-, hbytes, -⟩ := found_savedTree
  refine Config.declaration?_eq_some_iff.mpr ⟨_, hbytes, ?_⟩
  rw [Config.declared?_encode]
  cbv

theorem reached_savedTree : Config.reached savedTree "/p" "a.ts" = ["/p/tsconfig.json"] := by
  simp only [Config.reached, found_savedTree.1]
  rw [Config.preorder_of_some declaration?_savedTree, Config.preorderBases_nil]

theorem fault?_savedTree : Config.fault? savedTree "/p/tsconfig.json" = none :=
  Config.fault?_of_some declaration?_savedTree

theorem opened_savedTree : Config.opened savedTree "/p" "a.ts" = ["/p/tsconfig.json"] := by
  rw [Config.opened, reached_savedTree, Config.upToFault, fault?_savedTree]
  rfl

/-- A server that answers every call is handed the target. -/
theorem exists_open_savedTree (text : String) :
    ∃ r ∈ requests { server := some "/ts.js" } savedTree "/p" 1 sampleLaunch ⟨"a.ts", text⟩,
      r.command = "updateOpen" := by
  have hfails := Config.failure?_resolve savedTree "/p" "a.ts"
  rw [reached_savedTree, List.findSome?_singleton, fault?_savedTree] at hfails
  obtain ⟨resolved, hresolve⟩ := Logged.failure?_eq_none.mp hfails
  rw [requests_of_ok hresolve]
  obtain ⟨made, hsent, hout⟩ :=
    (Session.ofBase "/p" (projectName "/p" 1)).build_submitted ⟨["a.ts"], resolved.options⟩
      (BufferOverride.wrap ⟨"a.ts", text⟩ (diskProvider savedTree "/p"))
      (c := .ofServer (sampleSaid.flatMap Frame.ofJson) none) rfl rfl
  have hok := engine_sampleLaunch savedTree text resolved.options
  rcases hout with ⟨-, rfl⟩ | ⟨⟨e, he⟩, -⟩
  · have hcommands := congrArg (List.map (·.command)) hsent
    rw [map_command_numbered, Session.map_command_wholePlan] at hcommands
    have hmem : ∀ roots, "updateOpen" ∈ Session.commands roots := by simp [Session.commands]
    obtain ⟨r, hr, hc⟩ := List.mem_map.mp (hcommands ▸ hmem _)
    exact ⟨r, hr, hc⟩
  · cases he.symm.trans hok

/-- The target is given by way of `.`, and its content on the disk is removed. A server that answers
is handed the buffer. -/
theorem check_savedTree :
    Path.isRooted "/p" = true ∧
      FileTree.DifferAt (Path.names (Path.toAbsolute "/p" "./a.ts")) savedTree (targetTree []) ∧
      (∀ p ∈ Config.opened savedTree "/p" (Path.normalize "./a.ts"),
        savedTree.realPath p ≠ .ok (Path.toAbsolute "/p" "./a.ts")) ∧
      (∀ settings processId launch text,
        runCheck id (Server.engine settings savedTree "/p" processId launch) savedTree "/p"
            (.ofPath "./a.ts" text)
          = runCheck id (Server.engine settings (targetTree []) "/p" processId launch)
            (targetTree []) "/p" (.ofPath "./a.ts" text)) ∧
      ∀ text, ∃ r ∈ requests { server := some "/ts.js" } savedTree "/p" 1 sampleLaunch
          (.ofPath "./a.ts" text),
        r.command = "updateOpen" ∧
          Session.listed "openFiles" "file" r.arguments = some [some (.string "/p/a.ts")] ∧
          Session.listed "openFiles" "fileContent" r.arguments = some [some (.string text)] := by
  have hroot : Path.isRooted "/p" = true := by decide +kernel
  have hnames : Path.names (Path.toAbsolute "/p" "./a.ts") = ["p", "a.ts"] := by decide +kernel
  have htarget : Path.normalize "./a.ts" = "a.ts" := by decide +kernel
  have hother : "/p/tsconfig.json" ≠ Path.toAbsolute "/p" "./a.ts" := by decide +kernel
  have hd := differAt_targetTree [120] []
  rw [← hnames] at hd
  have hopened : ∀ p ∈ Config.opened savedTree "/p" (Path.normalize "./a.ts"),
      savedTree.realPath p ≠ .ok (Path.toAbsolute "/p" "./a.ts") := by
    intro p hp
    rw [htarget, opened_savedTree] at hp
    rw [List.mem_singleton.mp hp, found_savedTree.2.2]
    exact fun h => hother (Except.ok.inj h)
  refine ⟨hroot, hd, hopened, fun settings processId launch text => ?_, fun text => ?_⟩
  · exact (check_ignores_target_on_disk hroot hd hopened settings processId launch text).2.1
  · obtain ⟨-, -, -, hopen⟩ := check_ignores_target_on_disk hroot hd hopened
      { server := some "/ts.js" } 1 sampleLaunch text
    obtain ⟨r, hr, hc⟩ := exists_open_savedTree text
    have hplace : Path.toAbsolute "/p" "./a.ts" = "/p/a.ts" := by decide +kernel
    have hr : r ∈ requests { server := some "/ts.js" } savedTree "/p" 1 sampleLaunch
        (.ofPath "./a.ts" text) := by
      rwa [BufferOverride.ofPath, htarget]
    rw [hplace] at hopen
    exact ⟨r, hr, hc, hopen r hr hc⟩

end Sample

end BufferCheck
