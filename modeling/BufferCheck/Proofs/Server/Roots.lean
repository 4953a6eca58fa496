import BufferCheck.Proofs.Path.Relative
import BufferCheck.Proofs.Server.Submission
import BufferCheck.Server.Launch

/-! Where the roots of a build are. Paths can be followed in steps, so a session, which sees its
roots from the absolute path of a base, names them by the paths that they have as seen from the base
itself. -/
namespace BufferCheck.Server.Session
open BufferCheck.Path (directoryOf endsInSeparator isRooted toAbsolute)

variable {base : String} {made : List PlannedCall} {r : Request} {i : Nat} {options : OptionSet}
  {roots : List Root}

/-- The paths of the roots that a host has, as seen from a base. -/
def rootPaths (base : String) (task : BuildTask) (host : SourceProvider) : List String :=
  (task.rootNames.filter fun name => (host name task.options.target).file.isSome).map
    (toAbsolute base)

theorem map_path_given (s : Session) (task : BuildTask) (host : SourceProvider) :
    (s.given task host).map (·.path) = rootPaths s.base task host := by
  unfold given rootPaths
  induction task.rootNames with
  | nil => rfl
  | cons name rest ih =>
    cases h : (host name task.options.target).file with
    | none => simpa [h] using ih
    | some file => simpa [h] using ih

/-- A session names its roots by their paths as seen from its base. -/
theorem map_path_ofBase (hb : isRooted base = true) (projectName : String) (task : BuildTask)
    (host : SourceProvider) :
    ((ofBase base projectName).given task host).map (·.path) = rootPaths base task host := by
  rw [map_path_given]
  exact List.map_congr_left fun name _ => Path.toAbsolute_dot hb name

theorem asked_of_made {s : Session} (hmade : made <+: s.wholePlan options roots) :
    asked (numbered 0 made) <+: (roots.map (·.path)).flatMap fun path =>
      [("syntacticDiagnosticsSync", some (.string path)),
        ("semanticDiagnosticsSync", some (.string path))] := by
  rw [List.flatMap_map, ← asked_wholePlan]
  exact ((numbered_mono hmade).filter _).map _

/-- To follow a path and then another one is to follow the two joined, and what is reached has no
separator at its end unless it is the root. So it is the same to see paths from a base and from its
absolute path, and whatever a server does, the requests of a session name the roots by their paths
as seen from its base; the search for a server starts in the directory of the first of them. -/
theorem absolute_in_steps (hb : isRooted base = true) :
    (∀ path rest, path ≠ "" → isRooted rest = false →
        toAbsolute (toAbsolute base path) rest = toAbsolute base (path ++ "/" ++ rest)) ∧
      (∀ path, isRooted (toAbsolute base path) = true ∧
        (endsInSeparator (toAbsolute base path) = true → toAbsolute base path = "/")) ∧
      (∀ path, toAbsolute (toAbsolute base ".") path = toAbsolute base path) ∧
      ∀ projectName task host inbound output reading writing,
        let built := (ofBase base projectName).build task host { inbound, output, reading, writing }
        let sent := built.2.submitted
        let paths := rootPaths base task host
        (∀ r ∈ sent, r.command = "openExternalProject" →
          listed "rootFiles" "fileName" r.arguments
            = some (paths.map fun path => some (.string path))) ∧
        (∀ r ∈ sent, r.command = "updateOpen" →
          listed "openFiles" "file" r.arguments
            = some (paths.map fun path => some (.string path))) ∧
        (asked sent <+: paths.flatMap fun path =>
          [("syntacticDiagnosticsSync", some (.string path)),
            ("semanticDiagnosticsSync", some (.string path))]) ∧
        ∀ name rest, task.rootNames = name :: rest →
          (host name task.options.target).file.isSome = true →
          ∃ path, paths.head? = some path ∧
            searchDirectories base task.rootNames = [directoryOf path, base] := by
  refine ⟨fun path rest => Path.toAbsolute_toAbsolute hb,
    fun path => ⟨Path.isRooted_toAbsolute hb, Path.toAbsolute_eq_root hb⟩, Path.toAbsolute_dot hb,
    fun projectName task host inbound output reading writing => ?_⟩
  intro built sent paths
  obtain ⟨made, hsent, hmade⟩ := (ofBase base projectName).exists_made task host
    (c := { inbound, output, reading, writing }) rfl rfl
  have hsent : sent = numbered 0 made := hsent
  have hpaths : ((ofBase base projectName).given task host).map (·.path) = paths :=
    map_path_ofBase hb projectName task host
  have hstrings : ∀ roots : List Root, (roots.map fun root => some (Json.string root.path))
      = (roots.map (·.path)).map fun path => some (.string path) := by
    intro roots
    rw [List.map_map]
    rfl
  rw [hsent]
  refine ⟨fun r hr hc => ?_, fun r hr hc => ?_, ?_, fun name rest hnames hfile => ?_⟩
  · rw [rootFiles_of_made hmade hr hc, hstrings, hpaths]
  · refine (openFiles_of_made hmade hr hc "file").trans ?_
    rw [← hpaths, ← hstrings]
    rfl
  · rw [← hpaths]
    exact asked_of_made hmade
  · refine ⟨toAbsolute base name, ?_, by rw [hnames]; rfl⟩
    simp [paths, rootPaths, hnames, hfile]

section Sample

/-- Three roots, two of which a host has. -/
def sampleRoots : BuildTask := ⟨["./a.ts", "gone.ts", "../b//c.ts"], .empty⟩

def sampleRootHost : SourceProvider := fun name target =>
  ⟨if name = "gone.ts" then none else some (.ofText name "" target), []⟩

theorem rootPaths_sampleRoots :
    rootPaths "//w/./app/../" sampleRoots sampleRootHost = ["/w/a.ts", "/b/c.ts"] := by
  have hkept : sampleRoots.rootNames.filter
      (fun name => (sampleRootHost name sampleRoots.options.target).file.isSome)
        = ["./a.ts", "../b//c.ts"] := by
    simp [sampleRoots, sampleRootHost]
  rw [rootPaths, hkept]
  decide +kernel

end Sample

theorem absolute_sampleRoots : isRooted "//w/./app/../" = true ∧
    toAbsolute (toAbsolute "//w/./app/../" "lib//..") "../../x.ts" = "/x.ts" ∧
    (∀ inbound output reading writing, ∀ r ∈ ((ofBase "//w/./app/../" "q").build sampleRoots
        sampleRootHost { inbound, output, reading, writing }).2.submitted,
      r.command = "openExternalProject" →
      listed "rootFiles" "fileName" r.arguments
        = some [some (.string "/w/a.ts"), some (.string "/b/c.ts")]) ∧
    searchDirectories "//w/./app/../" sampleRoots.rootNames = ["/w", "//w/./app/../"] := by
  have hb : isRooted "//w/./app/../" = true := by decide +kernel
  obtain ⟨hsteps, -, -, hsession⟩ := absolute_in_steps hb
  refine ⟨hb, ?_, fun inbound output reading writing r hr hc => ?_, ?_⟩
  · rw [hsteps "lib//.." "../../x.ts" (by decide) (by decide +kernel)]
    decide +kernel
  · have hfiles :=
      (hsession "q" sampleRoots sampleRootHost inbound output reading writing).1 r hr hc
    rw [rootPaths_sampleRoots] at hfiles
    exact hfiles
  · obtain ⟨path, hpath, hsearch⟩ :=
      (hsession "q" sampleRoots sampleRootHost [] (.fresh none) false true).2.2.2 _ _ rfl rfl
    rw [rootPaths_sampleRoots] at hpath
    obtain rfl := Option.some.inj hpath
    rw [hsearch]
    decide +kernel

end BufferCheck.Server.Session
