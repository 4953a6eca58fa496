import BufferCheck.Engine
import BufferCheck.Server.Client
import BufferCheck.Server.Finding
import BufferCheck.Warning

/-!
One build as a conversation. All calls are planned before the first is made: the project is set
up, the texts of the roots are handed over, and the diagnostics of each root and of the project
are asked for. The calls are made one by one, each after the response to the one before it, and
the server is told to exit after the last.
-/
namespace BufferCheck.Server

namespace Command

def configure : String := "configure"
def openProject : String := "openExternalProject"
def updateOpen : String := "updateOpen"
def syntacticDiagnostics : String := "syntacticDiagnosticsSync"
def semanticDiagnostics : String := "semanticDiagnosticsSync"
def projectDiagnostics : String := "compilerOptionsDiagnostics-full"
def exit : String := "exit"

end Command

/-- A file to build: its name, its path, and what the host gave for it. -/
structure Root where
  name : String
  path : String
  file : SourceFile

/-- What becomes of the body of a response. -/
inductive BodyUse where
  | dropped
  /-- It holds diagnostics of a file, or of the project. -/
  | diagnostics (file : Option SourceFile)

/-- A call that is to be made. -/
structure PlannedCall where
  command : String
  arguments : Json
  use : BodyUse

/-- Where a build takes place. -/
structure Session where
  /-- The directory that paths are seen from, as an absolute path. -/
  base : String
  projectName : String

namespace Session

def ofBase (base projectName : String) : Session := ⟨Path.toAbsolute base ".", projectName⟩

/-- The roots that the host has, and a warning for each complaint of the host. -/
def loadRoots (s : Session) (target : ScriptTarget) (host : SourceProvider) :
    List String → List Root × List Warning
  | [] => ([], [])
  | name :: rest =>
    let found := host name target
    let more := loadRoots s target host rest
    let warnings := found.complaints.map fun c => Warning.rootUnreadable name c
    match found.file with
    | none => (more.1, warnings ++ more.2)
    | some file => (⟨name, Path.toAbsolute s.base name, file⟩ :: more.1, warnings ++ more.2)

/-- The call that sets up the project. -/
def openProject (s : Session) (options : OptionSet) (roots : List Root) : PlannedCall :=
  { command := Command.openProject
    arguments := .ofMembers
      [("projectFileName", .string s.projectName),
        ("rootFiles", .array (roots.map fun r => .ofMembers [("fileName", .string r.path)])),
        ("options", options.toJson),
        ("typeAcquisition", .ofMembers [("enable", .bool false)])]
    use := .dropped }

/-- The call that hands over the texts of the roots. -/
def openFiles (s : Session) (roots : List Root) : PlannedCall :=
  { command := Command.updateOpen
    arguments := .ofMembers
      [("openFiles", .array (roots.map fun r => .ofMembers
        [("file", .string r.path), ("fileContent", .string r.file.text),
          ("projectRootPath", .string s.base)]))]
    use := .dropped }

/-- A call that asks for diagnostics of a root. -/
def askRoot (s : Session) (command : String) (r : Root) : PlannedCall :=
  { command
    arguments := .ofMembers
      [("file", .string r.path), ("projectFileName", .string s.projectName),
        ("includeLinePosition", .bool true)]
    use := .diagnostics (some r.file) }

/-- The call that asks for the diagnostics of the project. -/
def askProject (s : Session) : PlannedCall :=
  { command := Command.projectDiagnostics
    arguments := .ofMembers [("projectFileName", .string s.projectName)]
    use := .diagnostics none }

/-- All calls of a build, in order. -/
def plan (s : Session) (options : OptionSet) (roots : List Root) : List PlannedCall :=
  [⟨Command.configure, .ofMembers [("hostInfo", .string "tsc-stdin")], .dropped⟩,
    s.openProject options roots, s.openFiles roots]
  ++ roots.flatMap (fun r =>
    [s.askRoot Command.syntacticDiagnostics r, s.askRoot Command.semanticDiagnostics r])
  ++ [s.askProject]

end Session

/-- The diagnostics in the body of a response to a call. -/
def PlannedCall.read (call : PlannedCall) (body : Option Json) :
    Except EngineError (List Diagnostic) :=
  match call.use with
  | .dropped => .ok []
  | .diagnostics file =>
    match Finding.ofBody? body with
    | .ok findings => .ok (findings.map (Finding.toDiagnostic file))
    | .error e => .error (.protocol (call.command ++ ": " ++ e.message))

/-- Make calls one after the other, and gather their diagnostics. -/
def runCalls : List PlannedCall → ClientM (List Diagnostic)
  | [] => pure []
  | call :: rest => do
    let body ← Client.call call.command call.arguments
    let found ← ExceptT.mk (pure ((call.read body).mapError .failed))
    let more ← runCalls rest
    return found ++ more

namespace Session

/-- Build the roots that the host has. -/
def buildRoots (s : Session) (task : BuildTask) (roots : List Root) : ClientM Program := do
  let found ← runCalls (s.plan task.options roots)
  Client.notify Command.exit .null
  return .ofBuild task.rootNames task.options (roots.map (·.file)) found

/-- Build a program with a client; the client is given back as the build leaves it. -/
def build (s : Session) (task : BuildTask) (host : SourceProvider) (client : Client) :
    Logged Warning Halt Program × Client :=
  let loaded := s.loadRoots task.options.target host task.rootNames
  let built := (s.buildRoots task loaded.1).run.run client
  (⟨loaded.2, built.1⟩, built.2)

end Session
end BufferCheck.Server
