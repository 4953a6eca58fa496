import BufferCheck.Config.Discovery
import BufferCheck.Server.Session

/-!
Starting the server: which file it is, the command that runs it, and an engine that starts one
server for each build.
-/
namespace BufferCheck.Server

/-- How the server is started. -/
structure Settings where
  /-- The program that runs it. -/
  node : String := "node"
  /-- The server's file; it is searched for if none is given. -/
  server : Option String := none

/-- The nearest server in a directory or above it. -/
def findServer? (tree : FileTree) (directory : String) : Option String :=
  Path.searchUp (fun d => Config.firstFile? tree [Path.child d serverPath]) directory

namespace Settings

/-- The settings that two variables give; an empty value is none. -/
def ofVariables (node server : Option String) : Settings :=
  { node := (node.filter (· ≠ "")).getD "node", server := server.filter (· ≠ "") }

/-- The server's file: the one given, or the nearest above one of the directories, tried in order.
-/
def locate (settings : Settings) (tree : FileTree) (directories : List String) :
    Except EngineError String :=
  match settings.server with
  | some path => .ok path
  | none =>
    match directories.findSome? (findServer? tree) with
    | some path => .ok path
    | none => .error (.serverNotFound (directories.headD ""))

/-- The program and its arguments. -/
def command (settings : Settings) (server : String) : List String :=
  [settings.node, server, "--disableAutomaticTypingAcquisition", "--suppressDiagnosticEvents"]

end Settings

/-- Starts a command: all that it will ever say, or why it could not be started. -/
abbrev Launcher := List String → Except String (List UInt8)

/-- The directories to search for a server: that of the first root, then the base. -/
def searchDirectories (base : String) (rootNames : List String) : List String :=
  match rootNames with
  | [] => [base, base]
  | root :: _ => [Path.directoryOf (Path.toAbsolute base root), base]

/-- The name of the project that a process sets up. -/
def projectName (base : String) (processId : Nat) : String :=
  Path.toAbsolute base ("tsc-stdin-" ++ .ofList (Decimal.digits processId) ++ ".project")

/-- Start a server and build with it: what comes of it, and the requests that are submitted. -/
def converse (settings : Settings) (tree : FileTree) (base : String) (processId : Nat)
    (launch : Launcher) (task : BuildTask) (host : SourceProvider) :
    Logged Warning Halt Program × List Request :=
  match settings.locate tree (searchDirectories base task.rootNames) with
  | .error e => (.fail (.failed e), [])
  | .ok server =>
    match launch (settings.command server) with
    | .error cause => (.fail (.failed (.notStarted settings.node cause)), [])
    | .ok sent =>
      let built := (Session.ofBase base (projectName base processId)).build task host
        (.ofServer sent none)
      (built.1, built.2.submitted)

/-- The engine that starts a server and builds with it. -/
def engine (settings : Settings) (tree : FileTree) (base : String) (processId : Nat)
    (launch : Launcher) : Engine Warning Halt := fun task host =>
  (converse settings tree base processId launch task host).1

end BufferCheck.Server
