import BufferCheck.Check
import BufferCheck.Server.Launch

/-! The command line: one file name, or a request for help or the version. The reports on the file
are written to standard output, which may refuse them; a check that waits for ever has no end. -/
namespace BufferCheck.CommandLine

/-- What the arguments ask for. -/
inductive Invocation where
  | check (file : String)
  | help
  | version
  | misuse
  deriving DecidableEq, Repr

/-- What an option asks for, by its first letter or its long name. -/
def option (argument : List Char) : Invocation :=
  match argument with
  | '-' :: '-' :: name =>
    if name = "help".toList then .help
    else if name = "version".toList then .version
    else .misuse
  | '-' :: 'h' :: _ => .help
  | '-' :: 'V' :: _ => .version
  | _ => .misuse

/-- The argument is an option: it starts with a dash and is not the dash alone. -/
def isOption (argument : String) : Bool := "-".isPrefixOf argument && argument ≠ "-"

/-- Read arguments from left to right; the first that decides does. After `--` all are file names.
-/
def parse (file : Option String) (plain : Bool) : List String → Invocation
  | [] =>
    match file with
    | some f => .check f
    | none => .misuse
  | a :: rest =>
    if !plain && a = "--" then parse file true rest
    else if !plain && isOption a then option a.toList
    else match file with
      | none => parse (some a) plain rest
      | some _ => .misuse

def helpText : String :=
  "Type-check a TypeScript buffer read from stdin as if it were saved at <FILE>\n\n"
    ++ "Usage: tsc-stdin <FILE>\n\n"
    ++ "Arguments:\n  <FILE>  Path the buffer stands in for; only its diagnostics are printed\n\n"
    ++ "Options:\n  -h, --help     Print help\n  -V, --version  Print version\n"

def versionText : String := "tsc-stdin 0.3.0\n"

def usageText : String := "Usage: tsc-stdin <FILE>\n"

/-- What a run sees of the machine. -/
structure Surroundings where
  tree : FileTree
  /-- The working directory, without links. -/
  directory : String
  settings : Server.Settings
  processId : Nat
  /-- Standard input. -/
  input : List ReadResult
  /-- The bytes that standard output takes; no number if it takes all. -/
  room : Option Nat
  launch : Server.Launcher

/-- What a run leaves behind. -/
structure Exit where
  status : Nat
  stdout : Output
  stderr : String

/-- The text of a failure: what failed, and the causes, numbered from the outermost if there are
several. -/
def failureText (headline : String) (causes : List String) : String :=
  let listed := match causes with
    | [cause] => ["    " ++ cause ++ "\n"]
    | _ => causes.zipIdx.map fun (cause, n) =>
      "    " ++ .ofList (Decimal.digits n) ++ ": " ++ cause ++ "\n"
  "Error: " ++ headline ++ "\n\nCaused by:\n" ++ "".intercalate listed

/-- Check standard input as a file. -/
def check (s : Surroundings) (file : String) :
    Logged Warning (CheckError Server.Halt) (List Report) :=
  checkReads id (Server.engine s.settings s.tree s.directory s.processId s.launch) s.tree
    s.directory file s.input

/-- What a check failed with, unless it waits for ever. -/
def failure? : CheckError Server.Halt → Option (CheckError Server.EngineError)
  | .input e => some (.input e)
  | .config e => some (.config e)
  | .engine (.failed e) => some (.engine e)
  | .engine .blocked => none

/-- Run the command line, to its end if it has one. Whether help is taken makes no difference. -/
def run (s : Surroundings) (arguments : List String) : Option Exit :=
  let stdout := Output.fresh s.room
  match parse none false arguments with
  | .help => some ⟨0, (stdout.write (Utf8.encode helpText)).1, ""⟩
  | .version => some ⟨0, (stdout.write (Utf8.encode versionText)).1, ""⟩
  | .misuse => some ⟨2, stdout, usageText⟩
  | .check file =>
    match (check s file).outcome with
    | .ok reports =>
      match stdout.writeReports reports with
      | (stdout, true) => some ⟨0, stdout, ""⟩
      | (stdout, false) =>
        some ⟨1, stdout, failureText "failed to write diagnostics" [Output.refusal]⟩
    | .error e => (failure? e).map fun e =>
      ⟨1, stdout, failureText ("failed to check " ++ file) (Failure.chain e)⟩

end BufferCheck.CommandLine
