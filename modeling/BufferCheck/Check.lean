import BufferCheck.Buffer
import BufferCheck.Config.Resolution
import BufferCheck.Engine
import BufferCheck.Report

/-!
A check, stage by stage: the buffer is read, the options of its target are resolved, a program is
built, and the diagnostics of the target are reported. The first stage that fails ends the check.
-/
namespace BufferCheck

/-- The stage that failed. -/
inductive CheckError (ε : Type) where
  | input (e : ReadError)
  | config (e : ConfigError)
  | engine (e : ε)

instance : Failure ReadError where
  message e := "failed to read buffer: " ++ e.text
  causes e := [e.text]

instance {ε : Type} [Failure ε] : Failure (CheckError ε) where
  message
    | .input _ => "failed to read the file buffer"
    | .config _ => "failed to load project configuration"
    | .engine _ => "type-checking engine failed"
  causes
    | .input e => Failure.chain e
    | .config e => Failure.chain e
    | .engine e => Failure.chain e

variable {ω ε : Type}

/-- Check a buffer. Paths are seen from the base directory; `note` says how warnings are logged. -/
def runCheck (note : Warning → ω) (engine : Engine ω ε) (tree : FileTree) (base : String)
    (buffer : BufferOverride) : Logged ω (CheckError ε) (List Report) := do
  let resolved ← (Config.resolve tree base buffer.target).mapBoth note .config
  let program ← (engine ⟨[buffer.target], resolved.options⟩
    (buffer.wrap (diskProvider tree base))).mapBoth id .engine
  return program.reports buffer.target

/-- Read a buffer and check it as the file at a path. -/
def checkReads (note : Warning → ω) (engine : Engine ω ε) (tree : FileTree) (base path : String)
    (reads : List ReadResult) : Logged ω (CheckError ε) (List Report) := do
  let buffer ← Logged.ofExcept ((readBuffer reads).mapError .input)
  runCheck note engine tree base (.ofPath path buffer)

end BufferCheck
