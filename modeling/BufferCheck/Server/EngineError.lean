import BufferCheck.Failure

/-! Why the server gave no program: it failed, or it is waited for in vain. -/
namespace BufferCheck.Server

inductive EngineError where
  /-- The program that runs the server could not be started. -/
  | notStarted (program cause : String)
  | serverNotFound (searched : String)
  /-- A stream to or from the server failed. -/
  | io (cause : String)
  /-- A message is not what it should be. -/
  | protocol (fault : String)
  /-- The server refused a request. -/
  | rejected (command message : String)
  /-- The output of the server ended. -/
  | exited
  deriving DecidableEq, Repr

/-- The variable that names the server. -/
def serverVariable : String := "TSC_STDIN_TSSERVER"

/-- The variable that names the program that runs the server. -/
def nodeVariable : String := "TSC_STDIN_NODE"

/-- Where the server is below a directory that has it. -/
def serverPath : String := "node_modules/typescript/lib/tsserver.js"

instance : Failure EngineError where
  message
    | .notStarted program _ => "failed to start `" ++ program ++ "`"
    | .serverNotFound searched =>
      "could not find " ++ serverPath ++ " above " ++ searched ++ "; set " ++ serverVariable
        ++ " to its path"
    | .io _ => "tsserver I/O error"
    | .protocol fault => "unexpected tsserver message: " ++ fault
    | .rejected command message => "tsserver `" ++ command ++ "` failed: " ++ message
    | .exited => "tsserver exited unexpectedly"
  causes
    | .notStarted _ cause => [cause]
    | .io cause => [cause]
    | _ => []

/-- How an operation ends that gives no result. -/
inductive Halt where
  | failed (e : EngineError)
  /-- It waits for ever, for what nobody will send. -/
  | blocked
  deriving DecidableEq, Repr

end BufferCheck.Server
