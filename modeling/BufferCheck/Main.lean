import BufferCheck.CommandLine

/-!
The program. Before the command line runs, the configurations that it may look at are fetched from
the disk into a tree, and so is the server's file. Programs cannot be started from here: what the
server sends is read from the file that a variable names.
-/
namespace BufferCheck.Main

/-- The variable that names what the server sends. -/
def transcriptVariable : String := "TSC_STDIN_TRANSCRIPT"

/-- Put the file at a path into a tree, if it can be read. -/
def fetch (tree : FileTree) (path : String) : IO FileTree := do
  try
    let bytes ← IO.FS.readBinFile path
    return tree.plant [] (Path.pieces path) (.file bytes.data.toList)
  catch _ => return tree

/-- Fetch what configurations may build on. Each configuration comes with the directory that its
specifiers are seen from. -/
partial def fetchBases (tree : FileTree) (seen : List String) :
    List (String × String) → IO FileTree
  | [] => return tree
  | (path, directory) :: rest => do
    if path ∈ seen then fetchBases tree seen rest
    else
      match (tree.readText path).toOption.bind Declaration.read? with
      | none => fetchBases tree (path :: seen) rest
      | some d =>
        let found := d.bases.flatMap fun s => Config.baseCandidates s directory
        let tree ← found.foldlM fetch tree
        let more := (found.filter tree.isFile).map fun p => (p, Path.parent p)
        fetchBases tree (path :: seen) (rest ++ more)

/-- Fetch all that a check of a file looks at. -/
def fetchTree (base file : String) : IO FileTree := do
  let target := Path.normalize file
  let tree := FileTree.plant { start := base } [] (Path.pieces base) (.directory [])
  let configs := Config.candidates (Config.searchDirectory base target)
  let servers := (Server.searchDirectories base [target]).flatMap fun d =>
    (Path.ancestors d).map (Path.child · Server.serverPath)
  let tree ← (configs ++ servers).foldlM fetch tree
  fetchBases tree [] (configs.map fun p => (p, base))

/-- Read standard input to its end. -/
partial def readInput (input : IO.FS.Stream) : IO (List ReadResult) := do
  try
    let bytes ← input.read 65536
    if bytes.isEmpty then return []
    return .chunk bytes.data.toList :: (← readInput input)
  catch e => return [.failed (toString e)]

/-- What the server sends, if there is a record of it. -/
def fetchTranscript : IO (Except String (List UInt8)) := do
  match ← IO.getEnv transcriptVariable with
  | none => return .error FileError.notFound.message
  | some path =>
    try return .ok (← IO.FS.readBinFile path).data.toList
    catch e => return .error (toString e)

/-- Wait for what will not come. -/
partial def waitForever : IO UInt32 := do
  IO.sleep 60000
  waitForever

/-- The number of the process, zero if it is not to be had. -/
def processId : IO Nat := do
  try
    let stat ← IO.FS.readFile "/proc/self/stat"
    return Decimal.value (stat.toList.takeWhile Decimal.isDigit)
  catch _ => return 0

end BufferCheck.Main

open BufferCheck in
/-- Run the command line on the machine. -/
def main (arguments : List String) : IO UInt32 := do
  let base := (← IO.currentDir).toString
  let (tree, input) ← match CommandLine.parse none false arguments with
    | .check file => pure (← Main.fetchTree base file, ← Main.readInput (← IO.getStdin))
    | _ => pure ({}, [])
  let transcript ← Main.fetchTranscript
  let ended := CommandLine.run
    { tree
      directory := base
      settings := .ofVariables (← IO.getEnv Server.nodeVariable) (← IO.getEnv Server.serverVariable)
      processId := ← Main.processId
      input
      room := none
      launch := fun _ => transcript }
    arguments
  match ended with
  | none => Main.waitForever
  | some exit =>
    (← IO.getStdout).write ⟨exit.stdout.accepted.toArray⟩
    IO.eprint exit.stderr
    return exit.status.toUInt32
