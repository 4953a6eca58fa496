import BufferCheck.Config.Declaration
import BufferCheck.Config.Discovery
import BufferCheck.Config.Setting
import BufferCheck.Failure
import BufferCheck.Logged
import BufferCheck.Path.Bound
import BufferCheck.Warning

/-!
Resolving the options of a file: the nearest configuration is read, then those that it builds on,
each of them before the options of the one that names it. A configuration that is being read is
not read again below itself, so every chain of configurations ends: its paths differ, and there
are finitely many.
-/
namespace BufferCheck

/-- Why no options could be had. -/
inductive ConfigError where
  | unreadable (path : String) (cause : FileError)
  | malformed (path : String)
  deriving DecidableEq, Repr

instance : Failure ConfigError where
  message
    | .unreadable path _ => "failed to read " ++ path
    | .malformed path => "failed to parse " ++ path
  causes
    | .unreadable _ cause => [cause.message]
    | .malformed _ => [malformedJson]

namespace Config

/-- One more configuration on a chain leaves fewer to come. -/
theorem unvisited_plain_lt {tree : FileTree} {specifier directory base : String}
    {chain : List String} (hb : findBase? tree specifier directory = some base)
    (hc : Path.plain base ∉ chain) :
    Path.unvisited FileTree.pathLimit (Path.plain base :: chain)
      < Path.unvisited FileTree.pathLimit chain :=
  Path.unvisited_cons_lt (Nat.lt_of_le_of_lt (Path.plain_utf8ByteSize_le base)
    (FileTree.size_lt_of_isFile (isFile_of_findBase? hb))) hc

mutual

/-- The options of the configuration at a path and of all it builds on. `chain` holds the
configurations that are being read, spelled plainly, and paths are seen from `directory`. -/
def load (tree : FileTree) (chain : List String) (path directory : String) :
    Logged Warning ConfigError OptionSet :=
  match tree.readText path with
  | .error cause => .fail (.unreadable path cause)
  | .ok text =>
    match Declaration.read? text with
    | none => .fail (.malformed path)
    | some d =>
      let bases := loadBases tree (Path.plain path :: chain) path directory .empty d.bases
      bases.andThen fun inherited =>
        pure (inherited.extend (resolveSettings directory d.options))
termination_by (Path.unvisited FileTree.pathLimit (Path.plain path :: chain), 1, 0)

/-- The options of several specifiers, each over those before it, put over options at hand. -/
def loadBases (tree : FileTree) (chain : List String) (path directory : String)
    (options : OptionSet) (specifiers : List String) : Logged Warning ConfigError OptionSet :=
  match specifiers with
  | [] => pure options
  | specifier :: rest =>
    match hb : findBase? tree specifier directory with
    | none =>
      (Logged.note (.extendsNotFound path specifier)).andThen fun _ =>
        loadBases tree chain path directory options rest
    | some base =>
      if hc : Path.plain base ∈ chain then
        (Logged.note (.extendsCircular path base)).andThen fun _ =>
          loadBases tree chain path directory options rest
      else
        have := unvisited_plain_lt hb hc
        (load tree chain base (Path.parent base)).andThen fun inherited =>
          loadBases tree chain path directory (options.extend inherited) rest
termination_by (Path.unvisited FileTree.pathLimit chain, 0, specifiers.length)
decreasing_by
  all_goals simp_wf
  · exact Prod.Lex.right _ (Prod.Lex.right _ (Nat.lt_succ_self _))
  · exact Prod.Lex.right _ (Prod.Lex.right _ (Nat.lt_succ_self _))
  · exact Prod.Lex.left _ _ this
  · exact Prod.Lex.right _ (Prod.Lex.right _ (Nat.lt_succ_self _))

end

end Config

/-- The options of a file, and the configuration they come from. -/
structure Resolution where
  configFile : Option String
  options : OptionSet

namespace Config

/-- The directory that the search for a target's configuration starts from. -/
def searchDirectory (base target : String) : String :=
  Path.toAbsolute base (Path.directoryOf target)

/-- The options of a target. Nothing is ever written, whatever a configuration says. -/
def resolve (tree : FileTree) (base target : String) : Logged Warning ConfigError Resolution :=
  match find? tree (searchDirectory base target) with
  | none => pure ⟨none, OptionSet.defaults.forceNoEmit⟩
  | some path =>
    (load tree [] path base).andThen fun options => pure ⟨some path, options.forceNoEmit⟩

end Config
end BufferCheck
