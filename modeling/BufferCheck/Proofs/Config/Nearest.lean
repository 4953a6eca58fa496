import BufferCheck.Proofs.Config.Preorder
import BufferCheck.Proofs.Path.Directory
import BufferCheck.Server.Launch

/-! The nearest configuration of a target. The search starts in the directory of the target, which
is the same for every spelling of its path, and it ends at the deepest configuration. -/
namespace BufferCheck.Config
open BufferCheck.Path (EndsInName IsName directoryOf isRooted names normalize ofNames toAbsolute)

variable {tree : FileTree} {base target path n : String} {ns : List String}

/-- The path of the configuration in the directory that names lead to. -/
def configIn (ns : List String) : String := ofNames (ns ++ [fileName])

/-- A path is that of a configuration in the directory that names lead to or in one above it, and
no directory further down has one. -/
def Deepest (tree : FileTree) (ns : List String) (path : String) : Prop :=
  ∃ up, up <+: ns ∧ path = configIn up ∧ tree.isFile path = true ∧
    ∀ deeper, deeper <+: ns → up.length < deeper.length → tree.isFile (configIn deeper) = false

section Search

theorem isName_fileName : IsName fileName := by
  unfold IsName
  decide +kernel

/-- The deepest configuration is in the directory itself, or it is the deepest above. -/
theorem deepest_concat_iff : Deepest tree (ns ++ [n]) path ↔
    (path = configIn (ns ++ [n]) ∧ tree.isFile path = true) ∨
      (tree.isFile (configIn (ns ++ [n])) = false ∧ Deepest tree ns path) := by
  constructor
  · rintro ⟨up, hup, rfl, hfile, hnone⟩
    rcases List.prefix_concat_iff.mp hup with rfl | hup
    · exact .inl ⟨rfl, hfile⟩
    · refine .inr ⟨hnone _ List.prefix_rfl ?_, up, hup, rfl, hfile, fun deeper hd => ?_⟩
      · have := hup.length_le
        rw [List.length_append, List.length_singleton]
        omega
      · exact hnone deeper (hd.trans (List.prefix_append ns [n]))
  · rintro (⟨rfl, hfile⟩ | ⟨hhere, up, hup, rfl, hfile, hnone⟩)
    · refine ⟨_, List.prefix_rfl, rfl, hfile, fun deeper hd hlt => ?_⟩
      have := hd.length_le
      omega
    · refine ⟨up, hup.trans (List.prefix_append ns [n]), rfl, hfile, fun deeper hd hlt => ?_⟩
      rcases List.prefix_concat_iff.mp hd with rfl | hd
      · exact hhere
      · exact hnone deeper hd hlt

theorem find?_root : find? tree (ofNames [])
    = if tree.isFile (configIn []) then some (configIn []) else none := by
  have hchild := @Path.child_ofNames _ [] (by simp) isName_fileName
  rw [find?_eq, candidates, Path.ancestors_root, List.map_singleton, hchild, List.find?_singleton]
  rfl

/-- A directory is searched before what is above it. -/
theorem find?_concat (h : ∀ m ∈ ns ++ [n], IsName m) : find? tree (ofNames (ns ++ [n]))
    = if tree.isFile (configIn (ns ++ [n])) then some (configIn (ns ++ [n]))
      else find? tree (ofNames ns) := by
  rw [find?_eq, find?_eq, candidates, candidates, Path.ancestors_ofNames_concat h, List.map_cons,
    Path.child_ofNames h isName_fileName, List.find?_cons, configIn]
  cases tree.isFile (ofNames (ns ++ [n] ++ [fileName])) <;> rfl

theorem find?_eq_some_iff (h : ∀ m ∈ ns, IsName m) :
    find? tree (ofNames ns) = some path ↔ Deepest tree ns path := by
  induction ns using List.reverseRecOn with
  | nil =>
    rw [find?_root]
    constructor
    · intro hf
      split at hf
      · next hfile =>
        obtain rfl := Option.some.inj hf
        exact ⟨[], List.prefix_rfl, rfl, hfile, by simp⟩
      · cases hf
    · rintro ⟨up, hup, rfl, hfile, -⟩
      obtain rfl := List.prefix_nil.mp hup
      rw [if_pos hfile]
  | append_singleton ns n ih =>
    have hns : ∀ m ∈ ns, IsName m := fun m hm => h m (List.mem_append_left _ hm)
    rw [find?_concat h, deepest_concat_iff, ← ih hns]
    cases hfile : tree.isFile (configIn (ns ++ [n])) with
    | true =>
      rw [if_pos rfl, Option.some.injEq]
      refine ⟨fun he => .inl ⟨he.symm, he ▸ hfile⟩, ?_⟩
      rintro (⟨he, -⟩ | ⟨hnone, -⟩)
      · exact he.symm
      · cases hnone
    | false =>
      rw [if_neg Bool.false_ne_true]
      refine ⟨fun hf => .inr ⟨rfl, hf⟩, ?_⟩
      rintro (⟨rfl, hhere⟩ | ⟨-, hf⟩)
      · rw [hfile] at hhere
        cases hhere
      · exact hf

theorem find?_eq_none_iff (h : ∀ m ∈ ns, IsName m) :
    find? tree (ofNames ns) = none ↔ ∀ up, up <+: ns → tree.isFile (configIn up) = false := by
  induction ns using List.reverseRecOn with
  | nil => simp [find?_root]
  | append_singleton ns n ih =>
    have hns : ∀ m ∈ ns, IsName m := fun m hm => h m (List.mem_append_left _ hm)
    rw [find?_concat h]
    simp only [List.prefix_concat_iff, forall_eq_or_imp, ← ih hns]
    cases hfile : tree.isFile (configIn (ns ++ [n])) <;> simp

end Search

section Resolve

theorem resolve_of_some (h : find? tree (searchDirectory base target) = some path) :
    resolve tree base target
      = (load tree [] path base).andThen fun options =>
          pure ⟨some path, options.forceNoEmit⟩ := by
  rw [resolve, h]

theorem resolve_of_none (h : find? tree (searchDirectory base target) = none) :
    resolve tree base target = pure ⟨none, OptionSet.defaults.forceNoEmit⟩ := by
  rw [resolve, h]

theorem configFile_of_resolve {resolved : Resolution}
    (h : (resolve tree base target).outcome = .ok resolved) :
    resolved.configFile = find? tree (searchDirectory base target) := by
  obtain ⟨hnone, rfl⟩ | ⟨root, options, hroot, -, rfl⟩ := resolve_eq_ok h
  · exact hnone.symm
  · exact hroot.symm

theorem searchDirectory_congr {other : String} (hb : isRooted base = true)
    (ht : EndsInName target) (ho : EndsInName other)
    (h : toAbsolute base other = toAbsolute base target) :
    searchDirectory base other = searchDirectory base target := by
  rw [searchDirectory, searchDirectory, Path.toAbsolute_directoryOf hb ho,
    Path.toAbsolute_directoryOf hb ht, h]

end Resolve

/-- The search for the configuration of a target starts where the search for its server starts, and
where it starts for every other spelling of the target, so all have the same options. It takes the
deepest configuration at or above that directory, and the defaults stand in exactly if there is
none. -/
theorem resolve_deepest (hb : isRooted base = true) (ht : EndsInName target) :
    searchDirectory base target = directoryOf (toAbsolute base target) ∧
      searchDirectory base (normalize target) = searchDirectory base target ∧
      directoryOf (toAbsolute base (normalize target)) = searchDirectory base target ∧
      (∀ others, (Server.searchDirectories base (target :: others)).head?
        = some (searchDirectory base target)) ∧
      (∀ other, EndsInName other → toAbsolute base other = toAbsolute base target →
        ∀ tree, resolve tree base other = resolve tree base target) ∧
      ∀ tree,
        (∀ path, Deepest tree (names (searchDirectory base target)) path →
          resolve tree base target
            = (load tree [] path base).andThen fun options =>
                pure ⟨some path, options.forceNoEmit⟩) ∧
        (∀ resolved, (resolve tree base target).outcome = .ok resolved → ∀ path,
          resolved.configFile = some path
            ↔ Deepest tree (names (searchDirectory base target)) path) ∧
        (resolve tree base target = pure ⟨none, OptionSet.defaults.forceNoEmit⟩ ↔
          ∀ up, up <+: names (searchDirectory base target) →
            tree.isFile (configIn up) = false) := by
  have hdirectory : searchDirectory base target = directoryOf (toAbsolute base target) :=
    Path.toAbsolute_directoryOf hb ht
  have hnormal := @Path.toAbsolute_normalize_eq base target hb
  have hnames : ∀ n ∈ names (searchDirectory base target), IsName n :=
    fun n => Path.isName_of_mem_names
  have hpath : ofNames (names (searchDirectory base target)) = searchDirectory base target :=
    Path.ofNames_names_toAbsolute hb
  refine ⟨hdirectory, searchDirectory_congr hb ht ht.normalize hnormal,
    hnormal ▸ hdirectory.symm, fun others => congrArg some hdirectory.symm,
    fun other ho he tree => ?_, fun tree => ⟨fun path h => ?_, fun resolved h path => ?_, ?_⟩⟩
  · rw [resolve, resolve, searchDirectory_congr hb ht ho he]
  · have hf := (find?_eq_some_iff hnames).mpr h
    rw [hpath] at hf
    exact resolve_of_some hf
  · rw [configFile_of_resolve h, ← find?_eq_some_iff hnames, hpath]
  · rw [← find?_eq_none_iff hnames, hpath]
    refine ⟨fun h => ?_, resolve_of_none⟩
    have houtcome := congrArg Logged.outcome h
    exact (configFile_of_resolve houtcome).symm

section Sample

/-- The directory of a target has a directory under the name of the configuration, the one above it
a link to a file, and the one above that a file. -/
def linkedTree : FileTree :=
  { inside := [("w", .directory
      [("tsconfig.json", .file []), ("shared.json", .file (Utf8.encode "\x7b\x7d")),
        ("a", .directory
          [("tsconfig.json", .link "../shared.json"),
            ("b", .directory [("tsconfig.json", .directory [])])])])] }

theorem found_linkedTree :
    find? linkedTree (searchDirectory "/w/" "a//b/./c/../x.ts") = some "/w/a/tsconfig.json" ∧
      linkedTree.readBytes "/w/a/tsconfig.json" = .ok (Utf8.encode "\x7b\x7d") := by
  rw [find?_eq]
  unfold FileTree.isFile FileTree.readBytes
  simp only [FileTree.locate_eq]
  decide +kernel

theorem load_linkedTree :
    (load linkedTree [] "/w/a/tsconfig.json" "/w/").outcome = .ok .empty := by
  have hd : declaration? linkedTree "/w/a/tsconfig.json" = some ⟨[], []⟩ := by
    refine declaration?_eq_some_iff.mpr ⟨_, found_linkedTree.2, ?_⟩
    rw [declared?_encode]
    cbv
  rw [load_of_some hd, loadBases_nil]
  rfl

theorem endsInName_linkedTree : EndsInName "a//b/./c/../x.ts" ∧ EndsInName "/w/a/b/x.ts" :=
  ⟨⟨["a", "", "b", ".", "c", ".."], "x.ts", by decide +kernel, by decide +kernel, by decide⟩,
    ⟨["", "w", "a", "b"], "x.ts", by decide +kernel, by decide +kernel, by decide⟩⟩

end Sample

theorem resolve_linkedTree : isRooted "/w/" = true ∧ EndsInName "a//b/./c/../x.ts" ∧
    Deepest linkedTree (names (searchDirectory "/w/" "a//b/./c/../x.ts")) "/w/a/tsconfig.json" ∧
    (resolve linkedTree "/w/" "a//b/./c/../x.ts").outcome
      = .ok ⟨some "/w/a/tsconfig.json", OptionSet.empty.forceNoEmit⟩ ∧
    EndsInName "/w/a/b/x.ts" ∧
    toAbsolute "/w/" "/w/a/b/x.ts" = toAbsolute "/w/" "a//b/./c/../x.ts" ∧
    resolve linkedTree "/w/" "/w/a/b/x.ts" = resolve linkedTree "/w/" "a//b/./c/../x.ts" := by
  have hb : isRooted "/w/" = true := by decide +kernel
  obtain ⟨ht, ho⟩ := endsInName_linkedTree
  have hsame : toAbsolute "/w/" "/w/a/b/x.ts" = toAbsolute "/w/" "a//b/./c/../x.ts" := by
    decide +kernel
  obtain ⟨-, -, -, -, hspellings, hresolve⟩ := resolve_deepest hb ht
  obtain ⟨htakes, -, -⟩ := hresolve linkedTree
  have hdeepest : Deepest linkedTree (names (searchDirectory "/w/" "a//b/./c/../x.ts"))
      "/w/a/tsconfig.json" := by
    rw [← find?_eq_some_iff fun n => Path.isName_of_mem_names, searchDirectory,
      Path.ofNames_names_toAbsolute hb]
    exact found_linkedTree.1
  refine ⟨hb, ht, hdeepest, ?_, ho, hsame, hspellings _ ho hsame linkedTree⟩
  rw [htakes _ hdeepest]
  exact Logged.andThen_eq_ok.mpr ⟨_, load_linkedTree, rfl⟩

end BufferCheck.Config
