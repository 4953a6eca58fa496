import BufferCheck.Proofs.Config.Candidates

/-! Stacks of configurations that are being read. On a stack no two paths are spelled alike. They
lead to different files unless one of them has a `..`, which only the specifier of a package can
bring in. -/
namespace BufferCheck.Config
open BufferCheck.Path (Straight isRooted names)

variable {tree : FileTree} {alike : String → String → Prop} {root base target : String}

/-- A configuration that is being read: its path, and the directory that its paths are seen from. -/
structure Frame where
  path : String
  directory : String

/-- The stacks that come from the root by following specifiers, the latest configuration first. One
that is `alike` to one on the stack is not followed. -/
inductive Stack (tree : FileTree) (alike : String → String → Prop) (root base : String) :
    List Frame → Prop
  | root : Stack tree alike root base [⟨root, base⟩]
  | push {f : Frame} {fs d specifier path} (h : Stack tree alike root base (f :: fs))
      (hd : declaration? tree f.path = some d) (hs : specifier ∈ d.bases)
      (hp : findBase? tree specifier f.directory = some path)
      (hn : ∀ g ∈ f :: fs, ¬ alike path g.path) :
      Stack tree alike root base (⟨path, Path.parent path⟩ :: f :: fs)

/-- The paths of a stack as the loader keeps them. -/
def spelled (stack : List Frame) : List String := stack.map (Path.plain ·.path)

/-- Paths as the loader tells them apart. -/
def SpelledAlike (a b : String) : Prop := Path.plain a = Path.plain b

/-- No file is twice on a stack. -/
def FilesDiffer (stack : List Frame) : Prop := (stack.map fun f => Path.normalize f.path).Nodup

/-- Two paths lead to one file, and one of them by way of `..`. -/
def Detour (a b : String) : Prop :=
  Path.normalize a = Path.normalize b ∧ ¬ (Straight a ∧ Straight b)

section Frames

variable {stack : List Frame}

/-- Every configuration on a stack is a file on a rooted path, seen from a rooted directory. -/
theorem Stack.frame (h : Stack tree alike root base stack)
    (hb : isRooted base = true) (hr : tree.isFile root = true ∧ isRooted root = true) :
    ∀ f ∈ stack, tree.isFile f.path = true ∧ isRooted f.path = true ∧
      isRooted f.directory = true := by
  induction h with
  | root =>
    intro f hf
    rw [List.mem_singleton.mp hf]
    exact ⟨hr.1, hr.2, hb⟩
  | @push f fs d specifier path _ _ _ hp _ ih =>
    intro g hg
    rcases List.mem_cons.mp hg with rfl | hg
    · have hpf := isFile_of_findBase? hp
      have hpr := isRooted_of_findBase? (ih f List.mem_cons_self).2.2 hp
      exact ⟨hpf, hpr, (Path.names_parent hpr (FileTree.names_ne_nil hpr hpf)).1⟩
    · exact ih g hg

/-- Without packages named by way of `..`, every path on a stack is straight. -/
theorem Stack.straight (h : Stack tree alike root base stack)
    (hu : NoUpward tree) (hb : Straight base) (hr : tree.isFile root = true ∧ Straight root) :
    ∀ f ∈ stack, Straight f.path ∧ Straight f.directory := by
  induction h with
  | root =>
    intro f hf
    rw [List.mem_singleton.mp hf]
    exact ⟨hr.2, hb⟩
  | @push f fs d specifier path _ hd hs hp _ ih =>
    intro g hg
    rcases List.mem_cons.mp hg with rfl | hg
    · have hps := straight_of_findBase? (ih f List.mem_cons_self).2 (hu _ _ hd _ hs) hp
      exact ⟨hps, hps.parent (FileTree.names_ne_nil hps.rooted (isFile_of_findBase? hp))⟩
    · exact ih g hg

theorem plain_mem_spelled {path : String} :
    Path.plain path ∈ spelled stack ↔ ∃ g ∈ stack, SpelledAlike path g.path := by
  simp [spelled, SpelledAlike, eq_comm]

theorem Stack.pairwise (h : Stack tree alike root base stack) :
    stack.Pairwise fun f g => ¬ alike f.path g.path := by
  induction h with
  | root => exact List.pairwise_singleton _ _
  | push _ _ _ _ hn ih => exact List.pairwise_cons.mpr ⟨hn, ih⟩

/-- Paths to one file that are not spelled alike make a detour. -/
theorem normalize_ne_iff {a b : String} (hl : tree.LinkFree) (ha : tree.isFile a = true)
    (hb : tree.isFile b = true) (hne : ¬ SpelledAlike a b) :
    Path.normalize a ≠ Path.normalize b ↔ ¬ Detour a b := by
  constructor
  · intro h hd
    exact h hd.1
  · intro h he
    refine h ⟨he, fun hs => hne ?_⟩
    exact (FileTree.normalize_eq_iff_plain hs.1 hs.2 hl ha hb).mp he

theorem filesDiffer_iff (h : Stack tree SpelledAlike root base stack) (hl : tree.LinkFree)
    (hf : ∀ f ∈ stack, tree.isFile f.path = true) :
    FilesDiffer stack ↔ stack.Pairwise fun f g => ¬ Detour f.path g.path := by
  -- Both sides speak of pairs that the loader has found to be spelled differently.
  rw [FilesDiffer, List.Nodup, List.pairwise_map]
  constructor
  · intro hn
    refine (h.pairwise.and hn).imp_of_mem fun ha hb hab => ?_
    exact (normalize_ne_iff hl (hf _ ha) (hf _ hb) hab.1).mp hab.2
  · intro hd
    refine (h.pairwise.and hd).imp_of_mem fun ha hb hab => ?_
    exact (normalize_ne_iff hl (hf _ ha) (hf _ hb) hab.1).mpr hab.2

end Frames

section Steps

variable {chain : List String} {path directory specifier found : String} {options : OptionSet}
  {rest : List String}

theorem loadBases_nil : loadBases tree chain path directory options [] = pure options := by
  rw [loadBases]

theorem loadBases_missing (hf : findBase? tree specifier directory = none) :
    loadBases tree chain path directory options (specifier :: rest)
      = (Logged.note (.extendsNotFound path specifier)).andThen fun _ =>
          loadBases tree chain path directory options rest := by
  rw [loadBases]
  split
  · rfl
  · simp_all

theorem loadBases_circular (hf : findBase? tree specifier directory = some found)
    (hc : Path.plain found ∈ chain) :
    loadBases tree chain path directory options (specifier :: rest)
      = (Logged.note (.extendsCircular path found)).andThen fun _ =>
          loadBases tree chain path directory options rest := by
  rw [loadBases]
  split
  · simp_all
  · next b hb =>
    obtain rfl : b = found := by simpa [hb] using hf
    rw [dif_pos hc]

theorem loadBases_follow (hf : findBase? tree specifier directory = some found)
    (hc : Path.plain found ∉ chain) :
    loadBases tree chain path directory options (specifier :: rest)
      = (load tree chain found (Path.parent found)).andThen fun inherited =>
          loadBases tree chain path directory (options.extend inherited) rest := by
  rw [loadBases]
  split
  · simp_all
  · next b hb =>
    obtain rfl : b = found := by simpa [hb] using hf
    rw [dif_neg hc]

end Steps

section Upward

/-- A project whose configuration names the directory above `node_modules` as a package. -/
def upwardTree : FileTree :=
  { inside := [("p", .directory
      [("tsconfig.json", .file (Utf8.encode "\x7b\"extends\": \"..\"\x7d")),
        ("node_modules", .directory [])])] }

/-- The configuration of that project, reached again from itself. -/
def upwardStack : List Frame :=
  [⟨"/p/node_modules/../tsconfig.json", "/p/node_modules/.."⟩, ⟨"/p/tsconfig.json", "/p"⟩]

theorem linkFree_upwardTree : upwardTree.LinkFree := FileTree.linkFree_of_every (by decide)

theorem found_upwardTree :
    find? upwardTree (searchDirectory "/p" "a.ts") = some "/p/tsconfig.json" ∧
      findBase? upwardTree ".." "/p" = some "/p/node_modules/../tsconfig.json" := by
  simp only [find?_eq, findBase?_eq]
  unfold FileTree.isFile FileTree.readBytes
  simp only [FileTree.locate_eq]
  decide +kernel

theorem find?_upwardTree :
    find? upwardTree (searchDirectory "/p" "a.ts") = some "/p/tsconfig.json" :=
  found_upwardTree.1

theorem findBase?_upwardTree :
    findBase? upwardTree ".." "/p" = some "/p/node_modules/../tsconfig.json" :=
  found_upwardTree.2

theorem declaration?_upwardTree :
    declaration? upwardTree "/p/tsconfig.json" = some ⟨[".."], []⟩ := by
  have hn : Path.reduce true (names "/p/tsconfig.json") = ["p", "tsconfig.json"] := by
    decide +kernel
  have he : upwardTree.entry? (Path.reduce true (names "/p/tsconfig.json"))
      = some (.file (Utf8.encode "\x7b\"extends\": \"..\"\x7d")) := by
    rw [hn]
    rfl
  obtain ⟨hf, hs⟩ := straight_of_find? (by decide +kernel) find?_upwardTree
  have hb := FileTree.readBytes_of_entry? linkFree_upwardTree hs.rooted hf he
  refine declaration?_eq_some_iff.mpr ⟨_, hb, ?_⟩
  rw [declared?_encode]
  cbv

/-- The two paths of the stack are spelled in two ways, and name one file. -/
theorem spellings_upwardStack :
    ¬ SpelledAlike "/p/node_modules/../tsconfig.json" "/p/tsconfig.json" ∧
      Path.parent "/p/node_modules/../tsconfig.json" = "/p/node_modules/.." ∧
      ¬ FilesDiffer upwardStack := by
  unfold SpelledAlike FilesDiffer
  decide +kernel

theorem not_spelledAlike_upwardStack :
    ¬ SpelledAlike "/p/node_modules/../tsconfig.json" "/p/tsconfig.json" :=
  spellings_upwardStack.1

theorem parent_upwardStack :
    Path.parent "/p/node_modules/../tsconfig.json" = "/p/node_modules/.." :=
  spellings_upwardStack.2.1

theorem not_filesDiffer_upwardStack : ¬ FilesDiffer upwardStack := spellings_upwardStack.2.2

theorem stack_upwardStack :
    Stack upwardTree SpelledAlike "/p/tsconfig.json" "/p" upwardStack := by
  rw [upwardStack, ← parent_upwardStack]
  exact .push .root declaration?_upwardTree (by simp) findBase?_upwardTree
    (by simpa using not_spelledAlike_upwardStack)

/-- A configuration that names itself by way of `node_modules` is loaded again below itself. -/
theorem file_twice_on_stack : upwardTree.LinkFree ∧ isRooted "/p" = true ∧
    Path.normalize "/p" = "/p" ∧
    find? upwardTree (searchDirectory "/p" "a.ts") = some "/p/tsconfig.json" ∧
    Stack upwardTree SpelledAlike "/p/tsconfig.json" "/p" upwardStack ∧
    ¬ FilesDiffer upwardStack ∧
    loadBases upwardTree (spelled upwardStack.tail) "/p/tsconfig.json" "/p" .empty [".."]
      = (load upwardTree (spelled upwardStack.tail) "/p/node_modules/../tsconfig.json"
          "/p/node_modules/..").andThen fun inherited =>
            pure (OptionSet.empty.extend inherited) := by
  refine ⟨linkFree_upwardTree, by decide +kernel, by decide +kernel, find?_upwardTree,
    stack_upwardStack, not_filesDiffer_upwardStack, ?_⟩
  have hc : Path.plain "/p/node_modules/../tsconfig.json" ∉ spelled upwardStack.tail := by
    rw [plain_mem_spelled]
    simpa [upwardStack] using not_spelledAlike_upwardStack
  rw [loadBases_follow findBase?_upwardTree hc, parent_upwardStack]
  simp only [loadBases_nil]

end Upward

/-- A stack names a file twice exactly if one of two paths to it has a `..`. Else it is no longer
than the files are many, and what leads back to it is passed over. -/
theorem filesDiffer_iff_no_detour {stack : List Frame} (hl : tree.LinkFree)
    (hb : isRooted base = true) (hn : Path.normalize base = base)
    (hr : find? tree (searchDirectory base target) = some root)
    (h : Stack tree SpelledAlike root base stack) :
    (FilesDiffer stack ↔ stack.Pairwise fun f g => ¬ Detour f.path g.path) ∧
      (FilesDiffer stack → stack.length ≤ tree.fileCount) ∧
      (NoUpward tree → FilesDiffer stack) ∧
      ∀ f fs specifier found options rest, stack = f :: fs →
        findBase? tree specifier f.directory = some found →
        (∃ g ∈ stack, tree.SameFile found g.path) → (∀ g ∈ stack, ¬ Detour found g.path) →
        loadBases tree (spelled stack) f.path f.directory options (specifier :: rest)
          = (Logged.note (.extendsCircular f.path found)).andThen fun _ =>
              loadBases tree (spelled stack) f.path f.directory options rest := by
  obtain ⟨hrf, hrs⟩ := straight_of_find? hb hr
  have hframe := h.frame hb ⟨hrf, hrs.rooted⟩
  have hiff := filesDiffer_iff h hl fun f hf => (hframe f hf).1
  refine ⟨hiff, fun hd => ?_, fun hu => ?_, ?_⟩
  · have hpaths : ∀ p ∈ stack.map (·.path), isRooted p = true ∧ tree.isFile p = true := by
      intro p hp
      obtain ⟨f, hf, rfl⟩ := List.mem_map.mp hp
      exact ⟨(hframe f hf).2.1, (hframe f hf).1⟩
    have hnodup : ((stack.map (·.path)).map Path.normalize).Nodup := by
      rw [List.map_map]
      exact hd
    simpa using FileTree.length_le_fileCount hl hpaths hnodup
  · have hs := h.straight hu (Path.straight_of_normalize_eq hb hn) ⟨hrf, hrs⟩
    refine hiff.mpr (List.pairwise_of_forall_mem_list fun f hf g hg hd => ?_)
    exact hd.2 ⟨(hs f hf).1, (hs g hg).1⟩
  · rintro f fs specifier found options rest rfl hf ⟨g, hg, hsame⟩ hd
    have hff := isFile_of_findBase? hf
    have hfr := isRooted_of_findBase? (hframe f List.mem_cons_self).2.2 hf
    have hnorm := (FileTree.sameFile_iff hl hfr (hframe g hg).2.1 hff (hframe g hg).1).mp hsame
    have hplain : SpelledAlike found g.path := by
      by_contra hne
      exact (normalize_ne_iff hl hff (hframe g hg).1 hne).mpr (hd g hg) hnorm
    exact loadBases_circular hf (plain_mem_spelled.mpr ⟨g, hg, hplain⟩)

theorem detour_on_upwardStack : upwardTree.LinkFree ∧ isRooted "/p" = true ∧
    Path.normalize "/p" = "/p" ∧
    find? upwardTree (searchDirectory "/p" "a.ts") = some "/p/tsconfig.json" ∧
    Stack upwardTree SpelledAlike "/p/tsconfig.json" "/p" upwardStack ∧
    ¬ upwardStack.Pairwise fun f g => ¬ Detour f.path g.path := by
  have hr : isRooted "/p" = true := by decide +kernel
  have hn : Path.normalize "/p" = "/p" := by decide +kernel
  have h := filesDiffer_iff_no_detour linkFree_upwardTree hr hn find?_upwardTree stack_upwardStack
  exact ⟨linkFree_upwardTree, hr, hn, find?_upwardTree, stack_upwardStack,
    fun hd => not_filesDiffer_upwardStack (h.1.mpr hd)⟩

end BufferCheck.Config
