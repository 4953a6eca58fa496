import BufferCheck.Proofs.Config.Setting
import BufferCheck.Proofs.Config.Stack
import BufferCheck.Proofs.Json.Members

/-! The configurations behind the options of a target. Those reached from a configuration are listed
before it, in the order of its specifiers; the last one that declares an option decides it. -/
namespace BufferCheck

namespace Logged
variable {ω ε α β : Type} {log : List ω} {a : α}

theorem andThen_ok (f : α → Logged ω ε β) :
    Logged.andThen ⟨log, .ok a⟩ f = ⟨log ++ (f a).log, (f a).outcome⟩ := rfl

theorem note_andThen (w : ω) (f : Unit → Logged ω ε β) :
    (Logged.note w).andThen f = ⟨w :: (f ()).log, (f ()).outcome⟩ := rfl

end Logged

namespace OptionSet
variable {options overrides : OptionSet} {key : String}

theorem get?_extend (h : Fields.Ordered overrides.fields) :
    (options.extend overrides).get? key = (overrides.get? key).or (options.get? key) :=
  Fields.find?_extend h.nodup

theorem ordered_extend (h : Fields.Ordered options.fields) :
    Fields.Ordered (options.extend overrides).fields := h.extend

end OptionSet

namespace Config
open BufferCheck.Path (Straight isRooted)

variable {tree : FileTree} {root base target : String} {f : Frame} {fs : List Frame}
  {specifiers : List String} {warnings : List Warning} {key : String}

/-- A configuration that was read: where its paths are seen from, and the options it declares. -/
structure Layer where
  path : String
  directory : String
  options : Fields Json

/-- What following the specifiers of the configuration on top of a stack reads, bases before what is
built on them, and what it passes over: files that are not there or that the stack holds. -/
inductive Reads (tree : FileTree) :
    Frame → List Frame → List String → List Layer → List Warning → Prop
  | nil (f : Frame) (fs : List Frame) : Reads tree f fs [] [] []
  | missing {f : Frame} {fs s rest layers} {warnings : List Warning}
      (hp : findBase? tree s f.directory = none) (h : Reads tree f fs rest layers warnings) :
      Reads tree f fs (s :: rest) layers (.extendsNotFound f.path s :: warnings)
  | circular {f : Frame} {fs s path rest layers} {warnings : List Warning}
      (hp : findBase? tree s f.directory = some path)
      (hc : ∃ g ∈ f :: fs, tree.SameFile path g.path)
      (h : Reads tree f fs rest layers warnings) :
      Reads tree f fs (s :: rest) layers (.extendsCircular f.path path :: warnings)
  | follow {f : Frame} {fs s path d rest below warned layers} {warnings : List Warning}
      (hp : findBase? tree s f.directory = some path)
      (hc : ∀ g ∈ f :: fs, ¬ tree.SameFile path g.path)
      (hd : declaration? tree path = some d)
      (hb : Reads tree ⟨path, Path.parent path⟩ (f :: fs) d.bases below warned)
      (h : Reads tree f fs rest layers warnings) :
      Reads tree f fs (s :: rest) (below ++ ⟨path, Path.parent path, d.options⟩ :: layers)
        (warned ++ warnings)

/-- What the last configuration of a list to declare an option gives it: what the declared value
becomes, seen from the directory of that configuration. It is nothing if none declares the option.
-/
inductive LastDeclared (key : String) : List Layer → Option Json → Prop
  | none {layers : List Layer} (h : ∀ l ∈ layers, Fields.find? key l.options = none) :
      LastDeclared key layers none
  | some {before after : List Layer} {l : Layer} {declared value : Json}
      (hd : Fields.find? key l.options = some declared)
      (ha : ∀ m ∈ after, Fields.find? key m.options = none)
      (hv : Becomes l.directory key declared value) :
      LastDeclared key (before ++ l :: after) (some value)

/-- The value that a configuration gives to an option, seen from its directory. -/
def Layer.value? (l : Layer) (key : String) : Option Json :=
  (Fields.find? key l.options).map (resolveSetting l.directory key)

/-- The value of an option by the last configuration that declares it. -/
def lastDeclared? (key : String) (layers : List Layer) : Option Json :=
  layers.reverse.findSome? (·.value? key)

theorem lastDeclared?_append (key : String) (xs ys : List Layer) :
    lastDeclared? key (xs ++ ys) = (lastDeclared? key ys).or (lastDeclared? key xs) := by
  rw [lastDeclared?, List.reverse_append, List.findSome?_append]
  rfl

theorem lastDeclared?_singleton (key : String) (l : Layer) :
    lastDeclared? key [l] = l.value? key := by
  simp [lastDeclared?]

theorem Layer.value?_eq_none_iff {l : Layer} :
    l.value? key = none ↔ Fields.find? key l.options = none :=
  Option.map_eq_none_iff

theorem lastDeclared?_eq_none_iff {layers : List Layer} :
    lastDeclared? key layers = none ↔ ∀ l ∈ layers, Fields.find? key l.options = none := by
  rw [lastDeclared?, List.findSome?_eq_none_iff]
  simp only [List.mem_reverse, Layer.value?_eq_none_iff]

theorem lastDeclared_iff {layers : List Layer} {value : Option Json} :
    LastDeclared key layers value ↔ lastDeclared? key layers = value := by
  constructor
  · intro h
    cases h with
    | none h => exact lastDeclared?_eq_none_iff.mpr h
    | @some before after l declared value hd ha hv =>
      rw [List.append_cons, lastDeclared?_append, lastDeclared?_eq_none_iff.mpr ha,
        Option.none_or, lastDeclared?_append, lastDeclared?_singleton, Layer.value?, hd,
        Option.map_some, becomes_iff.mp hv, Option.some_or]
  · rintro rfl
    cases hlast : lastDeclared? key layers with
    | none => exact .none (lastDeclared?_eq_none_iff.mp hlast)
    | some value =>
      obtain ⟨after, l, before, hsplit, hvalue, hafter⟩ := List.findSome?_eq_some_iff.mp hlast
      obtain ⟨declared, hd, hv⟩ := Option.map_eq_some_iff.mp hvalue
      rw [List.reverse_eq_iff, List.reverse_append, List.reverse_cons, List.append_assoc,
        List.singleton_append] at hsplit
      rw [hsplit]
      refine .some hd (fun m hm => ?_) (becomes_iff.mpr hv)
      exact Layer.value?_eq_none_iff.mp (hafter m (List.mem_reverse.mp hm))

theorem get?_resolveSettings (directory : String) (declared : Fields Json) :
    (resolveSettings directory declared).get? key
      = (Fields.find? key declared).map (resolveSetting directory key) :=
  Fields.find?_map (resolveSetting directory)

theorem ordered_of_declaration? {path : String} {d : Declaration}
    (h : declaration? tree path = some d) : Fields.Ordered d.options := by
  unfold declaration? at h
  split at h
  · exact Declaration.ordered_of_read? h
  · simp at h

theorem load_of_some {chain : List String} {path directory : String} {d : Declaration}
    (h : declaration? tree path = some d) :
    load tree chain path directory
      = (loadBases tree (Path.plain path :: chain) path directory .empty d.bases).andThen
          fun inherited => pure (inherited.extend (resolveSettings directory d.options)) := by
  unfold declaration? at h
  rw [load]
  split at h
  · next text ht => simp [ht, h]
  · simp at h

theorem ordered_resolveSettings {directory : String} {declared : Fields Json}
    (h : Fields.Ordered declared) : Fields.Ordered (resolveSettings directory declared).fields :=
  List.pairwise_map.mpr h

/-- Reading a configuration puts its own options over those of its bases. -/
theorem load_of_loadBases {chain : List String} {path directory : String} {d : Declaration}
    {layers : List Layer} {result : OptionSet}
    (hd : declaration? tree path = some d) (ho : Fields.Ordered result.fields)
    (hb : loadBases tree (Path.plain path :: chain) path directory .empty d.bases
      = ⟨warnings, .ok result⟩)
    (hk : ∀ key, result.get? key = lastDeclared? key layers) :
    ∃ options, load tree chain path directory = ⟨warnings, .ok options⟩ ∧
      Fields.Ordered options.fields ∧
      ∀ key, options.get? key = lastDeclared? key (layers ++ [⟨path, directory, d.options⟩]) := by
  have hdo := ordered_of_declaration? hd
  refine ⟨result.extend (resolveSettings directory d.options), ?_, OptionSet.ordered_extend ho, ?_⟩
  · rw [load_of_some hd, hb, Logged.andThen_ok]
    simp [pure]
  · intro key
    rw [OptionSet.get?_extend (ordered_resolveSettings hdo), hk, lastDeclared?_append,
      lastDeclared?_singleton, get?_resolveSettings]
    rfl

/-- What the stack is seen to hold is what the loader keeps of it. -/
theorem plain_mem_spelled_iff {path : String} (hl : tree.LinkFree)
    (hs : ∀ g ∈ f :: fs, tree.isFile g.path = true ∧ Straight g.path)
    (hf : tree.isFile path = true) (hp : Straight path) :
    Path.plain path ∈ spelled (f :: fs) ↔ ∃ g ∈ f :: fs, tree.SameFile path g.path := by
  have hsame : ∀ g ∈ f :: fs, tree.SameFile path g.path ↔ SpelledAlike path g.path := by
    intro g hg
    obtain ⟨hgf, hgs⟩ := hs g hg
    rw [FileTree.sameFile_iff hl hp.rooted hgs.rooted hf hgf,
      FileTree.normalize_eq_iff_plain hp hgs hl hf hgf, SpelledAlike]
  rw [plain_mem_spelled]
  exact exists_congr fun g => and_congr_right fun hg => (hsame g hg).symm

/-- Loading follows the reads: it warns of what they pass over, and each option is that of the last
configuration read that declares it. -/
theorem loadBases_of_reads {layers : List Layer} (hl : tree.LinkFree) (hu : NoUpward tree)
    (h : Reads tree f fs specifiers layers warnings) (hn : ∀ s ∈ specifiers, ¬ Upward s)
    (hs : ∀ g ∈ f :: fs, tree.isFile g.path = true ∧ Straight g.path)
    (hd : Straight f.directory) (options : OptionSet) (ho : Fields.Ordered options.fields) :
    ∃ result, loadBases tree (spelled (f :: fs)) f.path f.directory options specifiers
        = ⟨warnings, .ok result⟩ ∧ Fields.Ordered result.fields ∧
      ∀ key, result.get? key = (lastDeclared? key layers).or (options.get? key) := by
  induction h generalizing options with
  | nil => exact ⟨options, loadBases_nil, ho, fun _ => rfl⟩
  | missing hp _ ih =>
    obtain ⟨result, hr, hor, hk⟩ := ih (List.forall_mem_cons.mp hn).2 hs hd options ho
    refine ⟨result, ?_, hor, hk⟩
    rw [loadBases_missing hp, Logged.note_andThen, hr]
  | circular hp hc _ ih =>
    obtain ⟨hns, hnr⟩ := List.forall_mem_cons.mp hn
    obtain ⟨result, hr, hor, hk⟩ := ih hnr hs hd options ho
    refine ⟨result, ?_, hor, hk⟩
    have hmem := (plain_mem_spelled_iff hl hs (isFile_of_findBase? hp)
      (straight_of_findBase? hd hns hp)).mpr hc
    rw [loadBases_circular hp hmem, Logged.note_andThen, hr]
  | @follow f fs s path d rest below warned layers warnings hp hc hdecl _ _ ihb ih =>
    obtain ⟨hns, hnr⟩ := List.forall_mem_cons.mp hn
    have hpf := isFile_of_findBase? hp
    have hps := straight_of_findBase? hd hns hp
    have hmem : Path.plain path ∉ spelled (f :: fs) := by
      rw [plain_mem_spelled_iff hl hs hpf hps]
      rintro ⟨g, hg, hsame⟩
      exact hc g hg hsame
    -- The bases of `path` are loaded with `path` on the stack, from nothing; what they give is put
    -- over the options at hand.
    have hs' : ∀ g ∈ (⟨path, Path.parent path⟩ : Frame) :: f :: fs,
        tree.isFile g.path = true ∧ Straight g.path :=
      List.forall_mem_cons.mpr ⟨⟨hpf, hps⟩, hs⟩
    obtain ⟨inner, hri, hoi, hki⟩ := ihb (hu path d hdecl) hs'
      (hps.parent (FileTree.names_ne_nil hps.rooted hpf)) .empty Fields.ordered_nil
    have hri : loadBases tree (Path.plain path :: spelled (f :: fs)) path (Path.parent path) .empty
        d.bases = ⟨warned, .ok inner⟩ := hri
    have hki : ∀ key, inner.get? key = lastDeclared? key below := by
      intro key
      rw [hki key]
      exact Option.or_none
    obtain ⟨inherited, hrl, hol, hkl⟩ := load_of_loadBases hdecl hoi hri hki
    obtain ⟨result, hr, hor, hk⟩ := ih hnr hs hd (options.extend inherited)
      (OptionSet.ordered_extend ho)
    refine ⟨result, ?_, hor, fun key => ?_⟩
    · rw [loadBases_follow hp hmem, hrl, Logged.andThen_ok, hr]
    · rw [hk, OptionSet.get?_extend hol, hkl, ← Option.or_assoc, ← lastDeclared?_append]
      simp

section Existence

/-- Files that a stack holds are different, so there are at least as many. -/
theorem Stack.length_le (h : Stack tree tree.SameFile root base fs) (hl : tree.LinkFree)
    (hf : ∀ f ∈ fs, tree.isFile f.path = true ∧ isRooted f.path = true) :
    fs.length ≤ tree.fileCount := by
  have hpaths : ∀ p ∈ fs.map (·.path), isRooted p = true ∧ tree.isFile p = true := by
    intro p hp
    obtain ⟨f, hm, rfl⟩ := List.mem_map.mp hp
    exact (hf f hm).symm
  have hnodup : ((fs.map (·.path)).map Path.normalize).Nodup := by
    rw [List.map_map, List.Nodup, List.pairwise_map]
    refine h.pairwise.imp_of_mem fun ha hb hab he => hab ?_
    exact (FileTree.sameFile_iff hl (hf _ ha).2 (hf _ hb).2 (hf _ ha).1 (hf _ hb).1).mpr he
  simpa using FileTree.length_le_fileCount hl hpaths hnodup

/-- If every configuration that is reached can be read, then following specifiers comes to an end:
`left` bounds the files that are not on the stack yet. -/
theorem exists_reads (hl : tree.LinkFree) (hb : isRooted base = true)
    (hr : tree.isFile root = true ∧ isRooted root = true)
    (hw : ∀ f fs, Stack tree tree.SameFile root base (f :: fs) →
      ∃ d, declaration? tree f.path = some d) (left : Nat) {d : Declaration}
    (hs : Stack tree tree.SameFile root base (f :: fs))
    (hlen : tree.fileCount < (f :: fs).length + left) (hd : declaration? tree f.path = some d)
    (hsub : specifiers ⊆ d.bases) :
    ∃ layers warnings, Reads tree f fs specifiers layers warnings := by
  induction left generalizing f fs d specifiers with
  | zero =>
    -- The stack would hold more files than there are.
    have hframe := hs.frame hb hr
    have := hs.length_le hl fun g hg => ⟨(hframe g hg).1, (hframe g hg).2.1⟩
    omega
  | succ left ihl =>
    induction specifiers with
    | nil => exact ⟨[], [], .nil f fs⟩
    | cons s rest ih =>
      obtain ⟨hsd, hrest⟩ := List.cons_subset.mp hsub
      obtain ⟨layers, warnings, h⟩ := ih hrest
      cases hp : findBase? tree s f.directory with
      | none => exact ⟨layers, _, .missing hp h⟩
      | some path =>
        by_cases hc : ∃ g ∈ f :: fs, tree.SameFile path g.path
        · exact ⟨layers, _, .circular hp hc h⟩
        · have hc : ∀ g ∈ f :: fs, ¬ tree.SameFile path g.path := fun g hg he => hc ⟨g, hg, he⟩
          have hs' := hs.push hd hsd hp hc
          obtain ⟨d', hd'⟩ := hw _ _ hs'
          have hlen' : tree.fileCount
              < ((⟨path, Path.parent path⟩ : Frame) :: f :: fs).length + left := by
            rw [List.length_cons]
            omega
          obtain ⟨below, warned, hb'⟩ := ihl hs' hlen' hd' (List.Subset.refl _)
          exact ⟨_, _, .follow hp hc hd' hb' h⟩

end Existence

section Sample

/-- A configuration on a base that leads back to it and on one that is not there. -/
def sampleText : String :=
  "\x7b\"extends\": [\"./b/a.json\", \"./c\"], \"compilerOptions\": \x7b\"outDir\": \"out\"\x7d\x7d"

/-- Its base, in a directory of its own. -/
def sampleBaseText : String :=
  "\x7b\"extends\": \"../tsconfig.json\", \"compilerOptions\": \x7b\"lib\": [\"ES6\", \"Dom\"],"
    ++ " \"outDir\": \"b\", \"typeRoots\": [\"types\", true]\x7d\x7d"

/-- The options of the base. -/
def sampleBase : Fields Json :=
  [("lib", .array [.string "ES6", .string "Dom"]), ("outDir", .string "b"),
    ("typeRoots", .array [.string "types", .bool true])]

def sampleTree : FileTree :=
  { inside := [("p", .directory
      [("tsconfig.json", .file (Utf8.encode sampleText)),
        ("b", .directory [("a.json", .file (Utf8.encode sampleBaseText))])])] }

theorem declared?_sampleText : declared? (Utf8.encode sampleText)
    = some ⟨["./b/a.json", "./c"], [("outDir", .string "out")]⟩ := by
  rw [declared?_encode]
  cbv

theorem declared?_sampleBaseText : declared? (Utf8.encode sampleBaseText)
    = some ⟨["../tsconfig.json"], sampleBase⟩ := by
  rw [declared?_encode]
  cbv

theorem linkFree_sampleTree : sampleTree.LinkFree := FileTree.linkFree_of_every (by decide)

/-- The files of the tree are its two configurations. -/
def isSampleEntry : Entry → Bool
  | .file bytes => bytes = Utf8.encode sampleText || bytes = Utf8.encode sampleBaseText
  | _ => true

theorem declared?_of_sampleTree {place : List String} {bytes : List UInt8}
    (h : sampleTree.entry? place = some (.file bytes)) :
    declared? bytes = some ⟨["./b/a.json", "./c"], [("outDir", .string "out")]⟩ ∨
      declared? bytes = some ⟨["../tsconfig.json"], sampleBase⟩ := by
  have hevery : FileTree.every isSampleEntry (.directory sampleTree.inside) = true := by
    decide +kernel
  have hbytes := FileTree.everyFrom_of_every hevery place _ h
  simp only [isSampleEntry, Bool.or_eq_true, decide_eq_true_eq] at hbytes
  rcases hbytes with rfl | rfl
  · exact Or.inl declared?_sampleText
  · exact Or.inr declared?_sampleBaseText

theorem noUpward_sampleTree : NoUpward sampleTree := by
  apply noUpward_of_files linkFree_sampleTree
  intro place bytes d hp hd s hs hu
  have hs : s ∈ ["./b/a.json", "./c", "../tsconfig.json"] := by
    rcases declared?_of_sampleTree hp with h | h <;> simp_all <;> grind
  have hf : ∀ s ∈ ["./b/a.json", "./c", "../tsconfig.json"], isFileSpecifier s = true := by
    decide +kernel
  simpa [hf s hs] using hu.1

theorem found_sampleTree :
    find? sampleTree (searchDirectory "/p" "a.ts") = some "/p/tsconfig.json" ∧
      findBase? sampleTree "./b/a.json" "/p" = some "/p/b/a.json" ∧
      findBase? sampleTree "../tsconfig.json" "/p/b" = some "/p/tsconfig.json" ∧
      findBase? sampleTree "./c" "/p" = none := by
  simp only [find?_eq, findBase?_eq]
  unfold FileTree.isFile FileTree.readBytes
  simp only [FileTree.locate_eq]
  decide +kernel

theorem find?_sampleTree :
    find? sampleTree (searchDirectory "/p" "a.ts") = some "/p/tsconfig.json" :=
  found_sampleTree.1

theorem findBase?_sampleTree :
    findBase? sampleTree "./b/a.json" "/p" = some "/p/b/a.json" ∧
      findBase? sampleTree "../tsconfig.json" "/p/b" = some "/p/tsconfig.json" ∧
      findBase? sampleTree "./c" "/p" = none :=
  found_sampleTree.2

theorem declaration?_sampleTree : declaration? sampleTree "/p/tsconfig.json"
    = some ⟨["./b/a.json", "./c"], [("outDir", .string "out")]⟩ ∧
      declaration? sampleTree "/p/b/a.json" = some ⟨["../tsconfig.json"], sampleBase⟩ := by
  have hn : Path.reduce true (Path.names "/p/tsconfig.json") = ["p", "tsconfig.json"] ∧
      Path.reduce true (Path.names "/p/b/a.json") = ["p", "b", "a.json"] := by decide +kernel
  have h1 : sampleTree.entry? (Path.reduce true (Path.names "/p/tsconfig.json"))
      = some (.file (Utf8.encode sampleText)) := by
    rw [hn.1]
    rfl
  have h2 : sampleTree.entry? (Path.reduce true (Path.names "/p/b/a.json"))
      = some (.file (Utf8.encode sampleBaseText)) := by
    rw [hn.2]
    rfl
  obtain ⟨hf, hr, -⟩ := findBase?_sampleTree
  exact ⟨declaration?_eq_some_iff.mpr ⟨_, FileTree.readBytes_of_entry? linkFree_sampleTree
      (by decide +kernel) (isFile_of_findBase? hr) h1, declared?_sampleText⟩,
    declaration?_eq_some_iff.mpr ⟨_, FileTree.readBytes_of_entry? linkFree_sampleTree
      (by decide +kernel) (isFile_of_findBase? hf) h2, declared?_sampleBaseText⟩⟩

theorem sameFile_sampleTree : ¬ sampleTree.SameFile "/p/b/a.json" "/p/tsconfig.json" := by
  obtain ⟨hf, hr, -⟩ := findBase?_sampleTree
  rw [FileTree.sameFile_iff linkFree_sampleTree (by decide +kernel) (by decide +kernel)
    (isFile_of_findBase? hf) (isFile_of_findBase? hr)]
  decide +kernel

theorem reads_sampleTree : Reads sampleTree ⟨"/p/tsconfig.json", "/p"⟩ [] ["./b/a.json", "./c"]
    [⟨"/p/b/a.json", "/p/b", sampleBase⟩]
    [.extendsCircular "/p/b/a.json" "/p/tsconfig.json",
      .extendsNotFound "/p/tsconfig.json" "./c"] := by
  obtain ⟨hf, hr, hm⟩ := findBase?_sampleTree
  have hp : Path.parent "/p/b/a.json" = "/p/b" := by decide +kernel
  have hb : Reads sampleTree ⟨"/p/b/a.json", Path.parent "/p/b/a.json"⟩ [⟨"/p/tsconfig.json", "/p"⟩]
      ["../tsconfig.json"] [] [.extendsCircular "/p/b/a.json" "/p/tsconfig.json"] := by
    rw [hp]
    exact .circular hr ⟨⟨"/p/tsconfig.json", "/p"⟩, by simp, .refl _ _⟩ (.nil _ _)
  have hc : ∀ g ∈ [(⟨"/p/tsconfig.json", "/p"⟩ : Frame)],
      ¬ sampleTree.SameFile "/p/b/a.json" g.path := by
    simpa using sameFile_sampleTree
  have h := @Reads.follow sampleTree ⟨"/p/tsconfig.json", "/p"⟩ [] "./b/a.json" "/p/b/a.json" _ _ _
    _ _ _ hf hc declaration?_sampleTree.2 hb (.missing hm (.nil _ _))
  rwa [hp] at h

/-- What the base declares becomes absolute in its own directory. -/
theorem becomes_sampleBase :
    Becomes "/p/b" "typeRoots" (.array [.string "types", .bool true])
        (.array [.string "/p/b/types", .bool true]) ∧
      Becomes "/p/b" "lib" (.array [.string "ES6", .string "Dom"])
        (.array [.string "lib.es2015.d.ts", .string "lib.dom.d.ts"]) ∧
      Becomes "/p" "outDir" (.string "out") (.string "/p/out") := by
  have htypes : Path.toAbsolute "/p/b" "types" = "/p/b/types" := by decide +kernel
  have hout : Path.toAbsolute "/p" "out" = "/p/out" := by decide +kernel
  have hes6 : lowerAscii "ES6" = "es6" := by decide +kernel
  have hdom : LibraryIn "Dom" "lib.dom.d.ts" :=
    .named (by decide +kernel) (by decide +kernel) (by decide +kernel)
  refine ⟨.paths (.inl rfl) ?_, .libraries ?_, ?_⟩
  · exact .cons (.text htypes.symm) (.cons (.other nofun) .nil)
  · exact .cons (.text (.sixth hes6)) (.cons (.text hdom) .nil)
  · rw [← hout]
    exact .path (by simp [IsPathName])

end Sample

/-- The options of a target: what its configuration reaches can be listed, and each option but
`noEmit` has the value that the last of the list to declare it gives. -/
theorem resolve_eq_last_declared (hl : tree.LinkFree) (hb : isRooted base = true)
    (hn : Path.normalize base = base) (hu : NoUpward tree)
    (hr : find? tree (searchDirectory base target) = some root)
    (hw : ∀ f fs, Stack tree tree.SameFile root base (f :: fs) →
      ∃ d, declaration? tree f.path = some d) :
    ∃ d, declaration? tree root = some d ∧
      (∃ layers warnings, Reads tree ⟨root, base⟩ [] d.bases layers warnings) ∧
      ∀ layers warnings, Reads tree ⟨root, base⟩ [] d.bases layers warnings →
        ∃ options, resolve tree base target = ⟨warnings, .ok ⟨some root, options⟩⟩ ∧
          Fields.Ordered options.fields ∧ options.get? "noEmit" = some (.bool true) ∧
          ∀ key, key ≠ "noEmit" → ∀ value, options.get? key = value ↔
            LastDeclared key (layers ++ [⟨root, base, d.options⟩]) value := by
  obtain ⟨d, hd⟩ := hw _ _ .root
  obtain ⟨hrf, hrs⟩ := straight_of_find? hb hr
  refine ⟨d, hd, ?_, fun layers warnings h => ?_⟩
  · exact exists_reads hl hb ⟨hrf, hrs.rooted⟩ hw tree.fileCount .root (by simp) hd
      (List.Subset.refl _)
  · obtain ⟨result, hres, ho, hk⟩ := loadBases_of_reads hl hu h (hu _ _ hd) (by simp [hrf, hrs])
      (Path.straight_of_normalize_eq hb hn) .empty Fields.ordered_nil
    have hk : ∀ key, result.get? key = lastDeclared? key layers := by
      intro key
      rw [hk key]
      exact Option.or_none
    obtain ⟨options, hload, hol, hkl⟩ := load_of_loadBases hd ho hres hk
    have hload : load tree [] root base = ⟨warnings, .ok options⟩ := hload
    refine ⟨options.forceNoEmit, ?_, hol.insert, OptionSet.get?_set_self _ _ _, ?_⟩
    · simp only [resolve, hr, hload, Logged.andThen_ok]
      simp [pure]
    · intro key hne value
      rw [OptionSet.forceNoEmit, OptionSet.get?_set_of_ne _ _ hne, hkl, lastDeclared_iff]

/-- Paths are seen from the directory of the configuration that declares them, and what is built on
another configuration has its options unless it declares them itself. -/
theorem resolve_sampleTree : sampleTree.LinkFree ∧ NoUpward sampleTree ∧
    ∃ options, resolve sampleTree "/p" "a.ts"
        = ⟨[.extendsCircular "/p/b/a.json" "/p/tsconfig.json",
            .extendsNotFound "/p/tsconfig.json" "./c"], .ok ⟨some "/p/tsconfig.json", options⟩⟩ ∧
      options.get? "noEmit" = some (.bool true) ∧
      options.get? "outDir" = some (.string "/p/out") ∧
      options.get? "typeRoots" = some (.array [.string "/p/b/types", .bool true]) ∧
      options.get? "lib" = some (.array [.string "lib.es2015.d.ts", .string "lib.dom.d.ts"]) ∧
      options.get? "strict" = none := by
  have hw : ∀ f fs, Stack sampleTree sampleTree.SameFile "/p/tsconfig.json" "/p" (f :: fs) →
      ∃ d, declaration? sampleTree f.path = some d := by
    intro f fs hs
    obtain ⟨-, hr, -⟩ := findBase?_sampleTree
    have hf := hs.frame (by decide +kernel)
      ⟨isFile_of_findBase? hr, by decide +kernel⟩ f List.mem_cons_self
    refine exists_declaration?_of_files linkFree_sampleTree (fun place bytes hb => ?_) hf.1
    rcases declared?_of_sampleTree hb with h | h <;> exact ⟨_, h⟩
  obtain ⟨d, hd, -, h⟩ := resolve_eq_last_declared linkFree_sampleTree (by decide +kernel)
    (by decide +kernel) noUpward_sampleTree find?_sampleTree hw
  rw [declaration?_sampleTree.1, Option.some.injEq] at hd
  subst hd
  obtain ⟨options, hres, -, hne, hk⟩ := h _ _ reads_sampleTree
  obtain ⟨htypes, hlib, hout⟩ := becomes_sampleBase
  refine ⟨linkFree_sampleTree, noUpward_sampleTree, options, hres, hne, ?_, ?_, ?_, ?_⟩
  · refine (hk "outDir" (by decide) _).mpr ?_
    exact @LastDeclared.some "outDir" [⟨"/p/b/a.json", "/p/b", sampleBase⟩] [] _ _ _ rfl
      (by simp) hout
  · refine (hk "typeRoots" (by decide) _).mpr ?_
    exact @LastDeclared.some "typeRoots" [] _ _ _ _ rfl (by simp [Fields.find?]) htypes
  · refine (hk "lib" (by decide) _).mpr ?_
    exact @LastDeclared.some "lib" [] _ _ _ _ rfl (by simp [Fields.find?]) hlib
  · exact (hk "strict" (by decide) _).mpr (.none (by simp [sampleBase, Fields.find?]))

end Config
end BufferCheck
