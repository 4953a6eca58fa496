import BufferCheck.Proofs.Config.Preorder
import BufferCheck.Proofs.Path.Canonical

/-! Resolved options are settled: their paths are absolute and in normal form, whichever
configuration declares them, so nothing changes if they are resolved again. -/
namespace BufferCheck

namespace Path

variable {base path : String} {ns : List String}

/-- A path that is seen alike from every directory, spelled in its only way. -/
structure Settled (path : String) : Prop where
  rooted : isRooted path = true
  normal : normalize path = path
  /-- Only the root ends in a separator. -/
  unclosed : path ≠ "/" → endsInSeparator path = false

theorem settled_ofNames (h : ∀ n ∈ ns, IsName n) (hd : ".." ∉ ns) : Settled (ofNames ns) := by
  by_cases hne : ns = []
  · subst hne
    exact ⟨by decide +kernel, by decide +kernel, fun h => (h rfl).elim⟩
  · have hs : Spelling.ofPath (ofNames ns) = ⟨true, ns, false⟩ := by
      rw [← text_open]
      exact ofPath_text h fun _ he => (hne he).elim
    refine ⟨isRooted_ofNames, ?_, fun _ => congrArg Spelling.closed hs⟩
    rw [normalize, hs, reduce_of_notMem hd, text_open]

theorem settled_toAbsolute (hb : isRooted base = true) : Settled (toAbsolute base path) := by
  rw [← ofNames_names_toAbsolute hb]
  refine settled_ofNames (fun n hn => isName_of_mem_names hn) ?_
  exact (straight_toAbsolute hb).notMem

/-- A settled path is absolute already. -/
theorem Settled.toAbsolute_eq (h : Settled path) (directory : String) :
    toAbsolute directory path = path := by
  have hcombine : combine directory path = path := by
    rw [combine, h.rooted, Bool.true_or, if_pos rfl, h.normal]
  rw [toAbsolute, hcombine]
  split
  · next hsize =>
    have hroot : path ≠ "/" := by
      rintro rfl
      exact absurd hsize (by decide)
    have hend := h.unclosed hroot
    rw [endsInSeparator, decide_eq_false_iff_not, String.back?_eq] at hend
    exact trimEnd_eq (n := 0) (by simp) hend
  · rfl

end Path

namespace Config

open BufferCheck.Path (isRooted)

variable {tree : FileTree} {base target directory name : String} {value : Json}
  {options more : OptionSet} {resolved : Resolution}

/-- What an option may hold once it is resolved. -/
def IsSettled (name : String) (value : Json) : Prop :=
  match OptionKind.ofName name with
  | .path => ∀ s, value = .string s → Path.Settled s
  | .pathList => ∀ items, value = .array items → ∀ s, .string s ∈ items → Path.Settled s
  | .libraryList => ∀ items, value = .array items → ∀ s, .string s ∈ items → libraryFile s = s
  | .plain => True

/-- Every option holds what it may hold once it is resolved. -/
def AllSettled (options : OptionSet) : Prop := ∀ p ∈ options.fields, IsSettled p.1 p.2

section Values

theorem lowerChar_lowerChar (c : Char) : lowerChar (lowerChar c) = lowerChar c := by
  have hletters : ∀ n < 91, 65 ≤ n → lowerChar (Char.ofNat (n + 32)) = Char.ofNat (n + 32) := by
    decide
  by_cases h : 'A' ≤ c ∧ c ≤ 'Z'
  · have hlow : 65 ≤ c.toNat := h.1
    have hhigh : c.toNat ≤ 90 := h.2
    have hc : lowerChar c = Char.ofNat (c.toNat + 32) := if_pos h
    rw [hc]
    exact hletters c.toNat (by omega) hlow
  · simp [lowerChar, h]

theorem lowerAscii_append (s t : String) : lowerAscii (s ++ t) = lowerAscii s ++ lowerAscii t := by
  simp [lowerAscii, String.ofList_append]

theorem lowerAscii_lowerAscii (s : String) : lowerAscii (lowerAscii s) = lowerAscii s := by
  have h : lowerChar ∘ lowerChar = lowerChar := funext lowerChar_lowerChar
  simp [lowerAscii, h]

/-- A file name of a library stays as it is. -/
theorem libraryFile_eq_self {file : String} (hl : lowerAscii file = file)
    (hs : ".d.ts".toList <:+ file.toList) : libraryFile file = file := by
  rw [libraryFile, hl, if_pos (List.isSuffixOf_iff_suffix.mpr hs)]

theorem libraryFile_libraryFile (name : String) :
    libraryFile (libraryFile name) = libraryFile name := by
  have hname := lowerAscii_lowerAscii name
  have hlib : lowerAscii "lib." = "lib." ∧ lowerAscii ".d.ts" = ".d.ts" := by decide +kernel
  have hyears : ∀ file ∈ ["lib.es2015.d.ts", "lib.es2016.d.ts"],
      lowerAscii file = file ∧ ".d.ts".toList <:+ file.toList := by decide +kernel
  have hfile : lowerAscii (libraryFile name) = libraryFile name ∧
      ".d.ts".toList <:+ (libraryFile name).toList := by
    rw [libraryFile]
    split
    · next hs => exact ⟨hname, List.isSuffixOf_iff_suffix.mp hs⟩
    · split
      · exact hyears _ (by simp)
      · split
        · exact hyears _ (by simp)
        · refine ⟨by rw [lowerAscii_append, lowerAscii_append, hlib.1, hlib.2, hname], ?_⟩
          rw [String.toList_append]
          exact List.suffix_append _ _
  exact libraryFile_eq_self hfile.1 hfile.2

theorem mem_map_mapString {f : String → String} {s : String} {items : List Json}
    (h : .string s ∈ items.map (mapString f)) : ∃ t, s = f t := by
  obtain ⟨item, -, hs⟩ := List.mem_map.mp h
  cases item with
  | string t => exact ⟨t, (Json.string.inj hs).symm⟩
  | _ => cases hs

theorem mapString_eq_self {f : String → String} (h : ∀ s, value = .string s → f s = s) :
    mapString f value = value := by
  cases value with
  | string s => exact congrArg Json.string (h s rfl)
  | _ => rfl

theorem mapStrings_eq_self {f : String → String}
    (h : ∀ items, value = .array items → ∀ s, .string s ∈ items → f s = s) :
    mapStrings f value = value := by
  cases value with
  | array items =>
    refine congrArg Json.array ((List.map_congr_left fun item hi => ?_).trans (List.map_id _))
    exact mapString_eq_self fun s hs => h items rfl s (hs ▸ hi)
  | _ => rfl

/-- What a directory makes of an option is settled. -/
theorem isSettled_resolveSetting (hd : isRooted directory = true) (name : String) (value : Json) :
    IsSettled name (resolveSetting directory name value) := by
  unfold IsSettled resolveSetting
  cases OptionKind.ofName name with
  | path =>
    intro s hs
    cases value with
    | string t => exact Json.string.inj hs ▸ Path.settled_toAbsolute hd
    | _ => cases hs
  | pathList =>
    intro items hi s hs
    cases value with
    | array declared =>
      obtain ⟨t, rfl⟩ := mem_map_mapString (Json.array.inj hi ▸ hs)
      exact Path.settled_toAbsolute hd
    | _ => cases hi
  | libraryList =>
    intro items hi s hs
    cases value with
    | array declared =>
      obtain ⟨t, rfl⟩ := mem_map_mapString (Json.array.inj hi ▸ hs)
      exact libraryFile_libraryFile t
    | _ => cases hi
  | plain => trivial

/-- A settled option is the same from every directory. -/
theorem resolveSetting_eq_self (h : IsSettled name value) (directory : String) :
    resolveSetting directory name value = value := by
  unfold IsSettled at h
  unfold resolveSetting
  cases hk : OptionKind.ofName name with
  | path =>
    rw [hk] at h
    exact mapString_eq_self fun s hs => (h s hs).toAbsolute_eq directory
  | pathList =>
    rw [hk] at h
    exact mapStrings_eq_self fun items hi s hs => (h items hi s hs).toAbsolute_eq directory
  | libraryList =>
    rw [hk] at h
    exact mapStrings_eq_self h
  | plain => rfl

end Values

section Options

theorem allSettled_insert (h : AllSettled options) (hv : IsSettled name value) :
    AllSettled (options.set name value) := by
  intro p hp
  rcases Fields.eq_or_mem_of_mem_insert hp with rfl | hp
  · exact hv
  · exact h p hp

theorem AllSettled.extend (h : AllSettled options) (hm : AllSettled more) :
    AllSettled (options.extend more) := by
  have hfold : ∀ pairs : Fields Json, (∀ p ∈ pairs, IsSettled p.1 p.2) →
      ∀ o, AllSettled o → AllSettled ⟨o.fields.extend pairs⟩ := by
    intro pairs
    induction pairs with
    | nil => exact fun _ _ ho => ho
    | cons p rest ih =>
      intro hp o ho
      exact ih (fun q hq => hp q (List.mem_cons_of_mem p hq)) (o.set p.1 p.2)
        (allSettled_insert ho (hp p List.mem_cons_self))
  exact hfold more.fields hm options h

theorem allSettled_resolveSettings (hd : isRooted directory = true) (declared : Fields Json) :
    AllSettled (resolveSettings directory declared) := by
  intro p hp
  obtain ⟨q, -, rfl⟩ := List.mem_map.mp hp
  exact isSettled_resolveSetting hd q.1 q.2

theorem AllSettled.resolveSettings_eq (h : AllSettled options) (directory : String) :
    resolveSettings directory options.fields = options := by
  refine congrArg OptionSet.mk ((List.map_congr_left fun p hp => ?_).trans (List.map_id _))
  rw [resolveSetting_eq_self (h p hp)]
  rfl

end Options

section Load

/-- Whatever a configuration and those that it leads to declare, what is loaded is settled: every
directory on the way is rooted. -/
theorem allSettled_of_load {chain : List String} {path : String} (hd : isRooted directory = true)
    (h : (load tree chain path directory).outcome = .ok options) : AllSettled options := by
  refine (@preorder_induction tree
    (fun chain path directory => isRooted directory = true → ∀ options,
      (load tree chain path directory).outcome = .ok options → AllSettled options)
    (fun chain directory specifiers => isRooted directory = true → ∀ path options result,
      AllSettled options →
      (loadBases tree chain path directory options specifiers).outcome = .ok result →
      AllSettled result)
    ?none ?some ?nil ?skip ?follow).1 chain path directory hd options h
  case none =>
    intro chain path directory hdecl _ options h
    obtain ⟨e, -, hload⟩ := @load_of_none tree chain path directory hdecl
    rw [hload] at h
    cases h
  case some =>
    intro chain path directory d hdecl ih hd options h
    rw [load_of_some hdecl] at h
    obtain ⟨inherited, hbases, hown⟩ := Logged.andThen_eq_ok.mp h
    rw [← Except.ok.inj hown]
    have hempty : AllSettled .empty := fun p hp => nomatch hp
    exact (ih hd path .empty inherited hempty hbases).extend
      (allSettled_resolveSettings hd d.options)
  case nil =>
    intro chain directory _ path options result ho h
    rw [loadBases_nil] at h
    exact Except.ok.inj h ▸ ho
  case skip =>
    intro chain directory specifier rest hf ih hd path options result ho h
    obtain ⟨w, hskip⟩ := @loadBases_skip tree chain path directory options specifier rest hf
    rw [hskip, Logged.note_andThen] at h
    exact ih hd path options result ho h
  case follow =>
    intro chain directory specifier rest found hf hc ihfound ih hd path options result ho h
    rw [loadBases_follow hf hc] at h
    obtain ⟨inherited, hload, hrest⟩ := Logged.andThen_eq_ok.mp h
    have hr := isRooted_of_findBase? hd hf
    have hparent := (Path.names_parent hr (FileTree.names_ne_nil hr (isFile_of_findBase? hf))).1
    exact ih hd path _ result (ho.extend (ihfound hparent inherited hload)) hrest

theorem allSettled_of_resolve (hb : isRooted base = true)
    (h : (resolve tree base target).outcome = .ok resolved) : AllSettled resolved.options := by
  have hnoEmit : IsSettled "noEmit" (.bool true) := trivial
  obtain ⟨-, rfl⟩ | ⟨root, options, -, hload, rfl⟩ := resolve_eq_ok h
  · have hdefaults : AllSettled .defaults := by
      intro p hp
      rcases Fields.eq_or_mem_of_mem_insert hp with rfl | hp
      · trivial
      · rcases Fields.eq_or_mem_of_mem_insert hp with rfl | hp
        · trivial
        · cases hp
    exact allSettled_insert hdefaults hnoEmit
  · exact allSettled_insert (allSettled_of_load hb hload) hnoEmit

end Load

/-- Whichever configurations the options of a target come from, every path in them is absolute, in
normal form and without a separator at its end, and every library is a file name; resolved again
from any directory the options stay as they are. -/
theorem settled_of_resolve (hb : isRooted base = true)
    (h : (resolve tree base target).outcome = .ok resolved) :
    (∀ name ∈ pathOptions, ∀ s, (name, .string s) ∈ resolved.options.fields → Path.Settled s) ∧
      (∀ name ∈ pathListOptions, ∀ items, (name, .array items) ∈ resolved.options.fields →
        ∀ s, .string s ∈ items → Path.Settled s) ∧
      (∀ items, ("lib", .array items) ∈ resolved.options.fields →
        ∀ s, .string s ∈ items → libraryFile s = s) ∧
      ∀ directory, resolveSettings directory resolved.options.fields = resolved.options := by
  have hall := allSettled_of_resolve hb h
  have hpath : ∀ name ∈ pathOptions, OptionKind.ofName name = .path := by decide
  have hlist : ∀ name ∈ pathListOptions, OptionKind.ofName name = .pathList := by decide
  have hlib : OptionKind.ofName "lib" = .libraryList := by decide
  refine ⟨fun name hn s hm => ?_, fun name hn items hm => ?_, fun items hm => ?_,
    hall.resolveSettings_eq⟩
  · have hs := hall _ hm
    simp only [IsSettled, hpath name hn] at hs
    exact hs s rfl
  · have hs := hall _ hm
    simp only [IsSettled, hlist name hn] at hs
    exact hs items rfl
  · have hs := hall _ hm
    simp only [IsSettled, hlib] at hs
    exact hs items rfl

section Sample

/-- A configuration on a package. -/
def onKitText : String :=
  "\x7b\"extends\": \"kit\", \"compilerOptions\": \x7b\"rootDir\": \"./src//\"\x7d\x7d"

def kitText : String :=
  "\x7b\"compilerOptions\": \x7b\"outDir\": \"../../out/.\", \"lib\": [\"ES6\"]\x7d\x7d"

def kitTree : FileTree :=
  { inside := [("p", .directory
      [("tsconfig.json", .file (Utf8.encode onKitText)),
        ("node_modules", .directory [("kit", .directory
          [("tsconfig.json", .file (Utf8.encode kitText))])])])] }

theorem found_kitTree :
    find? kitTree (searchDirectory "/p/../p//" "a.ts") = some "/p/tsconfig.json" ∧
      findBase? kitTree "kit" "/p/../p//" = some "/p/../p//node_modules/kit/tsconfig.json" := by
  simp only [find?_eq, findBase?_eq]
  unfold FileTree.isFile FileTree.readBytes
  simp only [FileTree.locate_eq]
  decide +kernel

theorem linkFree_kitTree : kitTree.LinkFree := FileTree.linkFree_of_every (by decide)

theorem declaration?_kitTree :
    declaration? kitTree "/p/tsconfig.json"
        = some ⟨["kit"], [("rootDir", .string "./src//")]⟩ ∧
      declaration? kitTree "/p/../p//node_modules/kit/tsconfig.json" = some ⟨[],
        [("lib", .array [.string "ES6"]), ("outDir", .string "../../out/.")]⟩ := by
  have hn : Path.reduce true (Path.names "/p/tsconfig.json") = ["p", "tsconfig.json"] ∧
      Path.reduce true (Path.names "/p/../p//node_modules/kit/tsconfig.json")
        = ["p", "node_modules", "kit", "tsconfig.json"] := by decide +kernel
  have h1 : kitTree.entry? (Path.reduce true (Path.names "/p/tsconfig.json"))
      = some (.file (Utf8.encode onKitText)) := by
    rw [hn.1]
    rfl
  have h2 : kitTree.entry? (Path.reduce true
      (Path.names "/p/../p//node_modules/kit/tsconfig.json"))
      = some (.file (Utf8.encode kitText)) := by
    rw [hn.2]
    rfl
  have hd1 : declared? (Utf8.encode onKitText)
      = some ⟨["kit"], [("rootDir", .string "./src//")]⟩ := by
    rw [declared?_encode]
    cbv
  have hd2 : declared? (Utf8.encode kitText) = some ⟨[],
      [("lib", .array [.string "ES6"]), ("outDir", .string "../../out/.")]⟩ := by
    rw [declared?_encode]
    cbv
  obtain ⟨hroot, hkit⟩ := found_kitTree
  have hfile := (straight_of_find? (by decide +kernel) hroot).1
  exact ⟨declaration?_eq_some_iff.mpr ⟨_, FileTree.readBytes_of_entry? linkFree_kitTree
      (by decide +kernel) hfile h1, hd1⟩,
    declaration?_eq_some_iff.mpr ⟨_, FileTree.readBytes_of_entry? linkFree_kitTree
      (by decide +kernel) (isFile_of_findBase? hkit) h2, hd2⟩⟩

/-- What comes of the options of the two configurations. -/
def kitOptions : OptionSet :=
  ⟨[("lib", .array [.string "lib.es2015.d.ts"]), ("outDir", .string "/p/out"),
    ("rootDir", .string "/p/src")]⟩

theorem outcome_kitTree : (resolve kitTree "/p/../p//" "a.ts").outcome
    = .ok ⟨some "/p/tsconfig.json", kitOptions.forceNoEmit⟩ := by
  obtain ⟨hroot, hkit⟩ := found_kitTree
  obtain ⟨hd, hdkit⟩ := declaration?_kitTree
  have hkinds : OptionKind.ofName "lib" = .libraryList ∧ OptionKind.ofName "outDir" = .path ∧
      OptionKind.ofName "rootDir" = .path := by decide
  have hpaths : Path.plain "/p/../p//node_modules/kit/tsconfig.json"
        ∉ [Path.plain "/p/tsconfig.json"] ∧
      Path.parent "/p/../p//node_modules/kit/tsconfig.json" = "/p/../p//node_modules/kit" ∧
      Path.toAbsolute "/p/../p//node_modules/kit" "../../out/." = "/p/out" ∧
      Path.toAbsolute "/p/../p//" "./src//" = "/p/src" ∧
      libraryFile "ES6" = "lib.es2015.d.ts" := by decide +kernel
  obtain ⟨hchain, hparent, hout, hsrc, hlib⟩ := hpaths
  have hof : resolveSettings "/p/../p//node_modules/kit"
      [("lib", .array [.string "ES6"]), ("outDir", .string "../../out/.")]
      = ⟨[("lib", .array [.string "lib.es2015.d.ts"]), ("outDir", .string "/p/out")]⟩ := by
    simp [resolveSettings, resolveSetting, hkinds, mapString, mapStrings, hout, hlib,
      OptionSet.ofFields]
  have hown : resolveSettings "/p/../p//" [("rootDir", .string "./src//")]
      = ⟨[("rootDir", .string "/p/src")]⟩ := by
    simp [resolveSettings, resolveSetting, hkinds, mapString, hsrc, OptionSet.ofFields]
  have hmerged : (OptionSet.empty.extend (OptionSet.empty.extend
      ⟨[("lib", .array [.string "lib.es2015.d.ts"]), ("outDir", .string "/p/out")]⟩)).extend
      ⟨[("rootDir", .string "/p/src")]⟩ = kitOptions := by rfl
  have hload : (load kitTree [] "/p/tsconfig.json" "/p/../p//").outcome = .ok kitOptions := by
    rw [load_of_some hd, loadBases_follow hkit hchain, hparent, load_of_some hdkit, loadBases_nil,
      hof, hown, ← hmerged]
    simp only [loadBases_nil]
    rfl
  rw [resolve, hroot]
  exact Logged.andThen_eq_ok.mpr ⟨kitOptions, hload, rfl⟩

end Sample

theorem settled_kitTree : isRooted "/p/../p//" = true ∧
    (resolve kitTree "/p/../p//" "a.ts").outcome
      = .ok ⟨some "/p/tsconfig.json", kitOptions.forceNoEmit⟩ ∧
    ("outDir", .string "/p/out") ∈ kitOptions.forceNoEmit.fields ∧ Path.Settled "/p/out" ∧
    ∀ directory, resolveSettings directory kitOptions.forceNoEmit.fields
      = kitOptions.forceNoEmit := by
  have hr : isRooted "/p/../p//" = true := by decide +kernel
  have hm : ("outDir", .string "/p/out") ∈ kitOptions.forceNoEmit.fields := by
    have hfields : kitOptions.forceNoEmit.fields = [("lib", .array [.string "lib.es2015.d.ts"]),
        ("noEmit", .bool true), ("outDir", .string "/p/out"), ("rootDir", .string "/p/src")] := rfl
    simp [hfields]
  obtain ⟨hpath, -, -, hagain⟩ := settled_of_resolve hr outcome_kitTree
  exact ⟨hr, outcome_kitTree, hm, hpath "outDir" (by decide) "/p/out" hm, hagain⟩

end Config
end BufferCheck
