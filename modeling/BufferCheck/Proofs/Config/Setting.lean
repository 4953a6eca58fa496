import BufferCheck.Config.Setting
import Mathlib.Data.List.Forall2

/-! What a configuration makes of the value of an option. A path, and each path of a list, is seen
from the directory of the configuration; each library of a list is the name of its file. -/
namespace BufferCheck.Config

variable {directory key name file : String} {value result : Json} {items results : List Json}
  {becomes : String → String → Prop} {f : String → String}

/-- The options whose text is a path. -/
def IsPathName (key : String) : Prop :=
  key ∈ ["baseUrl", "rootDir", "outDir", "outFile", "out", "declarationDir", "tsBuildInfoFile",
    "generateCpuProfile", "generateTrace"]

/-- The options whose list has paths. -/
def IsPathListName (key : String) : Prop := key = "typeRoots" ∨ key = "rootDirs"

/-- The file of a library, in small letters. Two libraries have a name that is older than that of
their file, and the name of a file stands for itself. -/
inductive LibraryIn : String → String → Prop
  | file {name : String} (h : ".d.ts".toList <:+ (lowerAscii name).toList) :
      LibraryIn name (lowerAscii name)
  | sixth {name : String} (h : lowerAscii name = "es6") : LibraryIn name "lib.es2015.d.ts"
  | seventh {name : String} (h : lowerAscii name = "es7") : LibraryIn name "lib.es2016.d.ts"
  | named {name : String} (h : ¬ ".d.ts".toList <:+ (lowerAscii name).toList)
      (h6 : lowerAscii name ≠ "es6") (h7 : lowerAscii name ≠ "es7") :
      LibraryIn name ("lib." ++ lowerAscii name ++ ".d.ts")

/-- A text of a list becomes another text; what is no text stays. -/
inductive ItemBecomes (becomes : String → String → Prop) : Json → Json → Prop
  | text {s t : String} (h : becomes s t) : ItemBecomes becomes (.string s) (.string t)
  | other {v : Json} (h : ∀ s, v ≠ .string s) : ItemBecomes becomes v v

/-- What the declared value of an option becomes, seen from a directory. -/
inductive Becomes (directory : String) : String → Json → Json → Prop
  | path {key s : String} (h : IsPathName key) :
      Becomes directory key (.string s) (.string (Path.toAbsolute directory s))
  | paths {key : String} {items results : List Json} (h : IsPathListName key)
      (hi : List.Forall₂ (ItemBecomes fun s t => t = Path.toAbsolute directory s) items results) :
      Becomes directory key (.array items) (.array results)
  | libraries {items results : List Json}
      (hi : List.Forall₂ (ItemBecomes LibraryIn) items results) :
      Becomes directory "lib" (.array items) (.array results)
  | same {key : String} {v : Json} (hs : IsPathName key → ∀ s, v ≠ .string s)
      (ha : IsPathListName key ∨ key = "lib" → ∀ items, v ≠ .array items) :
      Becomes directory key v v

theorem libraryIn_iff : LibraryIn name file ↔ file = libraryFile name := by
  have hshort : ¬ ".d.ts".toList <:+ "es6".toList ∧ ¬ ".d.ts".toList <:+ "es7".toList := by
    decide
  rw [libraryFile]
  simp only [List.isSuffixOf_iff_suffix]
  constructor
  · intro h
    cases h with
    | file h => exact (if_pos h).symm
    | sixth h => rw [h, if_neg hshort.1, if_pos rfl]
    | seventh h => rw [h, if_neg hshort.2, if_neg (by decide), if_pos rfl]
    | named h h6 h7 => rw [if_neg h, if_neg h6, if_neg h7]
  · rintro rfl
    split
    · next h => exact .file h
    · next h =>
      split
      · next h6 => exact .sixth h6
      · next h6 =>
        split
        · next h7 => exact .seventh h7
        · next h7 => exact .named h h6 h7

theorem itemBecomes_iff (hf : ∀ s t, becomes s t ↔ t = f s) :
    ItemBecomes becomes value result ↔ mapString f value = result := by
  constructor
  · intro h
    cases h with
    | text h => rw [mapString, (hf _ _).mp h]
    | other h =>
      cases value with
      | string s => exact absurd rfl (h s)
      | _ => rfl
  · rintro rfl
    cases value with
    | string s => exact .text ((hf s _).mpr rfl)
    | _ => exact .other nofun

theorem forall₂_itemBecomes_iff (hf : ∀ s t, becomes s t ↔ t = f s) :
    List.Forall₂ (ItemBecomes becomes) items results ↔ items.map (mapString f) = results := by
  rw [← List.forall₂_eq_eq_eq, List.forall₂_map_left_iff]
  have hsame : ItemBecomes becomes = fun v w => mapString f v = w :=
    funext₂ fun v w => propext (itemBecomes_iff hf)
  rw [hsame]

theorem mapString_of_ne (h : ∀ s, value ≠ .string s) : mapString f value = value := by
  cases value with
  | string s => exact absurd rfl (h s)
  | _ => rfl

theorem mapStrings_of_ne (h : ∀ items, value ≠ .array items) : mapStrings f value = value := by
  cases value with
  | array items => exact absurd rfl (h items)
  | _ => rfl

/-- What the name of an option says of its value. -/
theorem kind_cases (key : String) :
    (OptionKind.ofName key = .path ∧ IsPathName key ∧ ¬ (IsPathListName key ∨ key = "lib")) ∨
    (OptionKind.ofName key = .pathList ∧ ¬ IsPathName key ∧ IsPathListName key) ∨
    (OptionKind.ofName key = .libraryList ∧ ¬ IsPathName key ∧ key = "lib") ∨
    (OptionKind.ofName key = .plain ∧ ¬ IsPathName key ∧ ¬ (IsPathListName key ∨ key = "lib")) := by
  have hlists : key ∈ pathListOptions ↔ IsPathListName key := by
    simp [pathListOptions, IsPathListName]
  have hapart : ∀ key ∈ pathOptions, key ∉ pathListOptions ∧ key ≠ "lib" := by decide
  unfold OptionKind.ofName
  by_cases hpath : key ∈ pathOptions
  · obtain ⟨hlist, hlib⟩ := hapart key hpath
    exact .inl ⟨if_pos hpath, hpath, not_or_intro (mt hlists.mpr hlist) hlib⟩
  by_cases hlist : key ∈ pathListOptions
  · exact .inr (.inl ⟨by rw [if_neg hpath, if_pos hlist], hpath, hlists.mp hlist⟩)
  by_cases hlib : key = "lib"
  · exact .inr (.inr (.inl ⟨by rw [if_neg hpath, if_neg hlist, if_pos hlib], hpath, hlib⟩))
  · exact .inr (.inr (.inr ⟨by rw [if_neg hpath, if_neg hlist, if_neg hlib], hpath,
      not_or_intro (mt hlists.mpr hlist) hlib⟩))

section Becomes

theorem becomes_path_iff (hpath : IsPathName key) (hlist : ¬ (IsPathListName key ∨ key = "lib")) :
    Becomes directory key value result ↔
      mapString (Path.toAbsolute directory) value = result := by
  constructor
  · intro h
    cases h with
    | path => rfl
    | paths h => exact absurd (.inl h) hlist
    | libraries => exact absurd (.inr rfl) hlist
    | same hs => exact mapString_of_ne (hs hpath)
  · rintro rfl
    cases value with
    | string s => exact .path hpath
    | _ => exact .same (fun _ => nofun) fun h => absurd h hlist

theorem becomes_paths_iff (hpath : ¬ IsPathName key) (hlist : IsPathListName key) :
    Becomes directory key value result ↔
      mapStrings (Path.toAbsolute directory) value = result := by
  have hitems : ∀ items results, List.Forall₂
      (ItemBecomes fun s t => t = Path.toAbsolute directory s) items results ↔
      items.map (mapString (Path.toAbsolute directory)) = results :=
    fun _ _ => forall₂_itemBecomes_iff fun _ _ => Iff.rfl
  constructor
  · intro h
    cases h with
    | path h => exact absurd h hpath
    | paths _ hi => exact congrArg Json.array ((hitems _ _).mp hi)
    | libraries => simp [IsPathListName] at hlist
    | same _ ha => exact mapStrings_of_ne (ha (.inl hlist))
  · rintro rfl
    cases value with
    | array items => exact .paths hlist ((hitems _ _).mpr rfl)
    | _ => exact .same (fun h => absurd h hpath) fun _ => nofun

theorem becomes_libraries_iff (hpath : ¬ IsPathName "lib") :
    Becomes directory "lib" value result ↔ mapStrings libraryFile value = result := by
  have hitems : ∀ items results, List.Forall₂ (ItemBecomes LibraryIn) items results ↔
      items.map (mapString libraryFile) = results :=
    fun _ _ => forall₂_itemBecomes_iff fun _ _ => libraryIn_iff
  constructor
  · intro h
    cases h with
    | path h => exact absurd h hpath
    | paths h => simp [IsPathListName] at h
    | libraries hi => exact congrArg Json.array ((hitems _ _).mp hi)
    | same _ ha => exact mapStrings_of_ne (ha (.inr rfl))
  · rintro rfl
    cases value with
    | array items => exact .libraries ((hitems _ _).mpr rfl)
    | _ => exact .same (fun h => absurd h hpath) fun _ => nofun

theorem becomes_plain_iff (hpath : ¬ IsPathName key)
    (hlist : ¬ (IsPathListName key ∨ key = "lib")) :
    Becomes directory key value result ↔ value = result := by
  constructor
  · intro h
    cases h with
    | path h => exact absurd h hpath
    | paths h => exact absurd (.inl h) hlist
    | libraries => exact absurd (.inr rfl) hlist
    | same => rfl
  · rintro rfl
    exact .same (fun h => absurd h hpath) fun h => absurd h hlist

end Becomes

/-- The value that is resolved is what the declared one becomes. -/
theorem becomes_iff :
    Becomes directory key value result ↔ resolveSetting directory key value = result := by
  unfold resolveSetting
  rcases kind_cases key with ⟨hkind, hpath, hlist⟩ | ⟨hkind, hpath, hlist⟩ |
    ⟨hkind, hpath, rfl⟩ | ⟨hkind, hpath, hlist⟩
  all_goals rw [hkind]
  · exact becomes_path_iff hpath hlist
  · exact becomes_paths_iff hpath hlist
  · exact becomes_libraries_iff hpath
  · exact becomes_plain_iff hpath hlist

end BufferCheck.Config
