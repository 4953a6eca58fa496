import BufferCheck.Config.Resolution
import BufferCheck.Proofs.FileTree.Place
import BufferCheck.Proofs.Text.Utf8

/-! The configurations that a search finds, and what the files at their paths declare. Candidates
are rooted paths; only the specifier of a package can put a `..` into one. -/
namespace BufferCheck.Config
open BufferCheck.Path (Straight isRooted names)

variable {tree : FileTree} {base target specifier directory path : String} {d : Declaration}
  {bytes : List UInt8}

/-- What the bytes of a file declare. -/
def declared? (bytes : List UInt8) : Option Declaration :=
  (Utf8.decode? bytes).bind Declaration.read?

/-- What the file at a path declares, if it can be read. -/
def declaration? (tree : FileTree) (path : String) : Option Declaration :=
  match tree.readText path with
  | .ok text => Declaration.read? text
  | .error _ => none

/-- A specifier names a package by way of `..`. -/
def Upward (specifier : String) : Prop := isFileSpecifier specifier = false ∧ ".." ∈ names specifier

/-- No configuration of a tree names a package by way of `..`. -/
def NoUpward (tree : FileTree) : Prop :=
  ∀ path d, declaration? tree path = some d → ∀ s ∈ d.bases, ¬ Upward s

section Declared

theorem declared?_encode (text : String) :
    declared? (Utf8.encode text) = Declaration.read? text := by
  rw [declared?, Utf8.decode?_encode, Option.bind_some]

theorem declaration?_eq_some_iff : declaration? tree path = some d ↔
    ∃ bytes, tree.readBytes path = .ok bytes ∧ declared? bytes = some d := by
  unfold declaration? FileTree.readText declared?
  cases tree.readBytes path with
  | error e => simp [bind, Except.bind]
  | ok bytes => cases h : Utf8.decode? bytes <;> simp [bind, Except.bind, pure, Except.pure, h]

/-- If no file names a package by way of `..`, then no configuration does. -/
theorem noUpward_of_files (hl : tree.LinkFree)
    (h : ∀ place bytes d, tree.entry? place = some (.file bytes) → declared? bytes = some d →
      ∀ s ∈ d.bases, ¬ Upward s) : NoUpward tree := by
  intro path d hd
  obtain ⟨bytes, hb, hd⟩ := declaration?_eq_some_iff.mp hd
  obtain ⟨place, hp⟩ := FileTree.exists_place_of_readBytes hl hb
  exact h place bytes d hp hd

/-- If every file is a configuration, then every path to a file has a declaration. -/
theorem exists_declaration?_of_files (hl : tree.LinkFree)
    (h : ∀ place bytes, tree.entry? place = some (.file bytes) → ∃ d, declared? bytes = some d)
    (hf : tree.isFile path = true) : ∃ d, declaration? tree path = some d := by
  obtain ⟨bytes, hb⟩ := FileTree.exists_of_isFile hf
  obtain ⟨place, hp⟩ := FileTree.exists_place_of_readBytes hl hb
  obtain ⟨d, hd⟩ := h place bytes hp
  exact ⟨d, declaration?_eq_some_iff.mpr ⟨bytes, hb, hd⟩⟩

end Declared

section Candidates

theorem isRooted_of_mem_spellings (hr : isRooted directory = true)
    (h : path ∈ spellings directory) : isRooted path = true := by
  rcases List.mem_cons.mp h with rfl | h
  · exact hr
  · split at h
    · simp at h
    · rw [List.mem_singleton.mp h]
      exact Path.isRooted_append hr ".json"

theorem straight_of_mem_spellings (hd : Straight directory) (h : path ∈ spellings directory) :
    Straight path := by
  rcases List.mem_cons.mp h with rfl | h
  · exact hd
  · split at h
    · simp at h
    · rw [List.mem_singleton.mp h]
      exact hd.append (by decide) (by decide)

theorem isRooted_of_mem_packageCandidates (hr : isRooted directory = true)
    (h : path ∈ packageCandidates specifier directory) : isRooted path = true := by
  have hp := Path.isRooted_child (Path.isRooted_child hr "node_modules") specifier
  rcases List.mem_append.mp h with h | h
  · exact isRooted_of_mem_spellings hp h
  · rw [List.mem_singleton.mp h]
    exact Path.isRooted_child hp fileName

theorem straight_of_mem_packageCandidates (hd : Straight directory)
    (hn : ".." ∉ names specifier) (hs : isRooted specifier = false)
    (h : path ∈ packageCandidates specifier directory) : Straight path := by
  have hm : Straight (Path.child directory "node_modules") :=
    hd.child (by decide +kernel) (by decide +kernel)
  have hp := hm.child hn hs
  rcases List.mem_append.mp h with h | h
  · exact straight_of_mem_spellings hp h
  · rw [List.mem_singleton.mp h]
    exact hp.child (by decide +kernel) (by decide +kernel)

theorem isRooted_of_findBase? (hr : isRooted directory = true)
    (h : findBase? tree specifier directory = some path) : isRooted path = true := by
  rw [findBase?_eq] at h
  have hm := List.mem_of_find?_eq_some h
  unfold baseCandidates at hm
  split at hm
  · exact isRooted_of_mem_spellings (Path.straight_toAbsolute hr).rooted hm
  · obtain ⟨d, hd, hm⟩ := List.mem_flatMap.mp hm
    exact isRooted_of_mem_packageCandidates (Path.names_of_mem_ancestors hr hd).1 hm

theorem straight_of_findBase? (hd : Straight directory) (hu : ¬ Upward specifier)
    (h : findBase? tree specifier directory = some path) : Straight path := by
  rw [findBase?_eq] at h
  have hm := List.mem_of_find?_eq_some h
  unfold baseCandidates at hm
  split at hm
  · exact straight_of_mem_spellings (Path.straight_toAbsolute hd.rooted) hm
  · next hs =>
    have hn : ".." ∉ names specifier := fun hm => hu ⟨by simpa using hs, hm⟩
    have hr : isRooted specifier = false := by
      simp only [isFileSpecifier, Bool.or_eq_true, not_or, Bool.not_eq_true] at hs
      exact hs.2
    obtain ⟨d, hd', hm⟩ := List.mem_flatMap.mp hm
    exact straight_of_mem_packageCandidates (hd.of_mem_ancestors hd') hn hr hm

theorem straight_of_find? (hb : isRooted base = true)
    (h : find? tree (searchDirectory base target) = some path) :
    tree.isFile path = true ∧ Straight path := by
  rw [find?_eq] at h
  refine ⟨List.find?_some h, ?_⟩
  obtain ⟨d, hd, rfl⟩ := List.mem_map.mp (List.mem_of_find?_eq_some h)
  have hs : Straight d := (Path.straight_toAbsolute hb).of_mem_ancestors hd
  exact hs.child (by decide +kernel) (by decide +kernel)

end Candidates

end BufferCheck.Config
