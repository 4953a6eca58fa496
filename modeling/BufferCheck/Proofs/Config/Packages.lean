import BufferCheck.Proofs.Config.Candidates
import BufferCheck.Proofs.Path.Climb

/-! Where packages are found. The specifier of a package is followed from the packages of the nearest
directory that has a file for it; what it names is among these packages unless it climbs out. -/
namespace BufferCheck.Config
open BufferCheck.Path (Inside Returns Straight ancestors child climb descent endsInSeparator isRooted
  names normalize)

variable {tree : FileTree} {directory specifier path rel : String}

/-- The directory that holds the packages of a directory. -/
def packages (directory : String) : String := child directory "node_modules"

/-- What the specifier of a package may name among packages: a file as given, one with an extension,
and the configuration of a directory. -/
def packageForms (specifier : String) : List String :=
  [specifier, specifier ++ ".json", child specifier fileName]

section Forms

theorem isRooted_of_not_isFileSpecifier (h : isFileSpecifier specifier = false) :
    isRooted specifier = false := by
  rw [isFileSpecifier, Bool.or_eq_false_iff] at h
  exact h.2

theorem isRooted_append_eq_false {a b : String} (ha : isRooted a = false)
    (hb : a = "" → isRooted b = false) : isRooted (a ++ b) = false := by
  by_cases hne : a = ""
  · rw [hne, String.empty_append]
    exact hb hne
  · rw [Path.isRooted_append_of_ne_empty hne, ha]

theorem isRooted_of_mem_packageForms (hs : isRooted specifier = false)
    (h : rel ∈ packageForms specifier) : isRooted rel = false := by
  have hplain : isRooted ".json" = false ∧ isRooted fileName = false := by decide +kernel
  simp only [packageForms, List.mem_cons, List.not_mem_nil, or_false] at h
  rcases h with rfl | rfl | rfl
  · exact hs
  · exact isRooted_append_eq_false hs fun _ => hplain.1
  · rw [child, if_neg (by simp [hplain.2])]
    split
    · exact isRooted_append_eq_false hs fun _ => hplain.2
    · next hne =>
      rw [String.append_assoc]
      exact isRooted_append_eq_false hs fun he => (hne (by simp [he])).elim

theorem names_packages (directory : String) :
    names (packages directory) = names directory ++ ["node_modules"] := by
  have hname : isRooted "node_modules" = false ∧ names "node_modules" = ["node_modules"] := by
    decide +kernel
  rw [packages, Path.names_child directory hname.1, hname.2]

theorem mem_names_of_inside_packages (h : Inside (packages directory) path) :
    "node_modules" ∈ names path := by
  obtain ⟨more, -, hmore⟩ := h
  simp [hmore, names_packages]

/-- What is among packages is spelled below their directory. -/
theorem child_packages (hr : isRooted path = false) :
    child (packages directory) path = packages directory ++ "/" ++ path := by
  have hname : isRooted "node_modules" = false ∧ endsInSeparator "node_modules" = false := by
    decide +kernel
  obtain ⟨front, hfront⟩ : ∃ front, packages directory = front ++ "node_modules" := by
    rw [packages, child, if_neg (by simp [hname.1])]
    split <;> exact ⟨_, rfl⟩
  have hopen : endsInSeparator (packages directory) = false := by
    rw [hfront, Path.endsInSeparator_append (by decide), hname.2]
  have hempty : packages directory ≠ "" := by simp [hfront]
  rw [child, if_neg (by simp [hr]), if_neg (by simp [hopen, hempty])]

/-- The configuration of a directory has the spelling that the directory has left open or closed. -/
theorem child_fileName_append (front specifier : String) :
    child (front ++ "/" ++ specifier) fileName = front ++ "/" ++ child specifier fileName := by
  have hname : isRooted fileName = false := by decide +kernel
  have hclosed : endsInSeparator (front ++ "/") = true := by
    rw [Path.endsInSeparator_append (by decide)]
    decide +kernel
  simp only [child, hname, Bool.false_eq_true, if_false]
  by_cases he : specifier = ""
  · simp [he, hclosed]
  · rw [Path.endsInSeparator_append he]
    by_cases hs : endsInSeparator specifier = true
    · simp [hs, String.append_assoc]
    · simp [hs, he, String.append_assoc]

theorem exists_form_of_mem_packageCandidates (hs : isRooted specifier = false)
    (h : path ∈ packageCandidates specifier directory) :
    ∃ rel ∈ packageForms specifier, path = packages directory ++ "/" ++ rel := by
  have hpackage : child (child directory "node_modules") specifier
      = packages directory ++ "/" ++ specifier := child_packages hs
  rw [packageCandidates, hpackage, List.mem_append, List.mem_singleton] at h
  rcases h with h | rfl
  · rcases List.mem_cons.mp h with rfl | h
    · exact ⟨specifier, by simp [packageForms], rfl⟩
    · split at h
      · cases h
      · exact ⟨specifier ++ ".json", by simp [packageForms],
          by rw [List.mem_singleton.mp h, String.append_assoc]⟩
  · exact ⟨child specifier fileName, by simp [packageForms], child_fileName_append _ specifier⟩

end Forms

/-- The first directory upwards that has a file for the specifier of a package decides. -/
theorem exists_owner (hs : isFileSpecifier specifier = false)
    (hf : findBase? tree specifier directory = some path) :
    ∃ nearer owner farther, ancestors directory = nearer ++ owner :: farther ∧
      (∀ d ∈ nearer, ∀ c ∈ packageCandidates specifier d, tree.isFile c = false) ∧
      path ∈ packageCandidates specifier owner ∧ tree.isFile path = true := by
  rw [findBase?, if_neg (by simp [hs]), Path.searchUp_eq, List.findSome?_eq_some_iff] at hf
  obtain ⟨nearer, owner, farther, hd, hfirst, hnone⟩ := hf
  refine ⟨nearer, owner, farther, hd, fun d hd c hc => ?_, List.mem_of_find?_eq_some hfirst,
    List.find?_some hfirst⟩
  simpa using List.find?_eq_none.mp (hnone d hd) c hc

/-- A file that a path leads to among packages is not the directory of the packages. -/
theorem inside_of_climb_eq_zero (hl : tree.LinkFree) (hd : Straight directory)
    (hr : isRooted rel = false) (hf : tree.isFile (directory ++ "/" ++ rel) = true)
    (hc : climb rel = 0) : Inside directory (normalize (directory ++ "/" ++ rel)) := by
  have hrooted := Path.isRooted_append (Path.isRooted_append hd.rooted "/") rel
  have hnames := Path.names_normalize_append hd hr
  rw [hc, Nat.sub_zero, List.take_length] at hnames
  refine ⟨descent rel, fun hnil => ?_, hnames⟩
  obtain ⟨bytes, hb⟩ := FileTree.exists_of_isFile hf
  obtain ⟨inside, hinside⟩ := FileTree.directory_of_readBytes hl hrooted hb
  have hfile := (FileTree.place_of_readBytes hl hrooted hb).1
  rw [hnil, List.append_nil, Path.names_normalize, hrooted] at hnames
  rw [hnames] at hfile
  rw [Path.reduce_of_notMem hd.notMem, hfile] at hinside
  cases hinside

/-- What the specifier of a package names, if it names a file, is in the nearest packages upwards that
have a file for it, unless its path among them climbs and does not come back. -/
theorem package_inside_iff (hl : tree.LinkFree) (hr : isRooted directory = true)
    (hn : normalize directory = directory) (hs : isFileSpecifier specifier = false)
    (hf : findBase? tree specifier directory = some path) :
    ∃ nearer owner farther rel,
      ancestors directory = nearer ++ owner :: farther ∧
      (∀ d ∈ nearer, ∀ c ∈ packageCandidates specifier d, tree.isFile c = false) ∧
      rel ∈ packageForms specifier ∧ path = packages owner ++ "/" ++ rel ∧
      (Inside (packages owner) (normalize path) ↔
        climb rel = 0 ∨ Returns (packages owner) rel) ∧
      (".." ∉ names specifier → climb rel = 0) ∧
      (climb rel ≠ 0 → "node_modules" ∉ names directory → "node_modules" ∉ descent rel →
        ∀ d ∈ ancestors directory, ¬ Inside (packages d) (normalize path)) := by
  obtain ⟨nearer, owner, farther, hd, hnearer, hmem, hfile⟩ := exists_owner hs hf
  have hbare := isRooted_of_not_isFileSpecifier hs
  have howner : owner ∈ ancestors directory := by simp [hd]
  have hstraight : Straight owner := (Path.straight_of_normalize_eq hr hn).of_mem_ancestors howner
  have hpackages : Straight (packages owner) :=
    hstraight.child (by decide +kernel) (by decide +kernel)
  obtain ⟨rel, hrel, rfl⟩ := exists_form_of_mem_packageCandidates hbare hmem
  have hrelative := isRooted_of_mem_packageForms hbare hrel
  refine ⟨nearer, owner, farther, rel, hd, hnearer, hrel, rfl, ⟨fun h => ?_, ?_⟩, fun hup => ?_,
    fun hclimb hdirectory hdescent d hd' => ?_⟩
  · exact .inr ((Path.inside_iff_returns hpackages hrelative).mp h)
  · rintro (hclimb | hreturns)
    · exact inside_of_climb_eq_zero hl hpackages hrelative hfile hclimb
    · exact (Path.inside_iff_returns hpackages hrelative).mpr hreturns
  · have hpath := straight_of_mem_packageCandidates hstraight hup hbare hmem
    refine Path.climb_of_notMem fun hm => hpath.notMem ?_
    rw [Path.names_normalize] at hm
    rw [Path.names_append_separator]
    exact List.mem_append_right _ (Path.mem_of_mem_reduce hm)
  · intro hinside
    have hm := mem_names_of_inside_packages hinside
    -- Above the packages of the owner only the names of the owner are left of the way there.
    rw [Path.names_normalize_append hpackages hrelative, names_packages, List.length_append,
      List.length_singleton, List.take_append_of_le_length (by omega), List.mem_append] at hm
    rcases hm with hm | hm
    · have hsub := (Path.names_of_mem_ancestors hr howner).2
      exact hdirectory (hsub.subset (List.mem_of_mem_take hm))
    · exact hdescent hm

section Trees

/-- A project with a package beside it, and a part of the project without a configuration. -/
def packagesTree : FileTree :=
  { inside := [("p", .directory
      [("tsconfig.json", .file []),
        ("node_modules", .directory [("kit", .directory [("strict.json", .file [])])]),
        ("part", .directory [("node_modules", .directory [])])])] }

theorem linkFree_packagesTree : packagesTree.LinkFree := FileTree.linkFree_of_every (by decide)

theorem findBase?_packagesTree :
    findBase? packagesTree "kit/./strict" "/p/part" = some "/p/node_modules/kit/./strict.json" ∧
      findBase? packagesTree ".." "/p/part" = some "/p/node_modules/../tsconfig.json" := by
  simp only [findBase?_eq]
  unfold FileTree.isFile FileTree.readBytes
  simp only [FileTree.locate_eq]
  decide +kernel

/-- A package that the part does not have is the one of the project. -/
theorem package_inside_packagesTree : packagesTree.LinkFree ∧ isRooted "/p/part" = true ∧
    normalize "/p/part" = "/p/part" ∧ isFileSpecifier "kit/./strict" = false ∧
    findBase? packagesTree "kit/./strict" "/p/part" = some "/p/node_modules/kit/./strict.json" ∧
    ".." ∉ names "kit/./strict" ∧
    ∃ owner ∈ ancestors "/p/part",
      Inside (packages owner) (normalize "/p/node_modules/kit/./strict.json") := by
  have hr : isRooted "/p/part" = true := by decide +kernel
  have hn : normalize "/p/part" = "/p/part" := by decide +kernel
  have hs : isFileSpecifier "kit/./strict" = false := by decide +kernel
  have hup : ".." ∉ names "kit/./strict" := by decide +kernel
  obtain ⟨nearer, owner, farther, rel, hd, -, -, -, hinside, hclimb, -⟩ :=
    package_inside_iff linkFree_packagesTree hr hn hs findBase?_packagesTree.1
  refine ⟨linkFree_packagesTree, hr, hn, hs, findBase?_packagesTree.1, hup, owner, by simp [hd], ?_⟩
  exact hinside.mpr (.inl (hclimb hup))

/-- A package by the name `..` is the configuration above the packages, which is no package. -/
theorem package_outside_packagesTree : packagesTree.LinkFree ∧ isRooted "/p/part" = true ∧
    normalize "/p/part" = "/p/part" ∧ isFileSpecifier ".." = false ∧
    findBase? packagesTree ".." "/p/part" = some "/p/node_modules/../tsconfig.json" ∧
    normalize "/p/node_modules/../tsconfig.json" = "/p/tsconfig.json" ∧
    ∀ owner ∈ ancestors "/p/part",
      ¬ Inside (packages owner) (normalize "/p/node_modules/../tsconfig.json") := by
  have hp : normalize "/p/node_modules/../tsconfig.json" = "/p/tsconfig.json" := by decide +kernel
  have hnames : "node_modules" ∉ names "/p/tsconfig.json" := by decide +kernel
  refine ⟨linkFree_packagesTree, by decide +kernel, by decide +kernel, by decide +kernel,
    findBase?_packagesTree.2, hp, fun owner _ hinside => ?_⟩
  rw [hp] at hinside
  exact hnames (mem_names_of_inside_packages hinside)

end Trees

end BufferCheck.Config
