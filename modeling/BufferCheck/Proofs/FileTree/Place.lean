import BufferCheck.FileTree
import BufferCheck.Proofs.Path.Straight
import Mathlib.Data.Set.Card
import Mathlib.Data.Set.Finite.Lattice

/-! Places of files. Where no entry is a link, a rooted path leads to the file at the names of its
normal form or to no file at all, so files can be told apart by their normal paths. -/
namespace BufferCheck.FileTree
open BufferCheck.Path (endsInSeparator isRooted names ofNames reduce)

variable {tree : FileTree} {path : String} {bytes : List UInt8} {trail last : Trail}

/-- The names from the root to what a way leads to. -/
def placeOf (trail : Trail) : List String := (trail.map (·.1)).reverse

/-- Each step of a way holds what is in the tree under its names. -/
def OnTree (tree : FileTree) : Trail → Prop
  | [] => True
  | step :: rest => tree.entry? (placeOf (step :: rest)) = some step.2 ∧ OnTree tree rest

/-- Two paths lead to one file. -/
def SameFile (tree : FileTree) (a b : String) : Prop := tree.realPath a = tree.realPath b

theorem SameFile.refl (tree : FileTree) (a : String) : tree.SameFile a a := rfl

/-- The places that hold a file. -/
def filePlaces (tree : FileTree) : Set (List String) :=
  {place | ∃ bytes, tree.entry? place = some (.file bytes)}

/-- How many files there are. -/
noncomputable def fileCount (tree : FileTree) : Nat := tree.filePlaces.ncard

theorem entryFrom?_append (entry : Entry) (xs ys : List String) :
    entryFrom? entry (xs ++ ys) = (entryFrom? entry xs).bind (entryFrom? · ys) := by
  induction xs generalizing entry with
  | nil => rfl
  | cons x xs ih =>
    cases entry with
    | directory inside =>
      simp only [List.cons_append, entryFrom?]
      cases inside.lookup x with
      | none => rfl
      | some e => exact ih e
    | file => rfl
    | link => rfl

/-- Whatever a way from an entry leads to has a property. -/
def EveryFrom (p : Entry → Prop) (entry : Entry) : Prop :=
  ∀ place found, entryFrom? entry place = some found → p found

mutual

/-- An entry and whatever is under it pass a check. -/
def every (check : Entry → Bool) : Entry → Bool
  | .directory inside => check (.directory inside) && everyInside check inside
  | .file bytes => check (.file bytes)
  | .link target => check (.link target)

def everyInside (check : Entry → Bool) : List (String × Entry) → Bool
  | [] => true
  | named :: rest => everyNamed check named && everyInside check rest

def everyNamed (check : Entry → Bool) : String × Entry → Bool
  | (_, entry) => every check entry

end

theorem everyInside_iff {check : Entry → Bool} {inside : List (String × Entry)} :
    everyInside check inside = true ↔ ∀ named ∈ inside, every check named.2 = true := by
  induction inside with
  | nil => simp [everyInside]
  | cons named rest ih => rw [everyInside, Bool.and_eq_true, ih, List.forall_mem_cons, everyNamed]

theorem everyFrom_of_every {check : Entry → Bool} {entry : Entry} (h : every check entry = true) :
    EveryFrom (fun e => check e = true) entry := by
  intro place
  induction place generalizing entry with
  | nil =>
    rintro found ⟨⟩
    cases entry with
    | directory inside =>
      rw [every, Bool.and_eq_true] at h
      exact h.1
    | file | link => exact h
  | cons name rest ih =>
    intro found hf
    cases entry with
    | file | link => cases hf
    | directory inside =>
      rw [entryFrom?, Option.bind_eq_some_iff] at hf
      obtain ⟨entry, he, hf⟩ := hf
      obtain ⟨l, r, hlr, -⟩ := List.lookup_eq_some_iff.mp he
      rw [every, Bool.and_eq_true, everyInside_iff] at h
      exact ih (h.2 (name, entry) (by simp [hlr])) found hf

/-- The entry is no link. -/
def notLink : Entry → Bool
  | .link _ => false
  | _ => true

theorem linkFree_of_every (h : every notLink (.directory tree.inside) = true) : tree.LinkFree :=
  fun place _ ht => Bool.noConfusion (everyFrom_of_every h place _ ht)

/-- A path is walked through the pieces of it, as long as it can be the path of a file. -/
theorem locate_eq : tree.locate path =
    if '\x00' ∈ path.toList then .error .nulByte
    else if pathLimit ≤ path.utf8ByteSize then .error .nameTooLong
    else if path = "" then .error .notFound
    else if isRooted path then tree.walk linkLimit [] (Path.pieces path)
    else tree.walk linkLimit [] (Path.pieces tree.start ++ Path.pieces path) := by
  simp [locate, String.contains_char_eq]

theorem OnTree.entry?_placeOf (h : OnTree tree trail) :
    tree.entry? (placeOf trail) = some (tree.reached trail) := by
  cases trail with
  | nil => rfl
  | cons step rest => exact h.1

theorem OnTree.tail (h : OnTree tree trail) : OnTree tree trail.tail := by
  cases trail with
  | nil => exact h
  | cons step rest => exact h.2

theorem OnTree.push {inside : List (String × Entry)} {name : String} {entry : Entry}
    (h : OnTree tree trail) (hr : tree.reached trail = .directory inside)
    (he : inside.lookup name = some entry) : OnTree tree ((name, entry) :: trail) := by
  refine ⟨?_, h⟩
  have hp := h.entry?_placeOf
  unfold entry? at hp ⊢
  rw [hr] at hp
  rw [show placeOf ((name, entry) :: trail) = placeOf trail ++ [name] by simp [placeOf],
    entryFrom?_append, hp, Option.bind_some, entryFrom?, he]
  rfl

/-- Without links, a walk ends where the names of its pieces lead, and it does not go through a
file. -/
theorem walkWith_eq_ok (hl : tree.LinkFree) {follow : Trail → List String → Except FileError Trail}
    {ps : List String} (ht : OnTree tree trail) (hd : ".." ∉ trail.map (·.1))
    (h : tree.walkWith follow trail ps = .ok last) :
    OnTree tree last ∧
      last.map (·.1) = (ps.filter (!Path.isIdle ·)).foldl (Path.walk true) (trail.map (·.1)) ∧
      ∀ bytes, tree.reached last = .file bytes → ps.getLast? ≠ some "" := by
  induction ps generalizing trail with
  | nil =>
    obtain rfl : trail = last := by simpa [walkWith] using h
    exact ⟨ht, rfl, by simp⟩
  | cons name rest ih =>
    rw [walkWith] at h
    split at h
    · next inside hr =>
      -- Only a directory is walked through, so an empty last piece cannot have led to a file.
      have hlast : ∀ {t : Trail}, OnTree tree t → ".." ∉ t.map (·.1) →
          tree.walkWith follow t rest = .ok last → (rest = [] → t = trail ∨ name ≠ "") →
          ∀ bytes, tree.reached last = .file bytes → (name :: rest).getLast? ≠ some "" := by
        intro t h1 h2 h3 h4 bytes hf
        cases rest with
        | nil =>
          obtain rfl : t = last := by simpa [walkWith] using h3
          rcases h4 rfl with rfl | hne
          · simp [hr] at hf
          · simpa using hne
        | cons q qs => simpa using (ih h1 h2 h3).2.2 bytes hf
      split at h
      · next hi =>
        obtain ⟨h1, h2, h3⟩ := ih ht hd h
        refine ⟨h1, by simpa [hi] using h2, hlast ht hd h fun _ => Or.inl rfl⟩
      · next hi =>
        have hne : name ≠ "" := by rintro rfl; exact hi Path.isIdle_empty
        split at h
        · next hn =>
          subst hn
          have hd' : ".." ∉ trail.tail.map (·.1) := by
            rw [List.map_tail]
            exact fun hm => hd (List.mem_of_mem_tail hm)
          obtain ⟨h1, h2, h3⟩ := ih ht.tail hd' h
          refine ⟨h1, ?_, hlast ht.tail hd' h fun _ => Or.inr hne⟩
          simpa [hi, Path.walk_rooted_dots hd] using h2
        · next hn =>
          split at h
          · simp at h
          · split at h
            · simp at h
            · next target he => exact (hl _ _ (ht.push hr he).1).elim
            · next entry _ he =>
              have ht' := ht.push hr he
              have hd' : ".." ∉ ((name, entry) :: trail).map (·.1) := by simp_all [Ne.symm hn]
              obtain ⟨h1, h2, h3⟩ := ih ht' hd' h
              refine ⟨h1, ?_, hlast ht' hd' h fun _ => Or.inr hne⟩
              simpa [hi, Path.walk_of_ne hn] using h2
    · simp at h

/-- Without links, a walk of some pieces and more goes on from where the first ones lead. -/
theorem walkWith_append (hl : tree.LinkFree)
    {follow : Trail → List String → Except FileError Trail} {ps qs : List String}
    (ht : OnTree tree trail) (h : tree.walkWith follow trail (ps ++ qs) = .ok last) :
    ∃ mid, tree.walkWith follow trail ps = .ok mid ∧ tree.walkWith follow mid qs = .ok last := by
  induction ps generalizing trail with
  | nil => exact ⟨trail, rfl, h⟩
  | cons name rest ih =>
    rw [List.cons_append, walkWith] at h
    rw [walkWith]
    split at h
    · next inside hr =>
      split at h
      · next hi =>
        rw [if_pos hi]
        exact ih ht h
      · next hi =>
        rw [if_neg hi]
        split at h
        · next hn =>
          rw [if_pos hn]
          exact ih ht.tail h
        · next hn =>
          rw [if_neg hn]
          split at h
          · cases h
          · next hlong =>
            rw [if_neg hlong]
            split at h
            · cases h
            · next target he => exact (hl _ _ (ht.push hr he).1).elim
            · next entry hnone he =>
              obtain ⟨mid, hmid, hrest⟩ := ih (ht.push hr he) h
              refine ⟨mid, ?_, hrest⟩
              cases entry with
              | link target => exact (hnone target rfl).elim
              | directory more => exact hmid
              | file bytes => exact hmid
    · cases h

theorem exists_of_isFile (h : tree.isFile path = true) :
    ∃ bytes, tree.readBytes path = .ok bytes := by
  unfold isFile at h
  split at h
  · next bytes hb => exact ⟨bytes, hb⟩
  · simp at h

/-- A path to a file is a walk from the root, and what it leads to is in the tree. -/
theorem trail_of_readBytes (hl : tree.LinkFree) (h : tree.readBytes path = .ok bytes) :
    ∃ trail ps, tree.locate path = .ok trail ∧ tree.reached trail = .file bytes ∧
      tree.OnTree trail ∧ placeOf trail = reduce true (ps.filter (!Path.isIdle ·)) ∧
      ps.getLast? ≠ some "" ∧ (isRooted path = true → ps = Path.pieces path) := by
  obtain ⟨trail, hw, hf⟩ : ∃ trail, tree.locate path = .ok trail ∧
      tree.reached trail = .file bytes := by
    unfold readBytes at h
    cases hw : tree.locate path with
    | error e => simp [hw, bind, Except.bind] at h
    | ok trail =>
      refine ⟨trail, rfl, ?_⟩
      simp only [hw, bind, Except.bind] at h
      split at h <;> simp_all [pure, Except.pure, throw, throwThe, MonadExceptOf.throw]
  obtain ⟨ps, hwalk, hps⟩ : ∃ ps, tree.walk linkLimit [] ps = .ok trail ∧
      (isRooted path = true → ps = Path.pieces path) := by
    have hw := hw
    unfold locate at hw
    split at hw
    · simp at hw
    · split at hw
      · simp at hw
      · split at hw
        · simp at hw
        · split at hw
          · exact ⟨_, hw, fun _ => rfl⟩
          · next hr => exact ⟨_, hw, fun he => (hr he).elim⟩
  obtain ⟨ht, hn, he⟩ := @walkWith_eq_ok tree [] trail hl (tree.walk 39) _ trivial
    List.not_mem_nil hwalk
  exact ⟨trail, ps, hw, hf, ht, by rw [placeOf, hn]; rfl, he bytes hf, hps⟩

/-- What is read is in the tree. -/
theorem exists_place_of_readBytes (hl : tree.LinkFree) (h : tree.readBytes path = .ok bytes) :
    ∃ place, tree.entry? place = some (.file bytes) := by
  obtain ⟨trail, -, -, hf, ht, -⟩ := trail_of_readBytes hl h
  exact ⟨placeOf trail, by rw [ht.entry?_placeOf, hf]⟩

/-- A rooted path to a file leads to the names of its normal form, and it ends in a name. -/
theorem place_of_readBytes (hl : tree.LinkFree) (hr : isRooted path = true)
    (h : tree.readBytes path = .ok bytes) :
    tree.entry? (reduce true (names path)) = some (.file bytes) ∧
      tree.realPath path = .ok (ofNames (reduce true (names path))) ∧
      endsInSeparator path = false ∧ reduce true (names path) ≠ [] := by
  obtain ⟨trail, ps, hw, hf, ht, hplace, hlast, hps⟩ := trail_of_readBytes hl h
  obtain rfl := hps hr
  have hplace : placeOf trail = reduce true (names path) := hplace
  have hne : trail ≠ [] := by rintro rfl; simp [reached] at hf
  have hne' : reduce true (names path) ≠ [] := by
    rw [← hplace, placeOf]
    simpa using hne
  refine ⟨?_, ?_, ?_, hne'⟩
  · rw [← hplace, ht.entry?_placeOf, hf]
  · rw [ofNames, if_neg hne', ← hplace, realPath, hw]
    obtain ⟨step, rest, rfl⟩ := List.exists_cons_of_ne_nil hne
    rfl
  · cases hs : endsInSeparator path with
    | false => rfl
    | true =>
      obtain ⟨front, rfl⟩ := Path.exists_of_endsInSeparator hs
      exact (hlast (by simp [Path.pieces_append_slash])).elim

theorem walk_of_locate (hr : isRooted path = true) (h : tree.locate path = .ok trail) :
    tree.walk linkLimit [] (Path.pieces path) = .ok trail := by
  rw [locate_eq] at h
  split at h
  · cases h
  split at h
  · cases h
  split at h
  · cases h
  exact h

/-- The path of a file goes through directories. -/
theorem directory_of_readBytes {front rest : String} (hl : tree.LinkFree)
    (hr : isRooted (front ++ "/" ++ rest) = true)
    (h : tree.readBytes (front ++ "/" ++ rest) = .ok bytes) :
    ∃ inside, tree.entry? (reduce true (names front)) = some (.directory inside) := by
  obtain ⟨trail, -, hlocate, -⟩ := trail_of_readBytes hl h
  have hwalk := walk_of_locate hr hlocate
  rw [Path.pieces_append_separator] at hwalk
  obtain ⟨mid, hfront, hrest⟩ := @walkWith_append tree [] trail hl (tree.walk 39) (Path.pieces front) _
    trivial hwalk
  obtain ⟨hmid, hplace, -⟩ := @walkWith_eq_ok tree [] mid hl (tree.walk 39) _ trivial
    List.not_mem_nil hfront
  obtain ⟨p, ps, hp⟩ := List.exists_cons_of_ne_nil (l := Path.pieces rest)
    (by simp [Path.pieces, Path.cut_ne_nil])
  rw [hp, walkWith] at hrest
  split at hrest
  · next inside hreached =>
    have hentry := hmid.entry?_placeOf
    rw [hreached, placeOf, hplace] at hentry
    exact ⟨inside, hentry⟩
  · cases hrest

theorem readBytes_of_entry? (hl : tree.LinkFree) (hr : isRooted path = true)
    (hf : tree.isFile path = true)
    (he : tree.entry? (reduce true (names path)) = some (.file bytes)) :
    tree.readBytes path = .ok bytes := by
  obtain ⟨found, hb⟩ := exists_of_isFile hf
  have hp := (place_of_readBytes hl hr hb).1
  rw [he, Option.some.injEq, Entry.file.injEq] at hp
  rw [hb, hp]

theorem walkWith_of_idle {follow : Trail → List String → Except FileError Trail} {ps : List String}
    (h : ∀ p ∈ ps, Path.isIdle p = true) : tree.walkWith follow [] ps = .ok [] := by
  induction ps with
  | nil => rfl
  | cons p ps ih =>
    rw [walkWith]
    simp only [reached, h p List.mem_cons_self, if_true]
    exact ih fun q hq => h q (List.mem_cons_of_mem p hq)

/-- A rooted path without names leads to the root, which is no file. -/
theorem names_ne_nil (hr : isRooted path = true) (h : tree.isFile path = true) :
    names path ≠ [] := by
  intro hn
  have hidle : ∀ p ∈ Path.pieces path, Path.isIdle p = true := by
    intro p hp
    simpa using List.filter_eq_nil_iff.mp hn p hp
  have hwalk : tree.walk linkLimit [] (Path.pieces path) = .ok [] := walkWith_of_idle hidle
  obtain ⟨bytes, hb⟩ := exists_of_isFile h
  unfold readBytes at hb
  rw [locate_eq] at hb
  split at hb
  · cases hb
  · split at hb
    · cases hb
    · split at hb
      · cases hb
      · rw [hwalk] at hb
        cases hb

section Normal

variable {a b : String}

theorem normalize_eq_ofNames (hl : tree.LinkFree) (hr : isRooted path = true)
    (h : tree.isFile path = true) : Path.normalize path = ofNames (reduce true (names path)) := by
  obtain ⟨bytes, hb⟩ := exists_of_isFile h
  obtain ⟨-, -, hs, -⟩ := place_of_readBytes hl hr hb
  rw [Path.normalize_of_isRooted hr, hs, Path.text_open]

/-- A normal path is the real path of its file. -/
theorem realPath_eq_normalize (hl : tree.LinkFree) (hr : isRooted path = true)
    (h : tree.isFile path = true) : tree.realPath path = .ok (Path.normalize path) := by
  obtain ⟨bytes, hb⟩ := exists_of_isFile h
  rw [(place_of_readBytes hl hr hb).2.1, normalize_eq_ofNames hl hr h]

theorem sameFile_iff (hl : tree.LinkFree) (ha : isRooted a = true) (hb : isRooted b = true)
    (hfa : tree.isFile a = true) (hfb : tree.isFile b = true) :
    tree.SameFile a b ↔ Path.normalize a = Path.normalize b := by
  rw [SameFile, realPath_eq_normalize hl ha hfa, realPath_eq_normalize hl hb hfb, Except.ok.injEq]

/-- Straight paths to one file are spelled alike. -/
theorem normalize_eq_iff_plain (ha : Path.Straight a) (hb : Path.Straight b)
    (hl : tree.LinkFree) (hfa : tree.isFile a = true) (hfb : tree.isFile b = true) :
    Path.normalize a = Path.normalize b ↔ Path.plain a = Path.plain b := by
  rw [Path.plain_eq_iff ha.rooted hb.rooted]
  constructor
  · intro h
    have hn := congrArg names h
    rwa [Path.names_normalize, Path.names_normalize, ha.rooted, hb.rooted,
      Path.reduce_of_notMem ha.notMem, Path.reduce_of_notMem hb.notMem] at hn
  · intro h
    rw [normalize_eq_ofNames hl ha.rooted hfa, normalize_eq_ofNames hl hb.rooted hfb, h]

end Normal

section Count

theorem finite_filesFrom (entry : Entry) :
    {place | ∃ bytes, entryFrom? entry place = some (.file bytes)}.Finite := by
  match entry with
  | .file bytes =>
    apply (Set.finite_singleton []).subset
    rintro place ⟨bytes, h⟩
    cases place with
    | nil => rfl
    | cons => simp [entryFrom?] at h
  | .link target =>
    apply (Set.finite_singleton []).subset
    rintro place ⟨bytes, h⟩
    cases place with
    | nil => rfl
    | cons => simp [entryFrom?] at h
  | .directory inside =>
    have hf := (List.finite_toSet inside).biUnion fun p hp =>
      (finite_filesFrom p.2).image (p.1 :: ·)
    apply hf.subset
    rintro place ⟨bytes, h⟩
    cases place with
    | nil => simp [entryFrom?] at h
    | cons name rest =>
      rw [entryFrom?, Option.bind_eq_some_iff] at h
      obtain ⟨e, he, hr⟩ := h
      obtain ⟨l, r, hlr, -⟩ := List.lookup_eq_some_iff.mp he
      have hm : (name, e) ∈ inside := by simp [hlr]
      exact Set.mem_biUnion hm ⟨rest, ⟨bytes, hr⟩, rfl⟩
termination_by sizeOf entry
decreasing_by
  have := List.sizeOf_lt_of_mem hp
  cases p
  simp_all
  omega

theorem finite_filePlaces (tree : FileTree) : tree.filePlaces.Finite :=
  finite_filesFrom _

/-- Paths to different files are no more than the files. -/
theorem length_le_fileCount (hl : tree.LinkFree) {paths : List String}
    (hr : ∀ p ∈ paths, isRooted p = true ∧ tree.isFile p = true)
    (hn : (paths.map Path.normalize).Nodup) : paths.length ≤ tree.fileCount := by
  let places := paths.map fun p => reduce true (names p)
  have hmap : paths.map Path.normalize = places.map ofNames := by
    rw [List.map_map]
    exact List.map_congr_left fun p hp => normalize_eq_ofNames hl (hr p hp).1 (hr p hp).2
  have hnodup : places.Nodup := List.Nodup.of_map ofNames (hmap ▸ hn)
  have hsub : (places.toFinset : Set (List String)) ⊆ tree.filePlaces := by
    intro place hplace
    obtain ⟨p, hp, rfl⟩ := List.mem_map.mp (List.mem_toFinset.mp hplace)
    obtain ⟨bytes, hb⟩ := exists_of_isFile (hr p hp).2
    exact ⟨bytes, (place_of_readBytes hl (hr p hp).1 hb).1⟩
  calc paths.length = places.length := by simp [places]
    _ = places.toFinset.card := (List.toFinset_card_of_nodup hnodup).symm
    _ = (places.toFinset : Set (List String)).ncard := (Set.ncard_coe_finset _).symm
    _ ≤ tree.fileCount := Set.ncard_le_ncard hsub tree.finite_filePlaces

end Count

end BufferCheck.FileTree
