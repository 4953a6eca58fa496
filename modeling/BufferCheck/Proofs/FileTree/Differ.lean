import BufferCheck.Proofs.FileTree.Place

/-! Trees that differ in the bytes of one file. Paths are walked alike in them, and only a path that
leads to that file tells them apart. -/
namespace BufferCheck

/-- An entry but for what is inside a directory. -/
def Entry.surface : Entry → Entry
  | .directory _ => .directory []
  | .file bytes => .file bytes
  | .link target => .link target

/-- An entry but for what is inside a directory or a file. -/
def Entry.outline : Entry → Entry
  | .directory _ => .directory []
  | .file _ => .file []
  | .link target => .link target

theorem Entry.cases_of_outline {a b : Entry} (h : a.outline = b.outline) :
    (∃ inside inside', a = .directory inside ∧ b = .directory inside') ∨
      (∃ bytes bytes', a = .file bytes ∧ b = .file bytes') ∨
        ∃ target, a = .link target ∧ b = .link target := by
  cases a <;> cases b <;> simp_all [Entry.outline]

namespace FileTree
open BufferCheck.Path (isRooted ofNames)

variable {t u : FileTree} {trail trail' : Trail} {path : String} {place : List String}

/-- Trees that hold the same but for the bytes of the files. -/
structure SameShape (t u : FileTree) : Prop where
  start : t.start = u.start
  outline : ∀ names, (t.entry? names).map Entry.outline = (u.entry? names).map Entry.outline

/-- Trees that hold the same but for the bytes of the file at a place. -/
structure DifferAt (place : List String) (t u : FileTree) : Prop where
  start : t.start = u.start
  file : (∃ bytes, t.entry? place = some (.file bytes)) ∧
    ∃ bytes, u.entry? place = some (.file bytes)
  elsewhere : ∀ names, names ≠ place →
    (t.entry? names).map Entry.surface = (u.entry? names).map Entry.surface

theorem outline_surface (e : Entry) : e.surface.outline = e.outline := by
  cases e <;> rfl

theorem DifferAt.sameShape (h : DifferAt place t u) : SameShape t u := by
  refine ⟨h.start, fun names => ?_⟩
  by_cases hn : names = place
  · subst hn
    obtain ⟨⟨a, ha⟩, b, hb⟩ := h.file
    rw [ha, hb]
    rfl
  · have hmap := congrArg (Option.map Entry.outline) (h.elsewhere names hn)
    simpa [Option.map_map, Function.comp_def, outline_surface] using hmap

/-- Two ways pass the same names, each in its tree. -/
structure Alike (t u : FileTree) (trail trail' : Trail) : Prop where
  names : trail.map (·.1) = trail'.map (·.1)
  left : OnTree t trail
  right : OnTree u trail'

/-- Two walks end alike: with the same error, or where the same names lead. -/
def EndAlike (t u : FileTree) : Except FileError Trail → Except FileError Trail → Prop
  | .ok trail, .ok trail' => Alike t u trail trail'
  | .error e, .error e' => e = e'
  | _, _ => False

theorem alike_nil : Alike t u [] [] := ⟨rfl, trivial, trivial⟩

section Walk

theorem Alike.tail (h : Alike t u trail trail') : Alike t u trail.tail trail'.tail := by
  refine ⟨?_, h.left.tail, h.right.tail⟩
  rw [List.map_tail, List.map_tail, h.names]

theorem Alike.placeOf_eq (h : Alike t u trail trail') : placeOf trail = placeOf trail' := by
  rw [placeOf, h.names, placeOf]

/-- What two ways that pass the same names lead to is alike. -/
theorem Alike.outline_reached (hs : SameShape t u) (h : Alike t u trail trail') :
    (t.reached trail).outline = (u.reached trail').outline := by
  have hout := hs.outline (placeOf trail)
  rw [h.left.entry?_placeOf, h.placeOf_eq, h.right.entry?_placeOf] at hout
  exact Option.some.inj hout

theorem entry?_concat {inside : List (String × Entry)} (h : OnTree t trail)
    (hr : t.reached trail = .directory inside) (name : String) :
    t.entry? (placeOf trail ++ [name]) = inside.lookup name := by
  have hp := h.entry?_placeOf
  unfold entry? at hp ⊢
  rw [entryFrom?_append, hp, hr, Option.bind_some, entryFrom?]
  cases inside.lookup name <;> rfl

theorem Alike.outline_lookup {inside inside' : List (String × Entry)} (hs : SameShape t u)
    (h : Alike t u trail trail') (hr : t.reached trail = .directory inside)
    (hr' : u.reached trail' = .directory inside') (name : String) :
    (inside.lookup name).map Entry.outline = (inside'.lookup name).map Entry.outline := by
  rw [← entry?_concat h.left hr, ← entry?_concat h.right hr', h.placeOf_eq]
  exact hs.outline _

/-- Walks of the same pieces end alike, if those that go on where a link has been replaced do. -/
theorem walkWith_alike (hs : SameShape t u)
    {follow follow' : Trail → List String → Except FileError Trail}
    (hf : ∀ {trail trail'} ps, Alike t u trail trail' →
      EndAlike t u (follow trail ps) (follow' trail' ps))
    (h : Alike t u trail trail') (ps : List String) :
    EndAlike t u (t.walkWith follow trail ps) (u.walkWith follow' trail' ps) := by
  induction ps generalizing trail trail' with
  | nil => exact h
  | cons name rest ih =>
    rw [walkWith, walkWith]
    rcases Entry.cases_of_outline (h.outline_reached hs) with
      ⟨inside, inside', hr, hr'⟩ | ⟨bytes, bytes', hr, hr'⟩ | ⟨target, hr, hr'⟩
    · simp only [hr, hr']
      split
      · exact ih h
      split
      · exact ih h.tail
      split
      · rfl
      have hlookup := h.outline_lookup hs hr hr' name
      cases he : inside.lookup name with
      | none =>
        rw [he, Option.map_none, eq_comm, Option.map_eq_none_iff] at hlookup
        rw [hlookup]
        rfl
      | some entry =>
        rw [he, Option.map_some, eq_comm, Option.map_eq_some_iff] at hlookup
        obtain ⟨entry', he', halike⟩ := hlookup
        have hpush : Alike t u ((name, entry) :: trail) ((name, entry') :: trail') :=
          ⟨by rw [List.map_cons, List.map_cons, h.names], h.left.push hr he, h.right.push hr' he'⟩
        rw [he']
        rcases Entry.cases_of_outline halike with
          ⟨more, more', rfl, rfl⟩ | ⟨bytes, bytes', rfl, rfl⟩ | ⟨target, rfl, rfl⟩
        · exact ih hpush
        · exact ih hpush
        · simp only
          split
          · exact hf _ alike_nil
          · exact hf _ h
    · simp only [hr, hr']
      rfl
    · simp only [hr, hr']
      rfl

theorem walk_alike (hs : SameShape t u) (links : Nat) (h : Alike t u trail trail')
    (ps : List String) : EndAlike t u (t.walk links trail ps) (u.walk links trail' ps) := by
  induction links generalizing trail trail' ps with
  | zero =>
    rw [walk, walk]
    refine walkWith_alike hs ?_ h ps
    exact fun _ _ => rfl
  | succ links ih => exact walkWith_alike hs (fun ps h => ih h ps) h ps

/-- A path takes ways that end alike. -/
theorem locate_alike (hs : SameShape t u) (path : String) :
    EndAlike t u (t.locate path) (u.locate path) := by
  rw [locate, locate, hs.start]
  split
  · rfl
  split
  · rfl
  split
  · rfl
  split
  · exact walk_alike hs _ alike_nil _
  · exact walk_alike hs _ alike_nil _

end Walk

section Reading

/-- Where a path leads in both trees, or how it fails in both. -/
theorem locate_cases (hs : SameShape t u) (path : String) :
    (∃ e, t.locate path = .error e ∧ u.locate path = .error e) ∨
      ∃ trail trail', t.locate path = .ok trail ∧ u.locate path = .ok trail' ∧
        Alike t u trail trail' := by
  have h := locate_alike hs path
  cases ht : t.locate path with
  | error e =>
    cases hu : u.locate path with
    | error e' =>
      rw [ht, hu] at h
      exact Or.inl ⟨e, rfl, congrArg Except.error h.symm⟩
    | ok => simp [ht, hu, EndAlike] at h
  | ok trail =>
    cases hu : u.locate path with
    | error => simp [ht, hu, EndAlike] at h
    | ok trail' =>
      rw [ht, hu] at h
      exact Or.inr ⟨trail, trail', rfl, rfl, h⟩

theorem readBytes_of_error {e : FileError} (h : t.locate path = .error e) :
    t.readBytes path = .error e := by
  rw [readBytes, h]
  rfl

theorem readBytes_of_ok (h : t.locate path = .ok trail) :
    t.readBytes path = match t.reached trail with
      | .file bytes => .ok bytes
      | .directory _ => .error .isDirectory
      | .link _ => .error .notFound := by
  rw [readBytes, h]
  cases hr : t.reached trail <;> simp [hr, bind, Except.bind, pure, Except.pure, throw, throwThe,
    MonadExceptOf.throw]

/-- The same paths lead to files. -/
theorem SameShape.isFile_eq (hs : SameShape t u) (path : String) :
    t.isFile path = u.isFile path := by
  rcases locate_cases hs path with ⟨e, ht, hu⟩ | ⟨trail, trail', ht, hu, h⟩
  · rw [isFile, isFile, readBytes_of_error ht, readBytes_of_error hu]
  · rw [isFile, isFile, readBytes_of_ok ht, readBytes_of_ok hu]
    rcases Entry.cases_of_outline (h.outline_reached hs) with
      ⟨inside, inside', hr, hr'⟩ | ⟨bytes, bytes', hr, hr'⟩ | ⟨target, hr, hr'⟩ <;>
      simp only [hr, hr']

theorem realPath_of_ok (h : t.locate path = .ok trail) :
    t.realPath path = .ok (ofNames (placeOf trail)) := by
  rw [realPath, h]
  cases trail with
  | nil => rfl
  | cons step rest =>
    have hne : placeOf (step :: rest) ≠ [] := by simp [placeOf]
    rw [ofNames, if_neg hne]
    rfl

/-- A path that does not lead to the place gives the same text. -/
theorem DifferAt.readText_eq (hd : DifferAt place t u)
    (hp : t.realPath path ≠ .ok (ofNames place)) : t.readText path = u.readText path := by
  suffices h : t.readBytes path = u.readBytes path by rw [readText, readText, h]
  rcases locate_cases hd.sameShape path with ⟨e, ht, hu⟩ | ⟨trail, trail', ht, hu, h⟩
  · rw [readBytes_of_error ht, readBytes_of_error hu]
  · have hplace : placeOf trail ≠ place := fun heq => hp (heq ▸ realPath_of_ok ht)
    have hsurface := hd.elsewhere _ hplace
    rw [h.left.entry?_placeOf, h.placeOf_eq, h.right.entry?_placeOf] at hsurface
    rw [readBytes_of_ok ht, readBytes_of_ok hu]
    rcases Entry.cases_of_outline (h.outline_reached hd.sameShape) with
      ⟨inside, inside', hr, hr'⟩ | ⟨bytes, bytes', hr, hr'⟩ | ⟨target, hr, hr'⟩
    · rw [hr, hr']
    · simp only [hr, hr', Entry.surface, Option.map_some, Option.some.injEq, Entry.file.injEq]
        at hsurface
      rw [hr, hr', hsurface]
    · rw [hr, hr']

end Reading

end FileTree
end BufferCheck
