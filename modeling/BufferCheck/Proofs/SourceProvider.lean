import BufferCheck.Proofs.FileTree.Place
import BufferCheck.Proofs.Text.Utf8
import BufferCheck.SourceProvider
import Mathlib.Data.List.Induction

/-! Lookups in a stack of buffers over the disk: a name is served from the outermost buffer that it
is the target of, and from the disk if there is none. No lookup has an effect on a later one. -/
namespace BufferCheck

variable {σ : Type}

section Disk

variable {tree : FileTree} {base name path text : String}

theorem FileTree.readText_eq_ok_iff :
    tree.readText path = .ok text ↔ tree.readBytes path = .ok (Utf8.encode text) := by
  rw [readText]
  cases hb : tree.readBytes path with
  | error e => simp [bind, Except.bind]
  | ok bytes =>
    rw [Except.ok.injEq, ← Utf8.decode?_eq_some_iff]
    cases hd : Utf8.decode? bytes <;>
      simp [bind, Except.bind, pure, Except.pure, throw, throwThe, MonadExceptOf.throw, hd]

/-- A name is that of a file with a text: below the base directory it leads to the bytes of the
text. -/
def HasText (tree : FileTree) (base name text : String) : Prop :=
  tree.readBytes (Path.child base name) = .ok (Utf8.encode text)

theorem not_hasText_of_error {e : FileError}
    (h : tree.readText (Path.child base name) = .error e) (text : String) :
    ¬ HasText tree base name text := by
  intro ht
  rw [HasText, ← FileTree.readText_eq_ok_iff, h] at ht
  cases ht

theorem diskProvider_of_hasText (h : HasText tree base name text) (target : ScriptTarget) :
    diskProvider tree base name target = ⟨some (.ofText name text target), []⟩ := by
  have hread := FileTree.readText_eq_ok_iff.mpr h
  simp only [diskProvider, hread]

/-- Where there is no text, the reason is told once. -/
theorem diskProvider_of_not_hasText (h : ∀ text, ¬ HasText tree base name text) :
    ∃ e, tree.readText (Path.child base name) = .error e ∧
      ∀ target, diskProvider tree base name target
        = ⟨none, ["Cannot read file '" ++ Path.child base name ++ "': " ++ e.message ++ "."]⟩ := by
  cases hread : tree.readText (Path.child base name) with
  | ok text => exact absurd (FileTree.readText_eq_ok_iff.mp hread) (h text)
  | error e => exact ⟨e, rfl, fun target => by simp only [diskProvider, hread]⟩

end Disk

namespace SourceProvider

variable {provider : SourceProvider} {onError : σ → String → σ}

/-- One lookup. Complaints are handed to a callback, which keeps a state. -/
def ask (provider : SourceProvider) (onError : σ → String → σ) (s : σ)
    (wanted : String × ScriptTarget) : Option SourceFile × σ :=
  let found := provider wanted.1 wanted.2
  (found.file, found.complaints.foldl onError s)

/-- Lookups one after the other, with one callback. -/
def askAll (provider : SourceProvider) (onError : σ → String → σ) :
    σ → List (String × ScriptTarget) → List (Option SourceFile) × σ
  | s, [] => ([], s)
  | s, wanted :: rest =>
    let answer := provider.ask onError s wanted
    let more := askAll provider onError answer.2 rest
    (answer.1 :: more.1, more.2)

/-- Each of several lookups gives what it gives alone, and the callback gets the complaints of each
in turn. -/
theorem askAll_eq (provider : SourceProvider) (onError : σ → String → σ) (s : σ)
    (wanted : List (String × ScriptTarget)) :
    provider.askAll onError s wanted
      = (wanted.map fun w => (provider w.1 w.2).file,
        (wanted.flatMap fun w => (provider w.1 w.2).complaints).foldl onError s) := by
  induction wanted generalizing s with
  | nil => rfl
  | cons w rest ih => simp [askAll, ask, ih]

end SourceProvider

namespace BufferOverride

variable {o : BufferOverride} {stack inner outer : List BufferOverride} {provider : SourceProvider}
  {name : String}

/-- The override that serves a name: of those with this target, the one put on last. -/
def Serves (stack : List BufferOverride) (name : String) (o : BufferOverride) : Prop :=
  o.target = name ∧ ∃ inner outer, stack = inner ++ o :: outer ∧ ∀ p ∈ outer, p.target ≠ name

theorem wrap_self (o : BufferOverride) (provider : SourceProvider) (target : ScriptTarget) :
    o.wrap provider o.target target = ⟨some (.ofText o.target o.buffer target), []⟩ := if_pos rfl

theorem wrap_of_ne (h : o.target ≠ name) (provider : SourceProvider) (target : ScriptTarget) :
    o.wrap provider name target = provider name target := if_neg h.symm

theorem wrapAll_append (inner outer : List BufferOverride) (provider : SourceProvider) :
    wrapAll (inner ++ outer) provider = wrapAll outer (wrapAll inner provider) :=
  List.foldl_append

theorem wrapAll_cons (o : BufferOverride) (outer : List BufferOverride)
    (provider : SourceProvider) : wrapAll (o :: outer) provider = wrapAll outer (o.wrap provider) :=
  rfl

/-- A name that is no target goes through the stack unchanged. -/
theorem wrapAll_of_ne (h : ∀ o ∈ stack, o.target ≠ name) (provider : SourceProvider)
    (target : ScriptTarget) : wrapAll stack provider name target = provider name target := by
  induction stack generalizing provider with
  | nil => rfl
  | cons o outer ih =>
    obtain ⟨ho, houter⟩ := List.forall_mem_cons.mp h
    rw [wrapAll_cons, ih houter, wrap_of_ne ho]

/-- What serves a name hides what is below it. -/
theorem wrapAll_of_serves (h : Serves stack name o) (provider : SourceProvider)
    (target : ScriptTarget) :
    wrapAll stack provider name target = ⟨some (.ofText name o.buffer target), []⟩ := by
  obtain ⟨rfl, inner, outer, rfl, houter⟩ := h
  rw [wrapAll_append, wrapAll_cons, wrapAll_of_ne houter, wrap_self]

/-- A name that is a target is served. -/
theorem exists_serves (h : ∃ o ∈ stack, o.target = name) : ∃ o, Serves stack name o := by
  induction stack using List.reverseRecOn with
  | nil =>
    obtain ⟨o, ho, -⟩ := h
    cases ho
  | append_singleton inner last ih =>
    by_cases hlast : last.target = name
    · exact ⟨last, hlast, inner, [], rfl, List.forall_mem_nil _⟩
    · obtain ⟨o, ho, hname⟩ := h
      rcases List.mem_append.mp ho with ho | ho
      · obtain ⟨p, hp, before, after, rfl, hafter⟩ := ih ⟨o, ho, hname⟩
        refine ⟨p, hp, before, after ++ [last], by simp, ?_⟩
        exact List.forall_mem_append.mpr ⟨hafter, List.forall_mem_singleton.mpr hlast⟩
      · obtain rfl := List.mem_singleton.mp ho
        exact absurd hname hlast

/-- In a stack of buffers over the disk a name that is the normal path of a target is served from
the outermost buffer for it, silently and whatever the disk has. Every other name, near misses of a
target too, gets what the disk gives for it as it is: the file it leads to, silently, or the one
complaint that it leads to none. Lookups that share a callback get what each gets alone. -/
theorem lookup_by_outermost (given : List (String × String)) (tree : FileTree) (base : String) :
    let stack := given.map fun g => ofPath g.1 g.2
    let host := wrapAll stack (diskProvider tree base)
    (∀ name, (∃ g ∈ given, Path.normalize g.1 = name) → ∃ o, Serves stack name o) ∧
    (∀ name o, Serves stack name o → ∀ (u : FileTree) (directory : String) (target : ScriptTarget),
      wrapAll stack (diskProvider u directory) name target
        = ⟨some (.ofText name o.buffer target), []⟩) ∧
    (∀ name, (∀ g ∈ given, Path.normalize g.1 ≠ name) → ∀ target,
      host name target = diskProvider tree base name target) ∧
    (∀ name text, HasText tree base name text → ∀ target,
      diskProvider tree base name target = ⟨some (.ofText name text target), []⟩) ∧
    (∀ name, (∀ text, ¬ HasText tree base name text) →
      ∃ e, tree.readText (Path.child base name) = .error e ∧
        ∀ target, diskProvider tree base name target
          = ⟨none, ["Cannot read file '" ++ Path.child base name ++ "': " ++ e.message ++ "."]⟩) ∧
    ∀ (σ : Type) (onError : σ → String → σ) (s : σ) (wanted : List (String × ScriptTarget)),
      SourceProvider.askAll host onError s wanted
        = (wanted.map fun w => (host w.1 w.2).file,
          (wanted.flatMap fun w => (host w.1 w.2).complaints).foldl onError s) := by
  intro stack host
  refine ⟨fun name h => ?_, fun name o ho u directory target => ?_, fun name h target => ?_,
    fun name text h target => ?_, fun name h => ?_, fun σ => ?_⟩
  · obtain ⟨g, hg, hname⟩ := h
    apply exists_serves
    exact ⟨ofPath g.1 g.2, List.mem_map_of_mem hg, hname⟩
  · exact wrapAll_of_serves ho (diskProvider u directory) target
  · apply wrapAll_of_ne
    intro o ho
    obtain ⟨g, hg, rfl⟩ := List.mem_map.mp ho
    exact h g hg
  · exact diskProvider_of_hasText h target
  · exact diskProvider_of_not_hasText h
  · exact SourceProvider.askAll_eq host

section Sample

/-- Two buffers for one file, in different spellings, and one for another file. -/
def sampleGiven : List (String × String) :=
  [("./src//a.ts", "old"), ("b/../src/a.ts", "new"), ("b.ts", "")]

/-- A file that is a text and one that is none. -/
def sampleFiles : FileTree :=
  { inside := [("p", .directory
      [("c.ts", .file (Utf8.encode "let c")), ("d.ts", .file [0xFF])])] }

theorem readText_sampleFiles :
    sampleFiles.readBytes (Path.child "/p" "c.ts") = .ok (Utf8.encode "let c") ∧
      sampleFiles.readText (Path.child "/p" "d.ts") = .error .notUtf8 ∧
      sampleFiles.readText (Path.child "/p" "C.ts") = .error .notFound := by
  unfold FileTree.readText FileTree.readBytes
  simp only [FileTree.locate_eq]
  decide +kernel

end Sample

/-- The later of the two buffers is served. The spelling that the first was given in is not, and
what is no target comes from the disk or is told to be missing. -/
theorem lookup_sampleGiven :
    let host := fun tree base =>
      wrapAll (sampleGiven.map fun g => ofPath g.1 g.2) (diskProvider tree base)
    ∀ target,
      (∀ tree base,
        host tree base "src/a.ts" target = ⟨some (.ofText "src/a.ts" "new" target), []⟩ ∧
        host tree base "./src//a.ts" target = diskProvider tree base "./src//a.ts" target) ∧
      host sampleFiles "/p" "c.ts" target = ⟨some (.ofText "c.ts" "let c" target), []⟩ ∧
      host sampleFiles "/p" "d.ts" target
        = ⟨none, ["Cannot read file '/p/d.ts': stream did not contain valid UTF-8."]⟩ ∧
      host sampleFiles "/p" "C.ts" target
        = ⟨none, ["Cannot read file '/p/C.ts': No such file or directory (os error 2)."]⟩ := by
  intro host target
  have hserves :
      Serves (sampleGiven.map fun g => ofPath g.1 g.2) "src/a.ts" ⟨"src/a.ts", "new"⟩ := by
    refine ⟨rfl, [⟨"src/a.ts", "old"⟩], [⟨"b.ts", ""⟩], ?_, ?_⟩
    · decide +kernel
    · decide
  have hother : ∀ name ∈ ["./src//a.ts", "c.ts", "d.ts", "C.ts"],
      ∀ g ∈ sampleGiven, Path.normalize g.1 ≠ name := by decide +kernel
  obtain ⟨htext, hbad, hnone⟩ := readText_sampleFiles
  obtain ⟨-, -, hbelow, hfound, hmissing, -⟩ := lookup_by_outermost sampleGiven sampleFiles "/p"
  have hbelow : ∀ name ∈ ["./src//a.ts", "c.ts", "d.ts", "C.ts"],
      host sampleFiles "/p" name target = diskProvider sampleFiles "/p" name target :=
    fun name hname => hbelow name (hother name hname) target
  have htold : ∀ name e, sampleFiles.readText (Path.child "/p" name) = .error e →
      diskProvider sampleFiles "/p" name target
        = ⟨none, ["Cannot read file '" ++ Path.child "/p" name ++ "': " ++ e.message ++ "."]⟩ := by
    intro name e he
    obtain ⟨e', he', htold⟩ := hmissing name (not_hasText_of_error he)
    obtain rfl := Except.error.inj (he'.symm.trans he)
    exact htold target
  refine ⟨fun tree base => ?_, ?_, ?_, ?_⟩
  · obtain ⟨-, hserved, hdisk, -⟩ := lookup_by_outermost sampleGiven tree base
    exact ⟨hserved _ _ hserves tree base target, hdisk _ (hother _ (by simp)) target⟩
  · rw [hbelow _ (by simp), hfound _ _ htext]
  · rw [hbelow _ (by simp), htold _ _ hbad]
    decide +kernel
  · rw [hbelow _ (by simp), htold _ _ hnone]
    decide +kernel

end BufferOverride
end BufferCheck
