import BufferCheck.Proofs.Config.Layers

/-! The configurations that a target's configuration leads to, each before those that it builds on.
The first of them with a fault decides how resolving ends, and no other file is opened. -/
namespace BufferCheck

/-- The configuration that an error is about. -/
def ConfigError.path : ConfigError → String
  | .unreadable path _ => path
  | .malformed path => path

namespace Logged
variable {ω ε α β : Type} {r : Logged ω ε α} {f : α → Logged ω ε β}

/-- How a computation failed, if it did. -/
def failure? (r : Logged ω ε α) : Option ε :=
  match r.outcome with
  | .error e => some e
  | .ok _ => none

theorem failure?_eq_some {e : ε} : r.failure? = some e ↔ r.outcome = .error e := by
  unfold failure?
  split
  · next h => rw [h, Option.some.injEq, Except.error.injEq]
  · next h => simp [h]

theorem failure?_eq_none : r.failure? = none ↔ ∃ a, r.outcome = .ok a := by
  unfold failure?
  split
  · next h => simp [h]
  · next h => simp [h]

theorem andThen_of_error {e : ε} (h : r.outcome = .error e) :
    r.andThen f = ⟨r.log, .error e⟩ := by
  rw [andThen, h]

theorem andThen_of_ok {a : α} (h : r.outcome = .ok a) :
    r.andThen f = ⟨r.log ++ (f a).log, (f a).outcome⟩ := by
  rw [andThen, h]

/-- A computation succeeds if each of its two parts does. -/
theorem andThen_eq_ok {b : β} : (r.andThen f).outcome = .ok b ↔
    ∃ a, r.outcome = .ok a ∧ (f a).outcome = .ok b := by
  cases h : r.outcome with
  | error e => simp [andThen_of_error h]
  | ok a => simp [andThen_of_ok h]

/-- What fails first decides, if what follows fails in one way whatever value it goes on with. -/
theorem failure?_andThen {o : Option ε} (hf : ∀ a, (f a).failure? = o) :
    (r.andThen f).failure? = r.failure?.or o := by
  cases h : r.outcome with
  | error e =>
    rw [andThen_of_error h, failure?_eq_some.mpr h]
    rfl
  | ok a =>
    rw [andThen_of_ok h, failure?_eq_none.mpr ⟨a, h⟩, Option.none_or, ← hf a]
    rfl

end Logged

namespace Config

variable {tree u : FileTree} {chain : List String} {root base target path directory : String}
  {options : OptionSet} {specifiers : List String}

/-- What is wrong with a configuration: it cannot be read, or it is malformed. -/
def fault? (tree : FileTree) (path : String) : Option ConfigError :=
  match tree.readText path with
  | .error cause => some (.unreadable path cause)
  | .ok text => if (Declaration.read? text).isSome then none else some (.malformed path)

mutual

/-- A configuration and those that it leads to, each before those that it builds on, in the order of
its specifiers. A configuration on the chain is not followed again. -/
def preorder (tree : FileTree) (chain : List String) (path directory : String) : List String :=
  path ::
    match declaration? tree path with
    | none => []
    | some d => preorderBases tree (Path.plain path :: chain) directory d.bases
termination_by (Path.unvisited FileTree.pathLimit (Path.plain path :: chain), 1, 0)

/-- The configurations that specifiers lead to. -/
def preorderBases (tree : FileTree) (chain : List String) (directory : String)
    (specifiers : List String) : List String :=
  match specifiers with
  | [] => []
  | specifier :: rest =>
    match hb : findBase? tree specifier directory with
    | none => preorderBases tree chain directory rest
    | some base =>
      if hc : Path.plain base ∈ chain then preorderBases tree chain directory rest
      else
        have := unvisited_plain_lt hb hc
        preorder tree chain base (Path.parent base) ++ preorderBases tree chain directory rest
termination_by (Path.unvisited FileTree.pathLimit chain, 0, specifiers.length)
decreasing_by
  all_goals simp_wf
  · exact Prod.Lex.right _ (Prod.Lex.right _ (Nat.lt_succ_self _))
  · exact Prod.Lex.right _ (Prod.Lex.right _ (Nat.lt_succ_self _))
  · exact Prod.Lex.left _ _ this
  · exact Prod.Lex.right _ (Prod.Lex.right _ (Nat.lt_succ_self _))

end

/-- The configurations that the target's own leads to; none if it has none. -/
def reached (tree : FileTree) (base target : String) : List String :=
  match find? tree (searchDirectory base target) with
  | none => []
  | some root => preorder tree [] root base

/-- Paths up to the first whose configuration has a fault, and with it. -/
def upToFault (tree : FileTree) : List String → List String
  | [] => []
  | path :: rest => path :: if (fault? tree path).isSome then [] else upToFault tree rest

/-- The configurations that are opened to resolve the options of a target. -/
def opened (tree : FileTree) (base target : String) : List String :=
  upToFault tree (reached tree base target)

section Faults

theorem path_of_fault? {e : ConfigError} (h : fault? tree path = some e) : e.path = path := by
  unfold fault? at h
  split at h
  · rw [← Option.some.inj h]
    rfl
  · split at h
    · cases h
    · rw [← Option.some.inj h]
      rfl

theorem fault?_of_unreadable {cause : FileError} (h : tree.readText path = .error cause) :
    fault? tree path = some (.unreadable path cause) ∧ declaration? tree path = none := by
  constructor
  · rw [fault?, h]
  · rw [declaration?, h]

theorem fault?_of_malformed {text : String} (h : tree.readText path = .ok text)
    (hd : Declaration.read? text = none) :
    fault? tree path = some (.malformed path) ∧ declaration? tree path = none := by
  constructor
  · simp only [fault?, h, hd, Option.isSome_none, Bool.false_eq_true, if_false]
  · rw [declaration?, h, ← hd]

theorem fault?_of_declared {text : String} {d : Declaration} (h : tree.readText path = .ok text)
    (hd : Declaration.read? text = some d) :
    fault? tree path = none ∧ declaration? tree path = some d := by
  constructor
  · simp only [fault?, h, hd, Option.isSome_some, if_true]
  · rw [declaration?, h, ← hd]

theorem fault?_of_some {d : Declaration} (hd : declaration? tree path = some d) :
    fault? tree path = none := by
  cases h : tree.readText path with
  | error cause => cases hd.symm.trans (fault?_of_unreadable h).2
  | ok text =>
    cases hread : Declaration.read? text with
    | none => cases hd.symm.trans (fault?_of_malformed h hread).2
    | some d' => exact (fault?_of_declared h hread).1

theorem fault?_congr (h : tree.readText path = u.readText path) :
    fault? tree path = fault? u path := by
  rw [fault?, fault?, h]

theorem declaration?_congr (h : tree.readText path = u.readText path) :
    declaration? tree path = declaration? u path := by
  rw [declaration?, declaration?, h]

end Faults

section Steps

variable {specifier found : String} {rest : List String} {d : Declaration}

theorem preorder_of_none (hd : declaration? tree path = none) :
    preorder tree chain path directory = [path] := by
  rw [preorder, hd]

theorem preorder_of_some (hd : declaration? tree path = some d) :
    preorder tree chain path directory
      = path :: preorderBases tree (Path.plain path :: chain) directory d.bases := by
  rw [preorder, hd]

theorem preorderBases_nil : preorderBases tree chain directory [] = [] := by
  rw [preorderBases]

theorem preorderBases_skip (hf : ∀ found, findBase? tree specifier directory = some found →
    Path.plain found ∈ chain) : preorderBases tree chain directory (specifier :: rest)
      = preorderBases tree chain directory rest := by
  rw [preorderBases]
  split
  · rfl
  · next found hfound => rw [dif_pos (hf found hfound)]

theorem preorderBases_follow (hf : findBase? tree specifier directory = some found)
    (hc : Path.plain found ∉ chain) : preorderBases tree chain directory (specifier :: rest)
      = preorder tree chain found (Path.parent found)
        ++ preorderBases tree chain directory rest := by
  rw [preorderBases]
  split
  · next hnone => cases hf.symm.trans hnone
  · next other hother =>
    obtain rfl := Option.some.inj (hother.symm.trans hf)
    rw [dif_neg hc]

end Steps

section Induction

variable {P : List String → String → String → Prop} {Q : List String → String → List String → Prop}

/-- What holds of a configuration if it holds of its specifiers, and of specifiers if it holds of
the configurations that they lead to. -/
theorem preorder_induction
    (none : ∀ chain path directory, declaration? tree path = none → P chain path directory)
    (some : ∀ chain path directory d, declaration? tree path = some d →
      Q (Path.plain path :: chain) directory d.bases → P chain path directory)
    (nil : ∀ chain directory, Q chain directory [])
    (skip : ∀ chain directory specifier rest,
      (∀ found, findBase? tree specifier directory = .some found → Path.plain found ∈ chain) →
      Q chain directory rest → Q chain directory (specifier :: rest))
    (follow : ∀ chain directory specifier rest found,
      findBase? tree specifier directory = .some found → Path.plain found ∉ chain →
      P chain found (Path.parent found) → Q chain directory rest →
      Q chain directory (specifier :: rest)) :
    (∀ chain path directory, P chain path directory) ∧
      ∀ chain directory specifiers, Q chain directory specifiers := by
  refine preorder.mutual_induct tree P Q ?_ nil ?_ ?_ ?_
  · intro chain path directory hbases
    cases hd : declaration? tree path with
    | none => exact none _ _ _ hd
    | some d => exact some _ _ _ d hd (hbases d)
  · intro chain directory specifier rest hf hrest
    exact skip _ _ _ _ (fun found hfound => by cases hf.symm.trans hfound) hrest
  · intro chain directory specifier rest base hb hc hrest
    exact skip _ _ _ _ (fun found hfound => Option.some.inj (hb.symm.trans hfound) ▸ hc) hrest
  · intro chain directory specifier rest base hb hc _ hbase hrest
    exact follow _ _ _ _ base hb hc hbase hrest

end Induction

section Stacks

variable {f g : Frame} {fs gs : List Frame} {d : Declaration}

/-- What a specifier leads to is among what its configuration leads to. -/
theorem preorder_subset {specifier found : String} (hs : specifier ∈ specifiers)
    (hf : findBase? tree specifier directory = some found) (hc : Path.plain found ∉ chain) :
    preorder tree chain found (Path.parent found)
      ⊆ preorderBases tree chain directory specifiers := by
  induction specifiers with
  | nil => cases hs
  | cons other rest ih =>
    rcases List.mem_cons.mp hs with rfl | hs
    · rw [preorderBases_follow hf hc]
      exact List.subset_append_left _ _
    · refine List.Subset.trans (ih hs) ?_
      by_cases hother : ∀ b, findBase? tree other directory = some b → Path.plain b ∈ chain
      · rw [preorderBases_skip hother]
        exact List.Subset.refl _
      · push Not at hother
        obtain ⟨b, hb, hbc⟩ := hother
        rw [preorderBases_follow hb hbc]
        exact List.subset_append_right _ _

/-- Whatever a stack leads to is reached from the bottom of it. -/
theorem Stack.preorder_subset (h : Stack tree SpelledAlike root base (f :: fs)) :
    preorder tree (spelled fs) f.path f.directory ⊆ preorder tree [] root base := by
  generalize hstack : f :: fs = stack at h
  induction h generalizing f fs with
  | root =>
    obtain ⟨rfl, rfl⟩ := List.cons.inj hstack
    exact List.Subset.refl _
  | @push g gs d specifier path h hd hs hp hn ih =>
    obtain ⟨rfl, rfl⟩ := List.cons.inj hstack
    refine List.Subset.trans ?_ (ih rfl)
    have hc : Path.plain path ∉ spelled (g :: gs) := fun hmem => by
      obtain ⟨other, hother, halike⟩ := plain_mem_spelled.mp hmem
      exact hn other hother halike
    have hbelow := Config.preorder_subset hs hp hc
    rw [preorder_of_some hd]
    exact List.Subset.trans hbelow (List.subset_cons_self _ _)

/-- The configurations that are reached are those that stand on top of a stack. -/
theorem mem_preorder_iff (tree : FileTree) (root base path : String) :
    path ∈ preorder tree [] root base ↔
      ∃ directory fs, Stack tree SpelledAlike root base (⟨path, directory⟩ :: fs) := by
  refine ⟨fun h => ?_, fun ⟨directory, fs, h⟩ => h.preorder_subset ?_⟩
  · refine (@preorder_induction tree
      (fun chain path directory => ∀ fs, spelled fs = chain →
        Stack tree SpelledAlike root base (⟨path, directory⟩ :: fs) →
        ∀ p ∈ preorder tree chain path directory, ∃ other gs,
          Stack tree SpelledAlike root base (⟨p, other⟩ :: gs))
      (fun chain directory specifiers => ∀ f fs d, spelled (f :: fs) = chain →
        f.directory = directory → Stack tree SpelledAlike root base (f :: fs) →
        declaration? tree f.path = some d → specifiers ⊆ d.bases →
        ∀ p ∈ preorderBases tree chain directory specifiers, ∃ other gs,
          Stack tree SpelledAlike root base (⟨p, other⟩ :: gs))
      ?none ?some ?nil ?skip ?follow).1 [] root base [] rfl .root path h
    case none =>
      intro chain path directory hd fs _ hstack p hp
      rw [preorder_of_none hd] at hp
      obtain rfl := List.mem_singleton.mp hp
      exact ⟨directory, fs, hstack⟩
    case some =>
      intro chain path directory d hd ih fs hfs hstack p hp
      rw [preorder_of_some hd] at hp
      rcases List.mem_cons.mp hp with rfl | hp
      · exact ⟨directory, fs, hstack⟩
      · have hspelled : spelled (⟨path, directory⟩ :: fs) = Path.plain path :: chain := hfs ▸ rfl
        exact ih _ fs d hspelled rfl hstack hd (List.Subset.refl _) p hp
    case nil =>
      intro chain directory f fs d _ _ _ _ _ p hp
      rw [preorderBases_nil] at hp
      cases hp
    case skip =>
      intro chain directory specifier rest hf ih f fs d hfs hdir hstack hd hsub p hp
      rw [preorderBases_skip hf] at hp
      exact ih f fs d hfs hdir hstack hd (List.cons_subset.mp hsub).2 p hp
    case follow =>
      intro chain directory specifier rest found hf hc hfound ih f fs d hfs hdir hstack hd hsub p hp
      obtain ⟨hs, hrest⟩ := List.cons_subset.mp hsub
      rw [preorderBases_follow hf hc] at hp
      rcases List.mem_append.mp hp with hp | hp
      · have hn : ∀ g ∈ f :: fs, ¬ SpelledAlike found g.path := fun g hg halike =>
          hc (hfs ▸ plain_mem_spelled.mpr ⟨g, hg, halike⟩)
        rw [← hdir] at hf
        exact hfound (f :: fs) hfs (hstack.push hd hs hf hn) p hp
      · exact ih f fs d hfs hdir hstack hd hrest p hp
  · cases hd : declaration? tree path with
    | none =>
      rw [preorder_of_none hd]
      exact List.mem_cons_self
    | some d =>
      rw [preorder_of_some hd]
      exact List.mem_cons_self

theorem mem_reached_iff (tree : FileTree) (base target path : String) :
    path ∈ reached tree base target ↔ ∃ root directory fs,
      find? tree (searchDirectory base target) = some root ∧
        Stack tree SpelledAlike root base (⟨path, directory⟩ :: fs) := by
  rw [reached]
  cases find? tree (searchDirectory base target) with
  | none => simp
  | some root =>
    simp only [mem_preorder_iff, Option.some.injEq]
    constructor
    · rintro ⟨directory, fs, h⟩
      exact ⟨root, directory, fs, rfl, h⟩
    · rintro ⟨_, directory, fs, rfl, h⟩
      exact ⟨directory, fs, h⟩

end Stacks

section Failure

/-- How loading ends that opens nothing but the configuration itself. -/
theorem load_of_none (hd : declaration? tree path = none) :
    ∃ e, fault? tree path = some e ∧ load tree chain path directory = .fail e := by
  rw [load]
  split
  · next cause h => exact ⟨_, (fault?_of_unreadable h).1, rfl⟩
  · next text h =>
    split
    · next hread => exact ⟨_, (fault?_of_malformed h hread).1, rfl⟩
    · next d hread => cases hd.symm.trans (fault?_of_declared h hread).2

/-- A specifier that is not followed is noted. -/
theorem loadBases_skip {specifier : String} {rest : List String}
    (hf : ∀ found, findBase? tree specifier directory = some found → Path.plain found ∈ chain) :
    ∃ w, loadBases tree chain path directory options (specifier :: rest)
      = (Logged.note w).andThen fun _ => loadBases tree chain path directory options rest := by
  cases h : findBase? tree specifier directory with
  | none => exact ⟨_, loadBases_missing h⟩
  | some found => exact ⟨_, loadBases_circular h (hf found h)⟩

/-- Loading fails exactly if a configuration that is reached has a fault, by the first fault. -/
theorem failure?_load (tree : FileTree) (chain : List String) (path directory : String) :
    (load tree chain path directory).failure?
      = (preorder tree chain path directory).findSome? (fault? tree) := by
  refine (@preorder_induction tree
    (fun chain path directory => (load tree chain path directory).failure?
      = (preorder tree chain path directory).findSome? (fault? tree))
    (fun chain directory specifiers => ∀ path options,
      (loadBases tree chain path directory options specifiers).failure?
        = (preorderBases tree chain directory specifiers).findSome? (fault? tree))
    ?none ?some ?nil ?skip ?follow).1 chain path directory
  case none =>
    intro chain path directory hd
    obtain ⟨e, hfault, hload⟩ := load_of_none hd
    rw [hload, preorder_of_none hd, List.findSome?_singleton, hfault]
    rfl
  case some =>
    intro chain path directory d hd ih
    rw [load_of_some hd, Logged.failure?_andThen (o := none) fun _ => rfl, Option.or_none, ih,
      preorder_of_some hd, List.findSome?_cons, fault?_of_some hd]
  case nil =>
    intro chain directory path options
    rw [loadBases_nil, preorderBases_nil]
    rfl
  case skip =>
    intro chain directory specifier rest hf ih path options
    obtain ⟨w, hskip⟩ := @loadBases_skip tree chain path directory options specifier rest hf
    rw [hskip, Logged.note_andThen, preorderBases_skip hf, ← ih path options]
    rfl
  case follow =>
    intro chain directory specifier rest found hf hc hfound ih path options
    rw [loadBases_follow hf hc, Logged.failure?_andThen fun inherited => ih path _, hfound,
      preorderBases_follow hf hc, List.findSome?_append]

/-- Resolving fails exactly if a configuration that is reached has a fault, by the first fault. -/
theorem failure?_resolve (tree : FileTree) (base target : String) :
    (resolve tree base target).failure? = (reached tree base target).findSome? (fault? tree) := by
  rw [resolve, reached]
  cases find? tree (searchDirectory base target) with
  | none => rfl
  | some root =>
    simp only
    rw [Logged.failure?_andThen (o := none) fun _ => rfl, Option.or_none, failure?_load]

/-- What a target has are the defaults, or what is loaded from its configuration. -/
theorem resolve_eq_ok {resolved : Resolution}
    (h : (resolve tree base target).outcome = .ok resolved) :
    (find? tree (searchDirectory base target) = none ∧
        resolved = ⟨none, OptionSet.defaults.forceNoEmit⟩) ∨
      ∃ root options, find? tree (searchDirectory base target) = some root ∧
        (load tree [] root base).outcome = .ok options ∧
        resolved = ⟨some root, options.forceNoEmit⟩ := by
  rw [resolve] at h
  split at h
  · next hnone => exact .inl ⟨hnone, (Except.ok.inj h).symm⟩
  · next root hroot =>
    obtain ⟨options, hload, hpure⟩ := Logged.andThen_eq_ok.mp h
    exact .inr ⟨root, options, hroot, hload, (Except.ok.inj hpure).symm⟩

/-- Whatever configurations say, nothing is emitted. -/
theorem noEmit_of_resolve {resolved : Resolution}
    (h : (resolve tree base target).outcome = .ok resolved) :
    resolved.options.get? "noEmit" = some (.bool true) := by
  obtain ⟨-, rfl⟩ | ⟨root, options, -, -, rfl⟩ := resolve_eq_ok h
  · exact OptionSet.get?_set_self _ _ _
  · exact OptionSet.get?_set_self _ _ _

end Failure

section Opened

variable {xs ys : List String}

theorem mem_upToFault_append (h : path ∈ upToFault tree xs) : path ∈ upToFault tree (xs ++ ys) := by
  induction xs with
  | nil => cases h
  | cons x xs ih =>
    rw [upToFault] at h
    rw [List.cons_append, upToFault]
    rcases List.mem_cons.mp h with rfl | h
    · exact List.mem_cons_self
    · split at h
      · cases h
      · next hx =>
        rw [if_neg hx]
        exact List.mem_cons_of_mem _ (ih h)

/-- After configurations without a fault the next ones are opened. -/
theorem mem_upToFault_append_of_none (hx : xs.findSome? (fault? tree) = none)
    (h : path ∈ upToFault tree ys) : path ∈ upToFault tree (xs ++ ys) := by
  induction xs with
  | nil => exact h
  | cons x xs ih =>
    have hall := List.findSome?_eq_none_iff.mp hx
    rw [List.cons_append, upToFault, hall x List.mem_cons_self]
    refine List.mem_cons_of_mem _ (ih (List.findSome?_eq_none_iff.mpr fun p hp => ?_))
    exact hall p (List.mem_cons_of_mem _ hp)

theorem find?_congr (hfiles : ∀ p, tree.isFile p = u.isFile p) :
    find? tree directory = find? u directory := by
  rw [find?_eq, find?_eq, funext hfiles]

theorem findBase?_congr (hfiles : ∀ p, tree.isFile p = u.isFile p)
    (specifier directory : String) :
    findBase? tree specifier directory = findBase? u specifier directory := by
  rw [findBase?_eq, findBase?_eq, funext hfiles]

/-- What is not opened does not matter: trees with the same files, and the same texts in those that
are opened, give the same. -/
theorem load_congr (hfiles : ∀ p, tree.isFile p = u.isFile p) (chain : List String)
    (path directory : String)
    (htexts : ∀ p ∈ upToFault tree (preorder tree chain path directory),
      tree.readText p = u.readText p) :
    load tree chain path directory = load u chain path directory := by
  revert htexts
  refine (@preorder_induction tree
    (fun chain path directory =>
      (∀ p ∈ upToFault tree (preorder tree chain path directory), tree.readText p = u.readText p) →
        load tree chain path directory = load u chain path directory)
    (fun chain directory specifiers =>
      (∀ p ∈ upToFault tree (preorderBases tree chain directory specifiers),
        tree.readText p = u.readText p) → ∀ path options,
        loadBases tree chain path directory options specifiers
          = loadBases u chain path directory options specifiers)
    ?none ?some ?nil ?skip ?follow).1 chain path directory
  case none =>
    intro chain path directory hd htexts
    rw [preorder_of_none hd] at htexts
    have htext := htexts path List.mem_cons_self
    obtain ⟨e, hfault, hload⟩ := @load_of_none tree chain path directory hd
    obtain ⟨e', hfault', hload'⟩ := @load_of_none u chain path directory
      (declaration?_congr htext ▸ hd)
    rw [hload, hload', Option.some.inj (hfault.symm.trans ((fault?_congr htext).trans hfault'))]
  case some =>
    intro chain path directory d hd ih htexts
    rw [preorder_of_some hd, upToFault, fault?_of_some hd] at htexts
    have htext := htexts path List.mem_cons_self
    rw [load_of_some hd, load_of_some (declaration?_congr htext ▸ hd),
      ih fun p hp => htexts p (List.mem_cons_of_mem _ hp)]
  case nil =>
    intro chain directory _ path options
    rw [loadBases_nil, loadBases_nil]
  case skip =>
    intro chain directory specifier rest hf ih htexts path options
    rw [preorderBases_skip hf] at htexts
    have hsame := findBase?_congr hfiles specifier directory
    cases h : findBase? tree specifier directory with
    | none => rw [loadBases_missing h, loadBases_missing (hsame ▸ h), ih htexts]
    | some found =>
      have hc := hf found h
      rw [loadBases_circular h hc, loadBases_circular (hsame ▸ h) hc, ih htexts]
  case follow =>
    intro chain directory specifier rest found hf hc hfound ih htexts path options
    rw [preorderBases_follow hf hc] at htexts
    have hf' := findBase?_congr hfiles specifier directory ▸ hf
    rw [loadBases_follow hf hc, loadBases_follow hf' hc,
      ← hfound fun p hp => htexts p (mem_upToFault_append hp)]
    cases hload : (load tree chain found (Path.parent found)).outcome with
    | error e => rw [Logged.andThen_of_error hload, Logged.andThen_of_error hload]
    | ok inherited =>
      -- Nothing before has a fault, so the remaining specifiers are opened.
      have hnone := failure?_load tree chain found (Path.parent found)
      rw [Logged.failure?_eq_none.mpr ⟨inherited, hload⟩] at hnone
      rw [Logged.andThen_of_ok hload, Logged.andThen_of_ok hload,
        ih fun p hp => htexts p (mem_upToFault_append_of_none hnone.symm hp)]

/-- The options of a target depend on which paths lead to files, and on the configurations that are
opened, and on nothing else in the tree. -/
theorem resolve_congr (hfiles : ∀ p, tree.isFile p = u.isFile p)
    (htexts : ∀ p ∈ opened tree base target, tree.readText p = u.readText p) :
    resolve tree base target = resolve u base target := by
  rw [opened, reached] at htexts
  rw [resolve, resolve, ← find?_congr hfiles]
  cases h : find? tree (searchDirectory base target) with
  | none => rfl
  | some root =>
    rw [h] at htexts
    simp only
    rw [load_congr hfiles [] root base htexts]

end Opened

end Config
end BufferCheck
