import BufferCheck.Proofs.Diagnostic

/-! The text of a message that is a tree of explanations. Its lines are the nodes in reading order,
each indented by its depth. From texts that do not look like an indentation the tree can be rebuilt,
so the order of diagnostics tells such trees apart. -/
namespace BufferCheck

variable {depth : Nat} {newLine : String}

/-- The line of a node: its text, indented by its depth. -/
def outlineLine (p : Nat × String) : String := indentation p.1 ++ p.2

/-- A text on one line that does not start with an indentation. -/
def Flush (s : String) : Prop := '\n' ∉ s.toList ∧ ¬ [' ', ' '] <+: s.toList

/-- Each text of a tree is flush. -/
def Explanation.AllFlush (e : Explanation) : Prop := ∀ p ∈ e.outline 0, Flush p.2

section Lines

theorem toList_indentation (depth : Nat) :
    (indentation depth).toList = List.replicate (2 * depth) ' ' := String.toList_ofList

mutual

/-- A node below the root is written as its lines, each after a line break. -/
theorem Explanation.flatten_below : ∀ (e : Explanation) (depth : Nat),
    e.flatten newLine (depth + 1)
      = String.join ((e.outline (depth + 1)).map fun p => newLine ++ outlineLine p)
  | .node text next, depth => by
    rw [Explanation.flatten, if_neg (Nat.succ_ne_zero depth), flattenAll_below next (depth + 1),
      Explanation.outline, List.map_cons, String.join_cons, outlineLine]
    simp only [String.append_assoc]

theorem flattenAll_below : ∀ (es : List Explanation) (depth : Nat),
    flattenAll newLine (depth + 1) es
      = String.join ((outlineAll (depth + 1) es).map fun p => newLine ++ outlineLine p)
  | [], _ => rfl
  | e :: es, depth => by
    rw [flattenAll, Explanation.flatten_below e depth, flattenAll_below es depth, outlineAll,
      List.map_append, String.join_append]

end

theorem intercalate_cons (line : String) (lines : List String) :
    newLine.intercalate (line :: lines) = line ++ String.join (lines.map (newLine ++ ·)) := by
  induction lines generalizing line with
  | nil => simp
  | cons next lines ih =>
    rw [String.intercalate_cons_cons, ih, List.map_cons, String.join_cons, String.append_assoc,
      String.append_assoc]

theorem Explanation.flatten_root (e : Explanation) :
    e.flatten newLine 0 = newLine.intercalate ((e.outline 0).map outlineLine) := by
  obtain ⟨text, next⟩ := e
  have hroot : outlineLine (0, text) = text := String.empty_append
  rw [Explanation.flatten, if_pos rfl, String.empty_append, flattenAll_below, Explanation.outline,
    List.map_cons, intercalate_cons, List.map_map, hroot]
  rfl

end Lines

section Apart

/-- Lines joined by line feeds can be told apart. -/
theorem eq_of_intercalate_eq {xs ys : List String} (hx : ∀ s ∈ xs, '\n' ∉ s.toList)
    (hy : ∀ s ∈ ys, '\n' ∉ s.toList) (hxs : xs ≠ []) (hys : ys ≠ [])
    (h : "\n".intercalate xs = "\n".intercalate ys) : xs = ys := by
  have hsplit : ∀ zs : List String, (∀ s ∈ zs, '\n' ∉ s.toList) → zs ≠ [] →
      ("\n".intercalate zs).toList.splitOn '\n' = zs.map String.toList := by
    intro zs hz hzs
    rw [String.toList_intercalate]
    exact List.splitOn_intercalate '\n' (by simpa using hz) (by simpa using hzs)
  have hmap := hsplit xs hx hxs
  rw [h, hsplit ys hy hys] at hmap
  exact (List.map_inj_right fun _ _ => String.toList_inj.mp).mp hmap.symm

theorem eq_of_replicate_append {m n : Nat} {cs ds : List Char} (hc : ¬ [' ', ' '] <+: cs)
    (hd : ¬ [' ', ' '] <+: ds)
    (h : List.replicate (2 * m) ' ' ++ cs = List.replicate (2 * n) ' ' ++ ds) :
    m = n ∧ cs = ds := by
  induction m generalizing n with
  | zero =>
    cases n with
    | zero => exact ⟨rfl, h⟩
    | succ n => exact absurd ⟨_, h.symm⟩ hc
  | succ m ih =>
    cases n with
    | zero => exact absurd ⟨_, h⟩ hd
    | succ n =>
      obtain ⟨rfl, rfl⟩ := ih (List.cons.inj (List.cons.inj h).2).2
      exact ⟨rfl, rfl⟩

/-- The line of a flush text tells the text and its depth. -/
theorem eq_of_outlineLine_eq {p q : Nat × String} (hp : Flush p.2) (hq : Flush q.2)
    (h : outlineLine p = outlineLine q) : p = q := by
  have hchars := congrArg String.toList h
  simp only [outlineLine, String.toList_append, toList_indentation] at hchars
  obtain ⟨hdepth, htext⟩ := eq_of_replicate_append hp.2 hq.2 hchars
  exact Prod.ext hdepth (String.toList_inj.mp htext)

theorem eq_of_map_outlineLine_eq {ps qs : List (Nat × String)} (hp : ∀ p ∈ ps, Flush p.2)
    (hq : ∀ q ∈ qs, Flush q.2) (h : ps.map outlineLine = qs.map outlineLine) : ps = qs := by
  induction ps generalizing qs with
  | nil => exact (List.map_eq_nil_iff.mp h.symm).symm
  | cons p ps ih =>
    obtain ⟨q, qs, rfl, hline, hlines⟩ := List.map_eq_cons_iff.mp h.symm
    obtain ⟨hp, hps⟩ := List.forall_mem_cons.mp hp
    obtain ⟨hq, hqs⟩ := List.forall_mem_cons.mp hq
    rw [eq_of_outlineLine_eq hq hp hline, ih hps hqs hlines.symm]

theorem lineFeed_notMem_outlineLine {p : Nat × String} (h : Flush p.2) :
    '\n' ∉ (outlineLine p).toList := by
  simp [outlineLine, toList_indentation, h.1]

end Apart

section Rebuild

variable {r r' : List (Nat × String)}

/-- What follows nodes of a depth goes on above them. -/
def GoesOnAbove (depth : Nat) (r : List (Nat × String)) : Prop := ∀ p ∈ r.head?, p.1 < depth

theorem GoesOnAbove.outlineAll (h : GoesOnAbove depth r) (es : List Explanation) :
    GoesOnAbove (depth + 1) (BufferCheck.outlineAll depth es ++ r) := by
  cases es with
  | nil => exact fun p hp => Nat.lt_succ_of_lt (h p hp)
  | cons e es =>
    obtain ⟨text, next⟩ := e
    rintro p ⟨⟩
    exact Nat.lt_succ_self depth

/-- Nodes of a depth do not go on above it. -/
theorem GoesOnAbove.ne_outlineAll_cons (h : GoesOnAbove depth r) (e : Explanation)
    (es : List Explanation) : r ≠ BufferCheck.outlineAll depth (e :: es) ++ r' := by
  obtain ⟨text, next⟩ := e
  rintro rfl
  exact Nat.lt_irrefl depth (h _ rfl)

mutual

/-- The outline of a tree tells the tree, and where it ends. -/
theorem Explanation.outline_append_inj : ∀ (e e' : Explanation) {depth : Nat}
    {r r' : List (Nat × String)}, GoesOnAbove (depth + 1) r → GoesOnAbove (depth + 1) r' →
    e.outline depth ++ r = e'.outline depth ++ r' → e = e' ∧ r = r'
  | .node text next, .node text' next', depth, _, _, hr, hr', h => by
    simp only [Explanation.outline, List.cons_append, List.cons.injEq, Prod.mk.injEq] at h
    obtain ⟨⟨-, rfl⟩, h⟩ := h
    obtain ⟨rfl, rfl⟩ := outlineAll_append_inj next next' hr hr' h
    exact ⟨rfl, rfl⟩

theorem outlineAll_append_inj : ∀ (es es' : List Explanation) {depth : Nat}
    {r r' : List (Nat × String)}, GoesOnAbove depth r → GoesOnAbove depth r' →
    outlineAll depth es ++ r = outlineAll depth es' ++ r' → es = es' ∧ r = r'
  | [], [], _, _, _, _, _, h => ⟨rfl, h⟩
  | [], e :: es, _, _, _, hr, _, h => absurd h (hr.ne_outlineAll_cons e es)
  | e :: es, [], _, _, _, _, hr', h => absurd h.symm (hr'.ne_outlineAll_cons e es)
  | e :: es, e' :: es', depth, _, _, hr, hr', h => by
    simp only [outlineAll, List.append_assoc] at h
    obtain ⟨rfl, hrest⟩ :=
      Explanation.outline_append_inj e e' (hr.outlineAll es) (hr'.outlineAll es') h
    obtain ⟨rfl, rfl⟩ := outlineAll_append_inj es es' hr hr' hrest
    exact ⟨rfl, rfl⟩

end

theorem Explanation.outline_inj {e e' : Explanation} (h : e.outline 0 = e'.outline 0) : e = e' := by
  have hnil : GoesOnAbove 1 [] := by simp [GoesOnAbove]
  exact (outline_append_inj e e' hnil hnil (by simpa using h)).1

end Rebuild

theorem Explanation.eq_of_flatten_eq {e e' : Explanation} (he : e.AllFlush) (he' : e'.AllFlush)
    (h : e.flatten "\n" 0 = e'.flatten "\n" 0) : e = e' := by
  have hlines : ∀ {e : Explanation}, e.AllFlush →
      (∀ s ∈ (e.outline 0).map outlineLine, '\n' ∉ s.toList) ∧
        (e.outline 0).map outlineLine ≠ [] := by
    rintro ⟨text, next⟩ he
    refine ⟨fun s hs => ?_, by simp [outline]⟩
    obtain ⟨p, hp, rfl⟩ := List.mem_map.mp hs
    exact lineFeed_notMem_outlineLine (he p hp)
  rw [flatten_root, flatten_root] at h
  have hmap := eq_of_intercalate_eq (hlines he).1 (hlines he').1 (hlines he).2 (hlines he').2 h
  exact outline_inj (eq_of_map_outlineLine_eq he he' hmap)

/-- The text of a tree has a line for each node in reading order, indented by two spaces for each
level. Trees of flush texts are told apart by their text, and so by the order of diagnostics. -/
theorem Message.flatten_tells_tree :
    (∀ (newLine : String) (e : Explanation), (Message.chain e).flatten newLine
      = newLine.intercalate ((e.outline 0).map fun p => indentation p.1 ++ p.2)) ∧
    (∀ e e' : Explanation, e.AllFlush → e'.AllFlush →
      (Message.chain e).flatten "\n" = (Message.chain e').flatten "\n" → e = e') ∧
    ∀ (d d' : Diagnostic) (e e' : Explanation), d.message = .chain e → d'.message = .chain e' →
      e.AllFlush → e'.AllFlush → d.order d' = .eq → e = e' := by
  have hinj : ∀ e e' : Explanation, e.AllFlush → e'.AllFlush →
      (Message.chain e).flatten "\n" = (Message.chain e').flatten "\n" → e = e' :=
    fun e e' he he' => Explanation.eq_of_flatten_eq he he'
  refine ⟨fun newLine e => e.flatten_root, hinj, fun d d' e e' hd hd' he he' horder => ?_⟩
  have hproblem := (Diagnostic.order_eq_iff.mp horder).2
  simp only [Diagnostic.problem, Message.shown, hd, hd', Prod.mk.injEq] at hproblem
  exact hinj e e' he he' hproblem.2.2.2

section Sample

/-- An explanation of an explanation. -/
def sampleNested : Explanation := .node "wrong type" [.node "of a" [.node "not a number" []]]

/-- The same texts, both below the root. -/
def sampleFlat : Explanation := .node "wrong type" [.node "of a" [], .node "not a number" []]

theorem Message.flatten_sampleNested : sampleNested.AllFlush ∧ sampleFlat.AllFlush ∧
    (Message.chain sampleNested).flatten "\n" = "wrong type\n  of a\n    not a number" ∧
    (Message.chain sampleNested).flatten "\n" ≠ (Message.chain sampleFlat).flatten "\n" := by
  obtain ⟨hlines, htells, -⟩ := flatten_tells_tree
  have hnested : sampleNested.AllFlush := by
    simp only [Explanation.AllFlush, Flush]
    decide +kernel
  have hflat : sampleFlat.AllFlush := by
    simp only [Explanation.AllFlush, Flush]
    decide +kernel
  refine ⟨hnested, hflat, ?_, fun h => ?_⟩
  · rw [hlines]
    decide +kernel
  · have hsame := htells _ _ hnested hflat h
    simp [sampleNested, sampleFlat] at hsame

/-- A text that starts like an indentation hides where it stands in its tree. -/
example : (Message.chain (.node "a" [.node "x" [.node "b" []]])).flatten "\n"
    = (Message.chain (.node "a" [.node "x" [], .node "  b" []])).flatten "\n" := by decide +kernel

end Sample

end BufferCheck
