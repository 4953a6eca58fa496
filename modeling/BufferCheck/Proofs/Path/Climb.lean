import BufferCheck.Proofs.Path.Canonical
import BufferCheck.Proofs.Path.Straight

/-! Relative paths by how far they climb above where they start. A path that does not climb leads
into the directory that it is followed from; one that climbs does so only if it comes back by the
names that it climbed past. -/
namespace BufferCheck.Path

variable {directory path rel : String}

/-- How many directories above its start a relative path leads. -/
def climb (path : String) : Nat := ((names (normalize path)).takeWhile (· = "..")).length

/-- The names by which a relative path goes down from the highest place that it leads to. -/
def descent (path : String) : List String := (names (normalize path)).dropWhile (· = "..")

/-- A path leads to something in a directory, at whatever depth. -/
def Inside (directory path : String) : Prop :=
  ∃ more, more ≠ [] ∧ names path = names directory ++ more

/-- A path comes back into the directory that it is followed from: it goes down by the names that it
has climbed past, and on. -/
def Returns (directory path : String) : Prop :=
  ∃ more, more ≠ [] ∧
    descent path = (names directory).drop ((names directory).length - climb path) ++ more

theorem names_normalize_eq (path : String) :
    names (normalize path) = List.replicate (climb path) ".." ++ descent path := by
  have htake : (names (normalize path)).takeWhile (· = "..") = List.replicate (climb path) ".." :=
    List.eq_replicate_iff.mpr ⟨rfl, fun n hn => by simpa using List.mem_takeWhile_imp hn⟩
  rw [← htake, descent, List.takeWhile_append_dropWhile]

theorem dots_notMem_descent (path : String) : ".." ∉ descent path := by
  obtain ⟨up, down, he, hd, -⟩ := reduced_reduce (isRooted path) (names path)
  have hup : ∀ n ∈ List.replicate up "..", decide (n = "..") = true := fun n hn => by
    simpa using List.eq_of_mem_replicate hn
  rw [descent, names_normalize, he, List.dropWhile_append_of_pos hup]
  exact fun hm => hd ((List.dropWhile_suffix _).subset hm)

theorem climb_of_notMem (h : ".." ∉ names (normalize path)) : climb path = 0 := by
  rw [climb, List.length_eq_zero_iff, List.eq_nil_iff_forall_not_mem]
  intro n hn
  obtain rfl : n = ".." := by simpa using List.mem_takeWhile_imp hn
  exact h ((List.takeWhile_prefix _).subset hn)

/-- What a path that is followed from a directory leads to. -/
theorem names_normalize_append (hd : Straight directory) (hr : isRooted rel = false) :
    names (normalize (directory ++ "/" ++ rel))
      = (names directory).take ((names directory).length - climb rel) ++ descent rel := by
  have hrooted := isRooted_append (isRooted_append hd.rooted "/") rel
  have hreduce : reduce false (names rel) = names (normalize rel) := by
    rw [names_normalize, hr]
  rw [names_normalize, hrooted, names_append_separator, ← reduce_append_reduce, hreduce,
    names_normalize_eq, reduce_climb hd.notMem (dots_notMem_descent rel)]

theorem inside_iff_returns (hd : Straight directory) (hr : isRooted rel = false) :
    Inside directory (normalize (directory ++ "/" ++ rel)) ↔ Returns directory rel := by
  rw [Inside, names_normalize_append hd hr]
  refine exists_congr fun more => and_congr_right fun _ => ?_
  conv_lhs =>
    rhs
    rw [← List.take_append_drop ((names directory).length - climb rel) (names directory)]
  rw [List.append_assoc, List.append_cancel_left_eq]

end BufferCheck.Path
