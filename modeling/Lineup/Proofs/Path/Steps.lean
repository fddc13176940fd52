import Mathlib.Data.List.DropRight
import Lineup.Proofs.Path

/-!
# Relative paths

A path that does not start at the root goes up some directories and then down by names.
Seen from two directories it is the same path exactly if the two are the same, once as
many of their last segments are dropped as the path goes up. A slash behind a path does
not change where it leads.
-/

namespace Lineup

namespace Path

variable {path cwd other : Text}

/-- How many directories a path goes up before it goes down. -/
def steps (path : Text) : Nat :=
  (segments path).count above

theorem Settled.exists_names {isRooted : Bool} {read : List Text}
    (settled : Settled isRooted read) :
    ∃ names, (∀ name ∈ names, IsSegment name)
      ∧ read = names ++ List.replicate (read.count Path.above) Path.above := by
  induction settled with
  | nil => exact ⟨[], by simp, rfl⟩
  | @name segment read proper _ ih =>
      obtain ⟨names, each, parted⟩ := ih
      refine ⟨segment :: names, List.forall_mem_cons.mpr ⟨proper, each⟩, ?_⟩
      rw [List.count_cons_of_ne proper.ne_above, List.cons_append, ← parted]
  | @above read _ steps _ _ =>
      have all : Path.above :: read = List.replicate (read.length + 1) Path.above :=
        List.eq_replicate_iff.mpr ⟨rfl, List.forall_mem_cons.mpr ⟨rfl, steps⟩⟩
      exact ⟨[], by simp, by rw [List.nil_append, all, List.count_replicate_self]⟩

theorem exists_segments_eq (path : Text) : ∃ names, (∀ name ∈ names, IsSegment name)
    ∧ segments path = List.replicate (steps path) above ++ names := by
  obtain ⟨names, each, parted⟩ := (settled_segments path).exists_names
  refine ⟨names.reverse, fun name member => each name (List.mem_reverse.mp member), ?_⟩
  rw [List.count_reverse] at parted
  rw [← List.reverse_reverse (segments path), parted, List.reverse_append,
    List.reverse_replicate]
  rfl

theorem foldl_push_above {read : List Text}
    (proper : ∀ segment ∈ read, IsSegment segment) (count : Nat) :
    (List.replicate count above).foldl (push true) read = read.drop count := by
  induction count generalizing read with
  | zero => rfl
  | succ count ih =>
      rw [List.replicate_succ, List.foldl_cons]
      cases read with
      | nil => exact (ih proper).trans List.drop_nil
      | cons segment read =>
          rw [List.forall_mem_cons] at proper
          rw [push_above true read proper.1]
          exact ih proper.2

/-- Seen from a directory, a path leads down by its names from as many directories above
as it goes up. -/
theorem exists_segments_absolute (relative : isAbsolute path = false) :
    ∃ names, ∀ cwd, isAbsolute cwd = true →
      segments (absolute cwd path) = (segments cwd).rdrop (steps path) ++ names := by
  obtain ⟨names, each, parted⟩ := exists_segments_eq path
  refine ⟨names, fun cwd rooted => ?_⟩
  have proper : ∀ segment ∈ (segments cwd).reverse, IsSegment segment :=
    fun segment member => isSegment_of_mem_segments rooted (List.mem_reverse.mp member)
  rw [segments_absolute rooted relative, parted, List.foldl_append,
    foldl_push_above proper, foldl_push each, List.reverse_append, List.reverse_reverse,
    List.rdrop_eq_reverse_drop_reverse]

/-- Where a relative path leads from two directories. -/
theorem absolute_eq_absolute_iff (rooted : isAbsolute cwd = true)
    (also : isAbsolute other = true) (relative : isAbsolute path = false) :
    absolute cwd path = absolute other path
      ↔ (segments cwd).rdrop (steps path) = (segments other).rdrop (steps path) := by
  obtain ⟨names, seen⟩ := exists_segments_absolute relative
  rw [(isClean_absolute rooted path).eq_iff (isClean_absolute also path),
    seen cwd rooted, seen other also]
  exact List.append_left_inj names

/-- Paths with the same segments are the same as seen from a directory. -/
theorem absolute_congr (rooted : isAbsolute cwd = true)
    (same : isAbsolute path = isAbsolute other)
    (equal : segments path = segments other) :
    absolute cwd path = absolute cwd other := by
  cases isRooted : isAbsolute other with
  | true =>
      rw [absolute, absolute, clean, clean, same, isRooted, equal, if_pos rfl,
        if_pos rfl]
  | false =>
      rw [(isClean_absolute rooted path).eq_iff (isClean_absolute rooted other),
        segments_absolute rooted (same.trans isRooted),
        segments_absolute rooted isRooted, equal]

theorem clean_ne_nil (path : Text) : clean path ≠ [] := by
  intro empty
  have same := congrArg segments empty
  rw [segments_clean, show segments [] = [] from rfl] at same
  rw [clean, same] at empty
  cases isRooted : isAbsolute path with
  | true => rw [isRooted] at empty; cases empty
  | false => rw [isRooted] at empty; cases empty

theorem isAbsolute_append_of_ne_nil (present : path ≠ []) (rest : Text) :
    isAbsolute (path ++ rest) = isAbsolute path := by
  cases path with
  | nil => exact absurd rfl present
  | cons byte path => rfl

theorem pieces_append_slash (path : Text) :
    pieces (path ++ [Byte.slash]) = pieces path ++ [[]] :=
  Text.splitOn_append Byte.slash path []

/-- A slash behind a path leaves its segments. -/
theorem segments_append_slash (present : path ≠ []) :
    segments (path ++ [Byte.slash]) = segments path := by
  rw [segments, isAbsolute_append_of_ne_nil present, pieces_append_slash,
    List.foldl_append]
  rfl

/-- A cleaned path does not end with a slash, unless it is the root. -/
theorem endsWith_clean_iff (path : Text) :
    (clean path).endsWith [Byte.slash] = true ↔ clean path = [Byte.slash] := by
  constructor
  · intro ends
    obtain ⟨front, spelled⟩ := List.isSuffixOf_iff_suffix.mp ends
    by_cases empty : segments path = []
    · rw [clean, empty] at ends ⊢
      cases isRooted : isAbsolute path with
      | true => rfl
      | false =>
          rw [isRooted] at ends
          cases ends
    · -- The last piece would be empty, but it is a segment.
      have named := pieces_ofSegments (isAbsolute path) empty
        fun segment member => (whole_segments path segment member).1
      rw [← clean, ← spelled, pieces_append_slash] at named
      have last : (segments path).getLast? = some [] := by
        have same := congrArg List.getLast? named
        rw [List.getLast?_concat] at same
        split at same
        · rwa [List.getLast?_cons_of_ne_nil empty, eq_comm] at same
        · exact same.symm
      exact absurd rfl (whole_segments path [] (List.mem_of_getLast? last)).2
  · intro root
    rw [root]
    rfl

end Path

end Lineup
