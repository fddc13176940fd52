import Lineup.Exclusion
import Lineup.Proofs.Disk.Leads

/-!
# What is excluded

Exclusions are told from paths segment by segment. An exclusion that covers a directory
of the disk also covers what is in it, whether or not its entry was spelled as one for a
directory. So whatever is below an excluded directory is excluded as well.
-/

namespace Lineup

namespace Exclusion

variable {disk : Disk} {base : Text} {exclusion : Exclusion}

/-- The exclusions that a list of entries asks for, one by one. -/
def asked (disk : Disk) (base : Text) (entries : List Text) : List Exclusion :=
  entries.filterMap (ofText? disk base)

theorem mem_asked {entries : List Text} : exclusion ∈ asked disk base entries
    ↔ ∃ entry ∈ entries, ofText? disk base entry = some exclusion :=
  List.mem_filterMap

/-- An exclusion is the first one in a list for its path. -/
def IsFirst (exclusions : List Exclusion) (exclusion : Exclusion) : Prop :=
  exclusions.find? (·.path == exclusion.path) = some exclusion

instance (exclusions : List Exclusion) (exclusion : Exclusion) :
    Decidable (IsFirst exclusions exclusion) :=
  inferInstanceAs (Decidable
    (exclusions.find? (·.path == exclusion.path) = some exclusion))

@[simp]
theorem not_isFirst_nil (exclusion : Exclusion) : ¬ IsFirst [] exclusion := by
  intro isFirst
  cases isFirst

theorem isFirst_cons {first : Exclusion} {exclusions : List Exclusion} :
    IsFirst (first :: exclusions) exclusion
      ↔ exclusion = first ∨ first.path ≠ exclusion.path
      ∧ IsFirst exclusions exclusion := by
  by_cases same : first.path = exclusion.path
  · rw [IsFirst, List.find?_cons_of_pos (by simpa using same)]
    simp [same, eq_comm]
  · have other : exclusion ≠ first := fun equal => same (congrArg path equal.symm)
    rw [IsFirst, List.find?_cons_of_neg (by simpa using same)]
    simp [same, other, IsFirst]

theorem IsFirst.mem {exclusions : List Exclusion}
    (isFirst : IsFirst exclusions exclusion) :
    exclusion ∈ exclusions :=
  List.mem_of_find?_eq_some isFirst

/-- Each path of a list has a first exclusion. -/
theorem exists_isFirst {exclusions : List Exclusion} (member : exclusion ∈ exclusions) :
    ∃ first, IsFirst exclusions first ∧ first.path = exclusion.path := by
  induction exclusions with
  | nil => cases member
  | cons head exclusions ih =>
      by_cases same : head.path = exclusion.path
      · exact ⟨head, isFirst_cons.mpr (.inl rfl), same⟩
      · rcases List.mem_cons.mp member with rfl | later
        · exact absurd rfl same
        · obtain ⟨first, isFirst, found⟩ := ih later
          exact ⟨first, isFirst_cons.mpr (.inr ⟨found ▸ same, isFirst⟩), found⟩

theorem mem_add {kept : List Exclusion} {new : Exclusion} : exclusion ∈ add kept new
    ↔ exclusion ∈ kept ∨ (∀ other ∈ kept, other.path ≠ new.path) ∧ exclusion = new := by
  rw [add]
  split
  · rename_i known
    obtain ⟨other, member, same⟩ := List.any_eq_true.mp known
    have told : ¬ ∀ other ∈ kept, other.path ≠ new.path :=
      fun fresh => fresh other member (beq_iff_eq.mp same)
    simp [told]
  · rename_i fresh
    have each : ∀ other ∈ kept, other.path ≠ new.path := by simpa using fresh
    rw [List.mem_append, List.mem_singleton, and_iff_right each]

theorem forall_mem_add {kept : List Exclusion} {new : Exclusion} {path : Text} :
    (∀ other ∈ add kept new, other.path ≠ path)
      ↔ (∀ other ∈ kept, other.path ≠ path) ∧ new.path ≠ path := by
  rw [add]
  split
  · rename_i known
    obtain ⟨other, member, same⟩ := List.any_eq_true.mp known
    rw [← beq_iff_eq.mp same]
    exact ⟨fun each => ⟨each, each other member⟩, And.left⟩
  · rw [List.forall_mem_append, List.forall_mem_singleton]

/-- What is kept when exclusions are added: what was there, and of the others the first
one for each new path. -/
theorem mem_foldl_add {new kept : List Exclusion} : exclusion ∈ new.foldl add kept
    ↔ exclusion ∈ kept ∨ (∀ other ∈ kept, other.path ≠ exclusion.path)
    ∧ IsFirst new exclusion := by
  induction new generalizing kept with
  | nil => simp
  | cons first new ih =>
      have first_iff : (∀ other ∈ kept, other.path ≠ first.path) ∧ exclusion = first
          ↔ (∀ other ∈ kept, other.path ≠ exclusion.path) ∧ exclusion = first :=
        and_congr_left fun equal => by rw [equal]
      rw [List.foldl_cons, ih, mem_add, forall_mem_add, isFirst_cons, or_assoc,
        and_assoc, first_iff, ← and_or_left]

/-- Of the exclusions for one path, the first one that is asked for is kept. -/
theorem mem_ofEntries {entries : List Text} :
    exclusion ∈ ofEntries disk base entries
      ↔ IsFirst (asked disk base entries) exclusion := by
  rw [ofEntries, mem_foldl_add, asked]
  simp

theorem exists_of_mem_ofEntries {entries : List Text}
    (member : exclusion ∈ ofEntries disk base entries) :
    ∃ entry ∈ entries, ofText? disk base entry = some exclusion :=
  mem_asked.mp (mem_ofEntries.mp member).mem

/-- The path of an exclusion is clean. -/
theorem isClean_of_ofText? {entry : Text}
    (asked : ofText? disk base entry = some exclusion) :
    Path.IsClean exclusion.path := by
  rw [ofText?] at asked
  split at asked
  · cases asked
  · cases asked
    exact disk.isClean_absolute _

theorem isDirectory_of_ofText? {entry : Text} {children : List (Text × Entry)}
    (asked : ofText? disk base entry = some exclusion)
    (found : disk.stat exclusion.path = .ok (.directory children)) :
    exclusion.isDirectory = true := by
  rw [ofText?] at asked
  split at asked
  · cases asked
  · cases asked
    have isDirectory : disk.isDirectory _ = .ok true :=
      congrArg (Except.map Entry.isDirectory) found
    rw [isDirectory]
    exact Bool.or_true _

theorem covers_iff {path : Text} : exclusion.covers path = true
    ↔ path = exclusion.path ∨ exclusion.isDirectory = true
    ∧ exclusion.below <+: path := by
  rw [covers, Bool.or_eq_true, beq_iff_eq, Bool.and_eq_true, Text.startsWith,
    List.isPrefixOf_iff_prefix]

theorem below_ofSegments {segments : List Text}
    (proper : ∀ segment ∈ segments, Path.IsSegment segment)
    (same : exclusion.path = Path.ofSegments true segments) :
    exclusion.below = Path.lead segments := by
  rw [below, same]
  rcases List.eq_nil_or_concat segments with rfl | ⟨others, last, rfl⟩
  · rfl
  · rw [List.concat_eq_append] at proper ⊢
    rw [Path.endsWith_ofSegments (proper last (by simp)), Path.lead]
    simp

/-- A clean path is covered if its segments are those of the exclusion, or, for a
directory, start with them. -/
theorem covers_iff_segments {path : Text} (clean : Path.IsClean exclusion.path)
    (isClean : Path.IsClean path) : exclusion.covers path = true
      ↔ Path.segments path = Path.segments exclusion.path
        ∨ exclusion.isDirectory = true
          ∧ Path.segments exclusion.path <+: Path.segments path := by
  obtain ⟨proper, spelled⟩ := clean.ofSegments_segments
  obtain ⟨each, same⟩ := isClean.ofSegments_segments
  rw [covers_iff, below_ofSegments proper spelled.symm, isClean.eq_iff clean]
  constructor
  · rintro (equal | ⟨isDirectory, starts⟩)
    · exact .inl equal
    · rw [← same] at starts
      exact .inr ⟨isDirectory, Path.prefix_of_lead proper (fun segment member =>
        (each segment member).whole) starts⟩
  · rintro (equal | ⟨isDirectory, more, starts⟩)
    · exact .inl equal
    · cases more with
      | nil => exact .inl (starts.symm.trans (List.append_nil _))
      | cons name more =>
          refine .inr ⟨isDirectory, (Path.lead_prefix_concat _ name).trans ?_⟩
          have longer := Path.ofSegments_prefix_append
            (Path.segments exclusion.path ++ [name]) more
          rwa [← List.append_cons, starts, same] at longer

/-- The names in a directory of the disk that is excluded are excluded. -/
theorem excludes_join {entries : List Text} {path name : Text}
    {children : List (Text × Entry)}
    (found : disk.stat (disk.absolute path) = .ok (.directory children))
    (proper : Path.IsSegment name)
    (excluded : excludes disk (ofEntries disk base entries) path = true) :
    excludes disk (ofEntries disk base entries) (Path.join path name) = true := by
  rw [excludes, List.any_eq_true] at excluded ⊢
  obtain ⟨exclusion, member, covers⟩ := excluded
  obtain ⟨entry, -, asked⟩ := exists_of_mem_ofEntries member
  have isDirectory : exclusion.isDirectory = true := by
    rcases covers_iff.mp covers with same | ⟨isDirectory, -⟩
    · rw [same] at found
      exact isDirectory_of_ofText? asked found
    · exact isDirectory
  refine ⟨exclusion, member, ?_⟩
  have clean := isClean_of_ofText? asked
  rw [covers_iff_segments clean (disk.isClean_absolute _)] at covers ⊢
  rw [disk.segments_absolute_join path proper]
  refine .inr ⟨isDirectory, List.IsPrefix.trans ?_ (List.prefix_append _ [name])⟩
  rcases covers with same | ⟨-, starts⟩
  · exact same ▸ List.prefix_rfl
  · exact starts

end Exclusion

end Lineup
