import Mathlib.Algebra.Order.BigOperators.Group.List
import Mathlib.Algebra.Order.Group.Nat
import Lineup.Proofs.Exclusion

/-!
# Lists of entries

What one entry excludes is what the exclusion that it asks for covers. Of the exclusions
for one path only the first is kept, so a list excludes no path that none of its entries
excludes, but an entry for a directory is lost behind an entry for the same path as a
file. A list excludes all that its entries exclude exactly if what is kept still covers
the directories, and a longer list then excludes no less.
-/

namespace Lineup

namespace Exclusion

variable {disk : Disk} {base path : Text} {entries : List Text} {exclusion : Exclusion}

/-- Each directory of a list is, or is in, a directory that is the first one for its
path. -/
def KeepsDirectories (exclusions : List Exclusion) : Prop :=
  ∀ directory ∈ exclusions, directory.isDirectory = true →
    ∃ first ∈ exclusions, IsFirst exclusions first ∧ first.isDirectory = true
      ∧ first.covers directory.path = true

instance (exclusions : List Exclusion) : Decidable (KeepsDirectories exclusions) :=
  inferInstanceAs (Decidable (∀ directory ∈ exclusions, directory.isDirectory = true →
    ∃ first ∈ exclusions, IsFirst exclusions first ∧ first.isDirectory = true
      ∧ first.covers directory.path = true))

/-! ## What entries exclude -/

theorem isClean_of_mem_asked (member : exclusion ∈ asked disk base entries) :
    Path.IsClean exclusion.path := by
  obtain ⟨entry, -, found⟩ := mem_asked.mp member
  exact isClean_of_ofText? found

theorem excludes_ofEntries : excludes disk (ofEntries disk base entries) path = true
    ↔ ∃ first, IsFirst (asked disk base entries) first
      ∧ first.covers (disk.absolute path) = true := by
  simp only [excludes, List.any_eq_true, mem_ofEntries]

theorem excludes_ofEntries_singleton {entry : Text} :
    excludes disk (ofEntries disk base [entry]) path = true
      ↔ ∃ exclusion, ofText? disk base entry = some exclusion
        ∧ exclusion.covers (disk.absolute path) = true := by
  have alone (exclusion : Exclusion) : IsFirst (asked disk base [entry]) exclusion
      ↔ ofText? disk base entry = some exclusion := by
    cases found : ofText? disk base entry with
    | none => simp [asked, found]
    | some other => simpa [asked, found, isFirst_cons] using eq_comm
  simp only [excludes_ofEntries, alone]

/-- What some entry of a list excludes is what is covered by an exclusion that the list
asks for. -/
theorem exists_excludes_singleton :
    (∃ entry ∈ entries, excludes disk (ofEntries disk base [entry]) path = true)
      ↔ ∃ exclusion ∈ asked disk base entries,
        exclusion.covers (disk.absolute path) = true := by
  simp only [excludes_ofEntries_singleton, mem_asked]
  constructor
  · rintro ⟨entry, member, exclusion, found, covers⟩
    exact ⟨exclusion, ⟨entry, member, found⟩, covers⟩
  · rintro ⟨exclusion, ⟨entry, member, found⟩, covers⟩
    exact ⟨entry, member, exclusion, found, covers⟩

/-! ## Directories that are kept -/

/-- A directory covers what an exclusion in it covers. -/
theorem covers_trans {first : Exclusion} (clean : Path.IsClean first.path)
    (isClean : Path.IsClean exclusion.path) (also : Path.IsClean path)
    (isDirectory : first.isDirectory = true)
    (outer : first.covers exclusion.path = true)
    (inner : exclusion.covers path = true) : first.covers path = true := by
  have start {path : Text} (isClean : Path.IsClean path) : first.covers path = true
      ↔ Path.segments first.path <+: Path.segments path := by
    rw [covers_iff_segments clean isClean, and_iff_right isDirectory,
      or_iff_right_of_imp]
    intro same
    exact same ▸ List.prefix_rfl
  rw [start isClean] at outer
  rw [start also]
  rcases (covers_iff_segments isClean also).mp inner with same | ⟨-, starts⟩
  · rwa [same]
  · exact outer.trans starts

theorem exists_isSegment_longer (texts : List Text) :
    ∃ name, Path.IsSegment name ∧ ∀ text ∈ texts, text.length < name.length := by
  refine ⟨List.replicate ((texts.map List.length).sum + 1) 0x61, ⟨?_, ?_, ?_, ?_⟩,
    fun text member => ?_⟩
  · exact List.cons_ne_nil _ _
  · rw [List.mem_replicate]
    exact fun slash => absurd slash.2 (by decide)
  · exact fun same => absurd (List.cons.inj same).1 (by decide)
  · exact fun same => absurd (List.cons.inj same).1 (by decide)
  · rw [List.length_replicate, Nat.lt_succ_iff]
    exact List.le_sum_of_mem (List.mem_map_of_mem member)

/-- If a list excludes all that its entries exclude, it excludes a new name in a
directory that is asked for. The exclusion that covers the name is not for the name
itself, so it is for the directory or for one above. -/
theorem keepsDirectories_of_excludes
    (each : ∀ path, (∃ entry ∈ entries, excludes disk (ofEntries disk base [entry]) path
      = true) → excludes disk (ofEntries disk base entries) path = true) :
    KeepsDirectories (asked disk base entries) := by
  intro directory member isDirectory
  have clean := isClean_of_mem_asked member
  obtain ⟨name, proper, longer⟩ :=
    exists_isSegment_longer ((asked disk base entries).map Exclusion.path)
  have isClean := Path.isClean_join clean.isAbsolute name
  have parted := Path.segments_join directory.path proper
  have new (first : Exclusion) (among : first ∈ asked disk base entries) :
      Path.join directory.path name ≠ first.path := by
    intro same
    have short := longer first.path (List.mem_map_of_mem among)
    rw [← same, ← isClean.ofSegments_segments.2, parted, Path.ofSegments_concat,
      List.length_append] at short
    omega
  have covered : directory.covers (disk.absolute (Path.join directory.path name))
      = true := by
    rw [Disk.absolute, isClean.absolute, covers_iff_segments clean isClean, parted]
    exact .inr ⟨isDirectory, List.prefix_append _ _⟩
  obtain ⟨first, isFirst, covers⟩ := excludes_ofEntries.mp
    (each _ (exists_excludes_singleton.mpr ⟨directory, member, covered⟩))
  have also := isClean_of_mem_asked isFirst.mem
  rw [Disk.absolute, isClean.absolute, covers_iff_segments also isClean] at covers
  rcases covers with same | ⟨kept, starts⟩
  · exact absurd ((isClean.eq_iff also).mpr same) (new first isFirst.mem)
  · refine ⟨first, isFirst.mem, isFirst, kept, (covers_iff_segments also clean).mpr ?_⟩
    rw [parted, List.prefix_concat_iff, ← parted] at starts
    rcases starts with same | starts
    · exact absurd ((isClean.eq_iff also).mpr same.symm) (new first isFirst.mem)
    · exact .inr ⟨kept, starts⟩

theorem excludes_of_keepsDirectories
    (keeps : KeepsDirectories (asked disk base entries))
    (member : exclusion ∈ asked disk base entries)
    (covers : exclusion.covers (disk.absolute path) = true) :
    excludes disk (ofEntries disk base entries) path = true := by
  rw [excludes_ofEntries]
  cases isDirectory : exclusion.isDirectory with
  | true =>
      obtain ⟨first, among, isFirst, kept, outer⟩ := keeps exclusion member isDirectory
      exact ⟨first, isFirst,
        covers_trans (isClean_of_mem_asked among) (isClean_of_mem_asked member)
        (disk.isClean_absolute path) kept outer covers⟩
  | false =>
      obtain ⟨first, isFirst, same⟩ := exists_isFirst member
      rw [covers_iff, isDirectory] at covers
      refine ⟨first, isFirst, covers_iff.mpr (.inl ?_)⟩
      simpa [same] using covers

/-- The entries of a list exclude what they exclude one by one exactly if the list keeps
the directories; then a list of some of the entries excludes nothing more. -/
theorem excludes_entrywise_iff (disk : Disk) (base : Text) (entries : List Text) :
    ((∀ path, excludes disk (ofEntries disk base entries) path = true
        ↔ ∃ entry ∈ entries, excludes disk (ofEntries disk base [entry]) path = true)
      ↔ KeepsDirectories (asked disk base entries))
    ∧ (KeepsDirectories (asked disk base entries) → ∀ fewer ⊆ entries, ∀ path,
        excludes disk (ofEntries disk base fewer) path = true →
          excludes disk (ofEntries disk base entries) path = true) := by
  refine ⟨⟨fun each => keepsDirectories_of_excludes fun path => (each path).mpr,
    fun keeps path => ⟨fun excluded => ?_, fun single => ?_⟩⟩,
      fun keeps fewer within path excluded => ?_⟩
  · obtain ⟨first, isFirst, covers⟩ := excludes_ofEntries.mp excluded
    exact exists_excludes_singleton.mpr ⟨first, isFirst.mem, covers⟩
  · obtain ⟨exclusion, member, covers⟩ := exists_excludes_singleton.mp single
    exact excludes_of_keepsDirectories keeps member covers
  · obtain ⟨first, isFirst, covers⟩ := excludes_ofEntries.mp excluded
    obtain ⟨entry, member, found⟩ := mem_asked.mp isFirst.mem
    exact excludes_of_keepsDirectories keeps
      (mem_asked.mpr ⟨entry, within member, found⟩) covers

/-- An entry for a directory has no effect behind an entry for the same path as a
file. -/
theorem excludes_entrywise_shadowed :
    let disk : Disk := {}
    excludes disk (ofEntries disk (utf8 "/") [utf8 "d/"]) (utf8 "/d/a.cs") = true
      ∧ excludes disk (ofEntries disk (utf8 "/") [utf8 "d", utf8 "d/"]) (utf8 "/d/a.cs")
        = false :=
  ⟨rfl, rfl⟩

end Exclusion

end Lineup
