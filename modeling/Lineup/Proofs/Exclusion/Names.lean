import Lineup.Proofs.Exclusion

/-!
# Exclusion by whole names

The texts of paths are compared byte by byte, but what counts are the names between
their slashes: an exclusion covers the path with the same names, and an excluded
directory the paths that have its names in front. So a name is never excluded for its
start only, and the root covers everything.
-/

namespace Lineup

namespace Path

variable {path : Text}

/-- The names between the slashes of a path. -/
def names (path : Text) : List Text :=
  (pieces path).filter fun piece => !piece.isEmpty

theorem isClean_iff : IsClean path ↔ isAbsolute path = true ∧ clean path = path := by
  constructor
  · intro isClean
    have same := isClean.absolute path
    rw [absolute, if_pos isClean.isAbsolute] at same
    exact ⟨isClean.isAbsolute, same⟩
  · rintro ⟨rooted, same⟩
    exact same ▸ isClean_clean rooted

theorem IsClean.names_eq (isClean : IsClean path) : names path = segments path := by
  obtain ⟨segments, proper, rfl⟩ := isClean
  rw [segments_ofSegments proper]
  cases segments with
  | nil => rfl
  | cons segment others =>
      have kept : ∀ piece ∈ segment :: others, (!piece.isEmpty) = true := by
        intro piece member
        simpa using (proper piece member).nonempty
      rw [names, pieces_ofSegments true (List.cons_ne_nil segment others)
        fun piece member => (proper piece member).whole]
      exact List.filter_eq_self.mpr kept

end Path

namespace Exclusion

variable {exclusion : Exclusion} {path : Text}

/-- A clean path is covered if it has the names of the exclusion, or, for a directory,
these names and more behind them. -/
theorem covers_iff_names (clean : Path.IsClean exclusion.path)
    (isClean : Path.IsClean path) :
    exclusion.covers path = true
      ↔ Path.names path = Path.names exclusion.path
        ∨ exclusion.isDirectory = true ∧ Path.names exclusion.path <+: Path.names path
          ∧ Path.names exclusion.path ≠ Path.names path := by
  rw [covers_iff_segments clean isClean, clean.names_eq, isClean.names_eq]
  by_cases same : Path.segments path = Path.segments exclusion.path
  · exact iff_of_true (.inl same) (.inl same)
  · rw [or_iff_right same, or_iff_right same, and_iff_left (Ne.symm same)]

/-- A path from the root is excluded exactly if, once it is cleaned, its names are those
of an exclusion or continue those of an excluded directory. -/
theorem excludes_iff_names (disk : Disk) {exclusions : List Exclusion}
    (clean : ∀ exclusion ∈ exclusions, Path.isAbsolute exclusion.path = true
      ∧ Path.clean exclusion.path = exclusion.path)
    (rooted : Path.isAbsolute path = true) :
    excludes disk exclusions path = true
      ↔ ∃ exclusion ∈ exclusions,
        Path.names (Path.clean path) = Path.names exclusion.path
          ∨ exclusion.isDirectory = true
            ∧ Path.names exclusion.path <+: Path.names (Path.clean path)
            ∧ Path.names exclusion.path ≠ Path.names (Path.clean path) := by
  have absolute : disk.absolute path = Path.clean path := by
    rw [Disk.absolute, Path.absolute, if_pos rooted]
  rw [excludes, List.any_eq_true, absolute]
  refine exists_congr fun exclusion => and_congr_right fun member => ?_
  exact covers_iff_names (Path.isClean_iff.mpr (clean exclusion member))
    (Path.isClean_clean rooted)

/-- A path that leads into an excluded directory by a detour, a directory whose name
only starts like the excluded one, and the root as an exclusion. -/
theorem excludes_iff_names_sibling :
    let disk : Disk := {}
    let exclusions : List Exclusion := [⟨utf8 "/b.cs", false⟩, ⟨utf8 "/a/gen", true⟩]
    excludes disk exclusions (utf8 "/x/..//a/./gen/b.cs") = true
      ∧ excludes disk exclusions (utf8 "/a/generated/b.cs") = false
      ∧ excludes disk [⟨utf8 "/", true⟩] (utf8 "/../c.cs") = true := by
  intro disk exclusions
  have clean : ∀ exclusion ∈ exclusions, Path.isAbsolute exclusion.path = true
      ∧ Path.clean exclusion.path = exclusion.path := by decide +kernel
  refine ⟨(excludes_iff_names disk clean rfl).mpr
    ⟨⟨utf8 "/a/gen", true⟩,
      by decide +kernel, .inr ⟨rfl, by decide +kernel, by decide +kernel⟩⟩, ?_, ?_⟩
  · refine Bool.eq_false_iff.mpr fun excluded => ?_
    exact absurd ((excludes_iff_names disk clean rfl).mp excluded) (by decide +kernel)
  · exact (excludes_iff_names disk (by decide +kernel) rfl).mpr
      ⟨⟨utf8 "/", true⟩,
        by decide +kernel, .inr ⟨rfl, by decide +kernel, by decide +kernel⟩⟩

end Exclusion

end Lineup
