import Lineup.Watch
import Lineup.Proofs.Disk.Scan
import Lineup.Proofs.Exclusion
import Lineup.Proofs.Sort
import Lineup.Proofs.Text.Utf8

/-!
# Files that are worked on again

A directory is searched by leaving out excluded directories, and those that a build
writes to, as a whole. When a file changes later on, its path alone decides whether it
is worked on again. Both ways select the same files below a directory. A link to a
directory is not searched, although the files behind it would be accepted.
-/

namespace Lineup

namespace SourceFile

variable {name : Text}

theorem isSource_join (path : Text) (proper : Path.IsSegment name) :
    isSource (Path.join path name) = isSource name := by
  rw [isSource, Path.extension_join path proper, isSource]

theorem dot_mem_of_isSource (whole : Byte.slash ∉ name)
    (source : isSource name = true) :
    Byte.dot ∈ name := by
  by_contra missing
  have alone : Path.lastPiece name = name := by
    rw [Path.lastPiece, Path.pieces, Text.splitOn_of_not_mem whole]
    rfl
  rw [isSource, Path.extension, alone, Text.splitOn_of_not_mem missing] at source
  cases source

theorem not_foldsTo_of_dot {word : String} (absent : '.' ∉ word.toList)
    (dot : Byte.dot ∈ name) :
    foldsTo word name = false := by
  rw [foldsTo, beq_eq_false_iff_ne]
  intro same
  have member : fold '.' ∈ name.chars.map fold :=
    List.mem_map_of_mem (Text.mem_chars_of_ascii (by decide) dot)
  rw [same] at member
  exact absent member

theorem isBuildOutput_of_isSource (proper : Path.IsSegment name)
    (source : isSource name = true) :
    isBuildOutput name = false := by
  have dot := dot_mem_of_isSource proper.whole source
  rw [isBuildOutput, not_foldsTo_of_dot (by decide) dot,
    not_foldsTo_of_dot (by decide) dot]
  rfl

theorem isInBuildOutput_foldl_join (path : Text) {names : List Text}
    (proper : ∀ name ∈ names, Path.IsSegment name) :
    isInBuildOutput path (names.foldl Path.join path) = names.any isBuildOutput := by
  rw [isInBuildOutput, Path.relative?_foldl_join path proper]

end SourceFile

/-! ## Ways through directories -/

namespace Disk

/-- The names lead through directories of the disk, from the one at the given path. -/
inductive Descends (disk : Disk) : Text → List Text → Prop
  | last {path name : Text} {children : List (Text × Entry)}
      (found : disk.stat (disk.absolute path) = .ok (.directory children))
      (proper : Path.IsSegment name) : Descends disk path [name]
  | next {path name : Text} {names : List Text} {children : List (Text × Entry)}
      (found : disk.stat (disk.absolute path) = .ok (.directory children))
      (proper : Path.IsSegment name)
        (onward : Descends disk (Path.join path name) names) :
      Descends disk path (name :: names)

variable {disk : Disk} {path : Text} {names : List Text}

theorem Descends.ne_nil (descends : disk.Descends path names) : names ≠ [] := by
  cases descends with
  | last _ _ => exact List.cons_ne_nil _ _
  | next _ _ _ => exact List.cons_ne_nil _ _

theorem descends_of_get? {children : List (Text × Entry)} {leaf : Entry}
    (found : disk.stat (disk.absolute path) = .ok (.directory children))
    (there : (Entry.directory children).get? names = some leaf)
    (isLeaf : leaf.isDirectory = false) (proper : ∀ name ∈ names, Path.IsSegment name) :
    disk.Descends path names := by
  induction names generalizing path children with
  | nil =>
      cases there
      cases isLeaf
  | cons name names ih =>
      rw [List.forall_mem_cons] at proper
      obtain ⟨child, known, below⟩ := Entry.get?_cons_eq_some_iff.mp there
      cases names with
      | nil => exact .last found proper.1
      | cons next names =>
          obtain ⟨inner, rfl⟩ := Entry.exists_of_get?_cons below
          exact .next found proper.1
            (ih (stat_absolute_join found proper.1 known) below proper.2)

end Disk

section Filter

variable {disk : Disk} {base path : Text} {entries names : List Text}

/-- What is excluded stays so all the way down. -/
theorem Exclusion.excludes_foldl_join (descends : disk.Descends path names)
    (excluded : excludes disk (ofEntries disk base entries) path = true) :
    excludes disk (ofEntries disk base entries) (names.foldl Path.join path)
      = true := by
  induction descends with
  | last found proper => exact excludes_join found proper excluded
  | next found proper _ ih => exact ih (excludes_join found proper excluded)

/-- A search that leaves out what is excluded passes along the names that lead to a
source file which is neither excluded itself nor in the output of a build. -/
theorem Entry.passes_iff (descends : disk.Descends path names) :
    Passes (Exclusion.excludes disk (Exclusion.ofEntries disk base entries)) path names
      ↔ SourceFile.isSource (names.foldl Path.join path) = true
        ∧ names.any SourceFile.isBuildOutput = false
        ∧ Exclusion.excludes disk (Exclusion.ofEntries disk base entries)
            (names.foldl Path.join path) = false := by
  induction descends with
  | @last path name _ _ proper =>
      rw [List.foldl_cons, List.foldl_nil, SourceFile.isSource_join path proper,
        List.any_cons, List.any_nil, Bool.or_false]
      constructor
      · rintro ⟨source, kept⟩
        exact ⟨source, SourceFile.isBuildOutput_of_isSource proper source, kept⟩
      · rintro ⟨source, -, kept⟩
        exact ⟨source, kept⟩
  | @next path name names _ _ proper onward ih =>
      rw [passes_cons onward.ne_nil, ih, List.foldl_cons, List.any_cons,
        Bool.or_eq_false_iff]
      constructor
      · rintro ⟨searched, -, source, below, kept⟩
        exact ⟨source, ⟨searched, below⟩, kept⟩
      · rintro ⟨source, ⟨searched, below⟩, kept⟩
        refine ⟨searched, ?_, source, below, kept⟩
        -- Were the directory excluded, so would be the file.
        rw [← Bool.not_eq_true]
        intro excluded
        rw [Exclusion.excludes_foldl_join onward excluded] at kept
        cases kept

end Filter

namespace Watch

/-- A file below a watched directory is accepted for its name, the names of the
directories on the way to it, and for not being excluded. -/
theorem accepts_foldl_join_iff (disk : Disk) (root : Text) (exclusions : List Exclusion)
    {names : List Text} (proper : ∀ name ∈ names, Path.IsSegment name) :
    accepts ⟨root, .directory, exclusions⟩ disk (names.foldl Path.join root) = true
      ↔ SourceFile.isSource (names.foldl Path.join root) = true
        ∧ names.any SourceFile.isBuildOutput = false
        ∧ Exclusion.excludes disk exclusions (names.foldl Path.join root) = false := by
  rw [accepts, SourceFile.isInBuildOutput_foldl_join root proper]
  simp only [Bool.and_eq_true, Bool.not_eq_true', and_assoc]

/-- A search of a directory finds the files below it that are accepted when they change,
and it finds none of them if the path is that of a link to the directory. The path of
the directory may be spelled in any way that does not lead elsewhere when it is
cleaned. -/
theorem mem_files_iff_accepts (disk : Disk) (root : Text) (entries : List Text)
    {children : List (Text × Entry)} {names : List Text} {leaf : Entry}
    (found : disk.stat root = .ok (.directory children))
    (same : disk.stat (disk.absolute root) = disk.stat root)
    (named : (Entry.directory children).Named)
    (there : (Entry.directory children).get? names = some leaf)
    (isLeaf : leaf.isDirectory = false) :
    let exclusions := Exclusion.ofEntries disk root entries
    let path := names.foldl Path.join root
    ∃ paths, Job.files disk exclusions root = .ok paths
      ∧ (path ∈ paths ↔ disk.linkStat root = .ok (.directory children)
        ∧ accepts ⟨root, .directory, exclusions⟩ disk path = true) := by
  intro exclusions path
  have proper := named.isSegment there
  have descends := Disk.descends_of_get? (same.trans found) there isLeaf proper
  rcases Disk.linkStat_of_stat found with itself | ⟨target, link⟩
  · refine ⟨_, by rw [Job.files, Disk.sources, itself], ?_⟩
    rw [(sortBy_perm _ _).mem_iff, Entry.mem_sourcesIn_iff named there isLeaf,
      Entry.passes_iff descends, accepts_foldl_join_iff disk root exclusions proper,
      itself]
    exact (and_iff_right rfl).symm
  · refine ⟨_, by rw [Job.files, Disk.sources, link], ?_⟩
    rw [link]
    constructor
    · intro member
      have short : path = [].foldl Path.join root :=
        ((Entry.mem_sources_leaf rfl).mp member).1
      have empty := Path.foldl_join_injective proper (List.forall_mem_nil _) short
      exact absurd empty descends.ne_nil
    · rintro ⟨itself, -⟩
      cases itself

/-- The working directory is the one above the root, a directory next to the file is
excluded, and another one holds the output of a build. -/
theorem mem_files_iff_accepts_nested :
    let file : Entry := .file ⟨[], 0o644, 0⟩
    let children : List (Text × Entry) :=
      [(utf8 "gen", .directory [(utf8 "a.cs", file)]),
        (utf8 "Obj", .directory [(utf8 "b.cs", file)]),
        (utf8 "app", .directory [(utf8 "Main.CS", file)])]
    let disk : Disk :=
      { root := .directory [(utf8 "w", .directory [(utf8 "src", .directory children)])]
        cwd := [utf8 "w"] }
    let exclusions := Exclusion.ofEntries disk (utf8 "src") [utf8 "gen"]
    disk.stat (utf8 "src") = .ok (.directory children)
      ∧ disk.stat (disk.absolute (utf8 "src")) = disk.stat (utf8 "src")
      ∧ (Entry.directory children).Named
      ∧ (Entry.directory children).get? [utf8 "app", utf8 "Main.CS"] = some file
      ∧ ∃ paths, Job.files disk exclusions (utf8 "src") = .ok paths
        ∧ (utf8 "src/app/Main.CS" ∈ paths
          ↔ disk.linkStat (utf8 "src") = .ok (.directory children)
            ∧ accepts ⟨utf8 "src", .directory, exclusions⟩ disk (utf8 "src/app/Main.CS")
              = true) := by
  intro file children disk exclusions
  have found : disk.stat (utf8 "src") = .ok (.directory children) := rfl
  have same : disk.stat (disk.absolute (utf8 "src")) = disk.stat (utf8 "src") := rfl
  have there : (Entry.directory children).get? [utf8 "app", utf8 "Main.CS"]
      = some file := rfl
  have named : (Entry.directory children).Named := by
    have inner (name : Text) (proper : Path.IsSegment name) :
        (Entry.directory [(name, file)]).Named :=
      .directory (List.forall_mem_singleton.mpr proper)
        (List.forall_mem_singleton.mpr (.file _))
    refine .directory (by decide) ?_
    rw [List.forall_mem_cons, List.forall_mem_cons, List.forall_mem_singleton]
    exact ⟨inner _ (by decide), inner _ (by decide), inner _ (by decide)⟩
  exact ⟨found, same, named, there,
    mem_files_iff_accepts disk (utf8 "src") [utf8 "gen"] found same named there rfl⟩

/-- A link to a directory is worked on as a directory, and the file behind it is
accepted, but a search does not find it. -/
theorem mem_files_iff_accepts_link :
    let children : List (Text × Entry) := [(utf8 "a.cs", .file ⟨[], 0o644, 0⟩)]
    let disk : Disk :=
      { root := .directory [(utf8 "d", .directory children),
        (utf8 "l", .link (utf8 "d"))] }
    let exclusions := Exclusion.ofEntries disk (utf8 "/l") []
    disk.mode (utf8 "/l") = .ok .directory
      ∧ disk.stat (utf8 "/l") = .ok (.directory children)
      ∧ accepts ⟨utf8 "/l", .directory, exclusions⟩ disk (utf8 "/l/a.cs") = true
      ∧ Job.files disk exclusions (utf8 "/l") = .ok [] :=
  ⟨rfl, rfl, rfl, rfl⟩

end Watch

end Lineup
