import Mathlib.Data.List.Chain
import Mathlib.Data.List.Infix
import Lineup.Disk.Scan
import Lineup.Proofs.Disk.Leads
import Lineup.Proofs.Path.Steps

/-!
# The nearest file above a path

A file is looked for in a directory, then in the one above it, and so on. Each directory
on the way is the one before it without its last segment, so the way ends at the root,
which is its own directory. What is found is the file in the first directory on the way
that has one.
-/

namespace Lineup

namespace Path

/-- A directory and all those above it, the nearest first and the root last. -/
def upward (path : Text) : List Text :=
  (segments path).inits.reverse.map (ofSegments true)

theorem upward_root : upward [Byte.slash] = [[Byte.slash]] := rfl

theorem join_ne_nil {path above : Text} (member : above ∈ upward path) (name : Text) :
    join above name ≠ [] := by
  obtain ⟨segments, -, rfl⟩ := List.mem_map.mp member
  exact clean_ne_nil (ofSegments true segments ++ [Byte.slash] ++ name)

theorem isClean_root : IsClean [Byte.slash] :=
  ⟨[], List.forall_mem_nil _, rfl⟩

namespace IsClean

variable {path : Text} (isClean : IsClean path)

include isClean

theorem exists_concat (below : path ≠ [Byte.slash]) :
    ∃ segments last, (∀ segment ∈ segments, IsSegment segment) ∧ IsSegment last
      ∧ path = ofSegments true (segments ++ [last]) := by
  obtain ⟨segments, proper, rfl⟩ := isClean
  cases segments using List.reverseRecOn with
  | nil => exact absurd rfl below
  | append_singleton segments last =>
      rw [List.forall_mem_append, List.forall_mem_singleton] at proper
      exact ⟨segments, last, proper.1, proper.2, rfl⟩

theorem directory : IsClean (directory path) := by
  by_cases below : path = [Byte.slash]
  · rw [below]
    exact isClean_root
  · obtain ⟨segments, last, proper, name, rfl⟩ := isClean.exists_concat below
    exact ⟨segments, proper, directory_ofSegments proper name.whole⟩

theorem length_directory_lt (below : path ≠ [Byte.slash]) :
    (Path.directory path).length < path.length := by
  obtain ⟨segments, last, proper, name, rfl⟩ := isClean.exists_concat below
  have size := List.length_pos_of_ne_nil name.nonempty
  have within := (ofSegments_prefix_lead segments).length_le
  rw [directory_ofSegments proper name.whole, ofSegments_concat, List.length_append]
  omega

theorem directory_eq_self_iff : Path.directory path = path ↔ path = [Byte.slash] := by
  constructor
  · intro same
    by_contra below
    have shorter := isClean.length_directory_lt below
    rw [same] at shorter
    exact Nat.lt_irrefl _ shorter
  · rintro rfl
    rfl

theorem upward_eq (below : path ≠ [Byte.slash]) :
    upward path = path :: upward (Path.directory path) := by
  obtain ⟨segments, last, proper, name, rfl⟩ := isClean.exists_concat below
  have all : ∀ segment ∈ segments ++ [last], IsSegment segment := by
    rw [List.forall_mem_append, List.forall_mem_singleton]
    exact ⟨proper, name⟩
  rw [directory_ofSegments proper name.whole, upward, upward, segments_ofSegments all,
    segments_ofSegments proper, List.inits_append]
  simp

end IsClean

/-- What holds of the root, and of each directory if it holds of the one that this is
in, holds of all directories. -/
theorem IsClean.climb {motive : (path : Text) → IsClean path → Prop}
    (root : motive [Byte.slash] isClean_root)
    (below : ∀ path (isClean : IsClean path), path ≠ [Byte.slash] →
      motive (Path.directory path) isClean.directory → motive path isClean)
    (path : Text) (isClean : IsClean path) : motive path isClean := by
  induction size : path.length using Nat.strong_induction_on generalizing path with
  | h size ih =>
      by_cases is : path = [Byte.slash]
      · subst is
        exact root
      · have shorter := isClean.length_directory_lt is
        exact below path isClean is (ih _ (by omega) _ isClean.directory rfl)

theorem IsClean.of_mem_upward {path directory : Text} (isClean : IsClean path)
    (member : directory ∈ upward path) : IsClean directory := by
  obtain ⟨proper, -⟩ := isClean.ofSegments_segments
  obtain ⟨front, within, rfl⟩ := List.mem_map.mp member
  rw [List.mem_reverse, List.mem_inits] at within
  exact ⟨front, fun segment among => proper segment (within.subset among), rfl⟩

/-- The way up leads from each directory to the one that it is in, which is another one
until the root is reached. -/
theorem IsClean.isChain_upward {path : Text} (isClean : IsClean path) :
    (upward path).head? = some path
      ∧ (upward path).IsChain
        (fun lower upper => Path.directory lower = upper ∧ upper ≠ lower)
      ∧ (upward path).getLast? = some [Byte.slash] := by
  induction path, isClean using climb with
  | root => exact ⟨rfl, .singleton _, rfl⟩
  | below path isClean below ih =>
      obtain ⟨first, chain, last⟩ := ih
      rw [isClean.upward_eq below]
      refine ⟨rfl, List.isChain_cons.mpr ⟨fun upper next => ?_, chain⟩, ?_⟩
      · rw [first, Option.mem_def, Option.some.injEq] at next
        rw [← next]
        exact ⟨rfl, mt isClean.directory_eq_self_iff.mp below⟩
      · rw [List.getLast?_cons, last]
        rfl

end Path

namespace Disk

/-- A path leads to something, and not to a directory. -/
def LeadsToFile (disk : Disk) (path : Text) : Prop :=
  ∃ entry, disk.stat path = .ok entry ∧ entry.isDirectory = false

theorem hasFile_iff (disk : Disk) (path : Text) :
    disk.hasFile path = true ↔ disk.LeadsToFile path := by
  rw [hasFile, LeadsToFile]
  cases disk.stat path with
  | ok entry => simp
  | error fault => simp

section Search

variable (disk : Disk) (name : Text) {directory : Text}
  (isClean : Path.IsClean directory)

include isClean

theorem nearestAbove_eq : disk.nearestAbove name directory
    = if disk.hasFile (Path.join directory name) then some (Path.join directory name)
      else if Path.directory directory = directory then none
      else disk.nearestAbove name (Path.directory directory) := by
  rw [nearestAbove]
  congr 1
  by_cases root : directory = [Byte.slash]
  · rw [root]
    rfl
  · rw [dif_pos (isClean.length_directory_lt root),
      if_neg (mt isClean.directory_eq_self_iff.mp root)]

/-- The search takes the first file on the way up. -/
theorem nearestAbove_eq_find? : disk.nearestAbove name directory
    = ((Path.upward directory).find? fun above =>
      disk.hasFile (Path.join above name)).map
      fun above => Path.join above name := by
  induction directory, isClean using Path.IsClean.climb with
  | root =>
      rw [disk.nearestAbove_eq name Path.isClean_root,
        if_pos (Path.isClean_root.directory_eq_self_iff.mpr rfl), Path.upward_root,
        List.find?_cons]
      cases disk.hasFile (Path.join [Byte.slash] name) <;> rfl
  | below directory isClean below ih =>
      rw [disk.nearestAbove_eq name isClean,
        if_neg (mt isClean.directory_eq_self_iff.mp below), ih, isClean.upward_eq below,
        List.find?_cons]
      cases disk.hasFile (Path.join directory name) <;> rfl

end Search

/-- Looking for a file upwards from a path finds the nearest one. The search starts with
the path itself if it leads to a directory, and otherwise with the directory that it is
in. It goes up directory by directory until one is in itself, and so stops at the root.
It gives the path of the file in the first of these directories that has one, or the
empty path if none does. -/
theorem nearest_upward (disk : Disk) (name start : Text) :
    let here := disk.absolute start
    let first := if disk.isDirectory here = .ok true then here else Path.directory here
    let way := Path.upward first
    (way.head? = some first
        ∧ way.IsChain (fun lower upper => Path.directory lower = upper ∧ upper ≠ lower)
        ∧ way.getLast? = some [Byte.slash])
      ∧ disk.nearest name start = disk.nearestAbove name first
      ∧ (∀ directory ∈ way, disk.nearestAbove name directory
        = if disk.hasFile (Path.join directory name) then
            some (Path.join directory name)
          else if Path.directory directory = directory then none
          else disk.nearestAbove name (Path.directory directory))
      ∧ (∀ file, disk.nearest name start = some file ↔ ∃ nearer directory further,
        way = nearer ++ directory :: further ∧ Path.join directory name = file
          ∧ disk.LeadsToFile file
          ∧ ∀ other ∈ nearer, ¬ disk.LeadsToFile (Path.join other name))
      ∧ ((disk.nearest name start).getD [] = []
        ↔ ∀ directory ∈ way, ¬ disk.LeadsToFile (Path.join directory name)) := by
  intro here first way
  have isClean : Path.IsClean first := by
    have absolute := disk.isClean_absolute start
    simp only [first]
    split
    · exact absolute
    · exact absolute.directory
  have begins : disk.nearest name start = disk.nearestAbove name first := by
    have same : (disk.isDirectory here).toOption.getD false = true
        ↔ disk.isDirectory here = .ok true := by
      cases disk.isDirectory here with
      | ok is => simp [Except.toOption]
      | error fault => simp [Except.toOption]
    simp only [nearest, first, same, here]
  have found : disk.nearest name start
      = (way.find? fun above => disk.hasFile (Path.join above name)).map
        fun above => Path.join above name :=
    begins.trans (disk.nearestAbove_eq_find? name isClean)
  refine ⟨isClean.isChain_upward, begins, fun directory member =>
    ?_, fun file => ?_, ?_⟩
  · exact disk.nearestAbove_eq name (isClean.of_mem_upward member)
  · rw [found, Option.map_eq_some_iff]
    simp only [List.find?_eq_some_iff_append, hasFile_iff, Bool.not_eq_true',
      ← Bool.not_eq_true]
    constructor
    · rintro ⟨directory, ⟨leads, nearer, further, parted, closest⟩, rfl⟩
      exact ⟨nearer, directory, further, parted, rfl, leads, closest⟩
    · rintro ⟨nearer, directory, further, parted, rfl, leads, closest⟩
      exact ⟨directory, ⟨leads, nearer, further, parted, closest⟩, rfl⟩
  · have closest : (disk.nearest name start).getD [] = []
        ↔ disk.nearest name start = none := by
      rw [found]
      cases first : way.find? fun above => disk.hasFile (Path.join above name) with
      | none => simp
      | some directory =>
          have present := Path.join_ne_nil (List.mem_of_find?_eq_some first) name
          simpa using present
    rw [closest, found, Option.map_eq_none_iff, List.find?_eq_none]
    simp only [hasFile_iff]

/-- A directory of that name is passed by, and the path to start from need not lead
anywhere. -/
example :
    let disk : Disk :=
      { root := .directory [(utf8 "s", .file ⟨[], 0o644, 0⟩),
          (utf8 "w", .directory [(utf8 "s", .directory [])])]
        cwd := [utf8 "w"] }
    disk.nearest (utf8 "s") (utf8 "v/../u/a.cs") = some (utf8 "/s") := by
  decide +kernel

end Disk

end Lineup
