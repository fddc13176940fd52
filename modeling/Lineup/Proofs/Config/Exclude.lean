import Lineup.Config.File
import Lineup.Disk.Scan
import Lineup.Proofs.Exclusion
import Lineup.Proofs.Path.Steps
import Lineup.Proofs.Text.Utf8

/-!
# Exclusions of a settings file

An entry of a settings file is written as seen from the directory that the file is in.
It is put behind that directory when the file is loaded, and an exclusion is made of the
result as seen from the base of a run: the working directory for a single file, and the
input for a directory. The two together name what the file says if the path of the file
starts at the root, as that of a file that was found does, or if the base and the
working directory are alike as far as the entry leads above them. An entry for a
directory has to be the first one for its path, or else the first one has to be for a
directory too.
-/

namespace Lineup

theorem Path.trim_ne_nil {path : Text} (rooted : isAbsolute path = true) :
    path.trim ≠ [] := by
  obtain ⟨rest, rfl⟩ : ∃ rest, path = Byte.slash :: rest := by
    cases path with
    | nil => cases rooted
    | cons byte rest =>
        exact ⟨rest, by rw [show byte = Byte.slash by simpa [isAbsolute] using rooted]⟩
  have read : Utf8.read Byte.slash rest = ('/', 0) := Utf8.read_ascii (by decide) rest
  have width : Text.blankWidth 0 (Byte.slash :: rest) = 0 := by
    rw [Text.blankWidth, read]
    rfl
  have content : Text.contentWidth 0 (Byte.slash :: rest) ≠ 0 := by
    rw [Text.contentWidth, read]
    dsimp only
    cases Text.contentWidth 0 rest with
    | zero => decide
    | succ count => exact Nat.succ_ne_zero _
  obtain ⟨count, found⟩ := Nat.exists_eq_succ_of_ne_zero content
  rw [Text.trim, width, List.drop_zero, found]
  exact List.cons_ne_nil _ _

namespace Disk

variable {disk : Disk} {name directory file : Text}

theorem isAbsolute_nearestAbove (rooted : Path.isAbsolute directory = true)
    (found : disk.nearestAbove name directory = some file) :
    Path.isAbsolute file = true := by
  fun_induction nearestAbove with
  | case1 directory candidate _ =>
      rw [← Option.some.inj found]
      exact (Path.isClean_join rooted name).isAbsolute
  | case2 directory candidate _ _ ih =>
      exact ih ((Path.isAbsolute_directory directory).trans rooted) found
  | case3 => cases found

/-- A file that was looked for has a path from the root. -/
theorem isAbsolute_nearest {path : Text} (found : disk.nearest name path = some file) :
    Path.isAbsolute file = true := by
  have rooted := (disk.isClean_absolute path).isAbsolute
  refine isAbsolute_nearestAbove ?_ found
  split
  · exact rooted
  · exact (Path.isAbsolute_directory _).trans rooted

theorem isAbsolute_workingDirectory (disk : Disk) :
    Path.isAbsolute disk.workingDirectory = true :=
  Path.isAbsolute_ofSegments disk.cwd

end Disk

namespace Exclusion

variable {disk : Disk} {base : Text}

/-- Seen from a base that starts at the root, an entry that is not blank is excluded at
its path as seen from there. -/
theorem ofText?_eq (disk : Disk) (rooted : Path.isAbsolute base = true) (entry : Text) :
    ofText? disk base entry
      = if entry.trim.isEmpty then none
        else some
          { path := Path.absolute base entry
            isDirectory := entry.endsWith [Byte.slash]
              || (disk.isDirectory (Path.absolute base entry)).toOption.getD
                false } := by
  have path : disk.absolute
      (if Path.isAbsolute entry then entry else Path.join base entry)
      = Path.absolute base entry := by
    rw [Disk.absolute, Path.absolute.eq_def base]
    split
    · rename_i from_root
      rw [Path.absolute, if_pos from_root]
    · exact (Path.isClean_join rooted entry).absolute _
  rw [ofText?, path]

theorem isDirectory_of_ofText?_iff {entry : Text} {exclusion : Exclusion}
    (asks : ofText? disk base entry = some exclusion) : exclusion.isDirectory = true
      ↔ entry.endsWith [Byte.slash] = true
      ∨ disk.isDirectory exclusion.path = .ok true := by
  rw [ofText?] at asks
  split at asks
  · cases asks
  · cases asks
    rw [Bool.or_eq_true]
    apply or_congr_right
    generalize disk.isDirectory _ = answer
    cases answer with
    | error error => simp [Except.toOption]
    | ok isDirectory => simp [Except.toOption]

end Exclusion

namespace Config

namespace File

variable {base directory entry : Text}

theorem anchorEntry_eq (present : directory ≠ [])
    (relative : Path.isAbsolute entry = false) :
    Path.isAbsolute (anchorEntry directory entry) = Path.isAbsolute directory
      ∧ Path.segments (anchorEntry directory entry)
        = Path.segments (directory ++ [Byte.slash] ++ entry) := by
  have joined : Path.join directory entry
      = Path.clean (directory ++ [Byte.slash] ++ entry) := by
    rw [Path.join, if_neg (mt List.isEmpty_iff.mp present)]
  have clean := Path.clean_ne_nil (directory ++ [Byte.slash] ++ entry)
  have rooted : Path.isAbsolute (Path.clean (directory ++ [Byte.slash] ++ entry))
      = Path.isAbsolute directory := by
    rw [Path.isAbsolute_clean, List.append_assoc,
      Path.isAbsolute_append_of_ne_nil present]
  rw [anchorEntry, relative, if_neg Bool.false_ne_true, joined]
  split
  · rw [Path.isAbsolute_append_of_ne_nil clean, Path.segments_append_slash clean,
      Path.segments_clean]
    exact ⟨rooted, rfl⟩
  · rw [List.append_nil, Path.segments_clean]
    exact ⟨rooted, rfl⟩

/-- A slash at the end of an entry is kept, and none is added unless the entry leads to
the root. -/
theorem endsWith_anchorEntry_iff (present : directory ≠ []) (entry : Text) :
    (anchorEntry directory entry).endsWith [Byte.slash] = true
      ↔ entry.endsWith [Byte.slash] = true
      ∨ anchorEntry directory entry = [Byte.slash] := by
  rw [anchorEntry]
  split
  · refine ⟨.inl, fun ends => ends.elim id fun root => ?_⟩
    rw [root]
    rfl
  · split
    · rename_i ends
      exact iff_of_true (List.isSuffixOf_iff_suffix.mpr (List.suffix_append _ _))
        (.inl ends)
    · rename_i ends
      rw [List.append_nil, Path.join, if_neg (mt List.isEmpty_iff.mp present),
        or_iff_right ends]
      exact Path.endsWith_clean_iff _

/-- The first entry of a settings file in a directory that asks for a path. -/
def firstFor? (disk : Disk) (base directory : Text) (entries : List Text)
    (path : Text) :
    Option Text :=
  (entries.filter (!·.isEmpty)).find? fun entry =>
    (Exclusion.ofText? disk base (anchorEntry directory entry)).any (·.path == path)

/-- The first entry that asks for a path asks for a directory: it is spelled as one, or
it is the root, or there is a directory at the path. -/
def AsksDirectory (disk : Disk) (base directory : Text) (entries : List Text)
    (path : Text) :
    Prop :=
  ∀ first ∈ firstFor? disk base directory entries path,
    first.endsWith [Byte.slash] = true ∨ anchorEntry directory first = [Byte.slash]
      ∨ disk.isDirectory path = .ok true

instance (disk : Disk) (base directory : Text) (entries : List Text) (path : Text) :
    Decidable (AsksDirectory disk base directory entries path) :=
  inferInstanceAs (Decidable (∀ first ∈ firstFor? disk base directory entries path,
    first.endsWith [Byte.slash] = true ∨ anchorEntry directory first = [Byte.slash]
      ∨ disk.isDirectory path = .ok true))

/-- What is kept for a path is for a directory exactly if the first entry for the path
is. -/
theorem isDirectory_iff_asksDirectory {disk : Disk} {entries : List Text}
    {kept : Exclusion} (present : directory ≠ [])
    (member : kept ∈ Exclusion.ofEntries disk base
      ((entries.filter (!·.isEmpty)).map (anchorEntry directory))) :
    kept.isDirectory = true ↔ AsksDirectory disk base directory entries kept.path := by
  have isFirst := Exclusion.mem_ofEntries.mp member
  rw [Exclusion.IsFirst, Exclusion.asked, List.find?_filterMap, List.find?_map,
    Option.bind_eq_some_iff] at isFirst
  obtain ⟨anchored, mapped, asks⟩ := isFirst
  obtain ⟨first, found, rfl⟩ := Option.map_eq_some_iff.mp mapped
  have only : AsksDirectory disk base directory entries kept.path
      ↔ first.endsWith [Byte.slash] = true ∨ anchorEntry directory first = [Byte.slash]
        ∨ disk.isDirectory kept.path = .ok true := by
    have found : firstFor? disk base directory entries kept.path = some first := found
    simp [AsksDirectory, found]
  rw [only, Exclusion.isDirectory_of_ofText?_iff asks, endsWith_anchorEntry_iff present,
    or_assoc]

/-- An entry behind a directory asks for the path that it is written for exactly if it
is not blank there and the path is the same from the base as from the working
directory. -/
theorem ofText?_anchorEntry_iff {disk : Disk} (rooted : Path.isAbsolute base = true)
    (present : directory ≠ []) (relative : Path.isAbsolute entry = false) :
    (∃ exclusion,
      Exclusion.ofText? disk base (anchorEntry directory entry) = some exclusion
        ∧ exclusion.path = disk.absolute (directory ++ [Byte.slash] ++ entry))
      ↔ (anchorEntry directory entry).trim ≠ []
        ∧ Path.absolute base (directory ++ [Byte.slash] ++ entry)
          = disk.absolute (directory ++ [Byte.slash] ++ entry) := by
  have behind : Path.isAbsolute (directory ++ [Byte.slash] ++ entry)
      = Path.isAbsolute directory := by
    rw [List.append_assoc, Path.isAbsolute_append_of_ne_nil present]
  obtain ⟨same, spelled⟩ := anchorEntry_eq present relative
  have path := Path.absolute_congr rooted (same.trans behind.symm) spelled
  rw [Exclusion.ofText?_eq disk rooted]
  constructor
  · rintro ⟨exclusion, found, leads⟩
    split at found
    · cases found
    · rename_i solid
      cases found
      exact ⟨mt List.isEmpty_iff.mpr solid, path.symm.trans leads⟩
  · rintro ⟨solid, leads⟩
    rw [if_neg (mt List.isEmpty_iff.mp solid)]
    exact ⟨_, rfl, path.trans leads⟩

/-- What is kept for an entry that is for a directory is for one exactly if the first
entry for the same path is. -/
theorem kept_anchorEntry_iff {disk : Disk} {entries : List Text} {exclusion : Exclusion}
    (present : directory ≠ []) (member : entry ∈ entries) (named : entry ≠ [])
    (asks : Exclusion.ofText? disk base (anchorEntry directory entry)
      = some exclusion) :
    (∃ kept ∈ Exclusion.ofEntries disk base
        ((entries.filter (!·.isEmpty)).map (anchorEntry directory)), kept.path
          = exclusion.path
        ∧ (entry.endsWith [Byte.slash] = true → kept.isDirectory = true))
      ↔ (entry.endsWith [Byte.slash] = true →
        AsksDirectory disk base directory entries exclusion.path) := by
  constructor
  · rintro ⟨kept, among, same, isDirectory⟩ ends
    rw [← same]
    exact (isDirectory_iff_asksDirectory present among).mp (isDirectory ends)
  · intro first
    have there : anchorEntry directory entry
        ∈ (entries.filter (!·.isEmpty)).map (anchorEntry directory) :=
      List.mem_map_of_mem (List.mem_filter.mpr ⟨member, by simpa using named⟩)
    obtain ⟨kept, isFirst, same⟩ :=
      Exclusion.exists_isFirst (Exclusion.mem_asked.mpr ⟨_, there, asks⟩)
    have among := Exclusion.mem_ofEntries.mpr isFirst
    refine ⟨kept, among, same, fun ends => ?_⟩
    rw [isDirectory_iff_asksDirectory present among, same]
    exact first ends

end File

variable {disk : Disk} {file data base entry : Text} {written config : Config}

theorem exclude_of_load (read : disk.read file = .ok data)
    (holds : File.settings file data = .ok written)
    (loaded : load disk file = .ok config) :
    config.exclude = (written.exclude.filter (!·.isEmpty)).map
      (File.anchorEntry (Path.directory file)) := by
  have named : file ≠ [] := by
    rintro rfl
    cases read
  rw [load, if_neg (mt List.isEmpty_iff.mp named), read] at loaded
  change ofFile file data = .ok config at loaded
  rw [ofFile, holds] at loaded
  dsimp only at loaded
  generalize Config.validate _ = result at loaded
  cases result with
  | error error => cases loaded
  | ok valid =>
      cases loaded
      rfl

/-- An entry leads from a base to the path that it is written for exactly if the path of
the file starts at the root, or else if the entry is not blank behind the directory of
the file and the base is, as far above as the entry leads, the working directory. -/
theorem ofText?_anchored_iff (disk : Disk) (file : Text)
    (rooted : Path.isAbsolute base = true) (relative : Path.isAbsolute entry = false) :
    let wanted := Path.directory file ++ [Byte.slash] ++ entry
    let anchored := File.anchorEntry (Path.directory file) entry
    (∃ exclusion, Exclusion.ofText? disk base anchored = some exclusion
        ∧ exclusion.path = disk.absolute wanted)
      ↔ Path.isAbsolute file = true
        ∨ anchored.trim ≠ []
          ∧ (Path.segments base).rdrop (Path.steps wanted)
            = (Path.segments disk.workingDirectory).rdrop (Path.steps wanted) := by
  intro wanted anchored
  have present : Path.directory file ≠ [] := Path.clean_ne_nil _
  have leads : Path.isAbsolute wanted = Path.isAbsolute file := by
    change Path.isAbsolute (Path.directory file ++ [Byte.slash] ++ entry) = _
    rw [List.append_assoc, Path.isAbsolute_append_of_ne_nil present,
      Path.isAbsolute_directory]
  refine (File.ofText?_anchorEntry_iff rooted present relative).trans ?_
  cases from_root : Path.isAbsolute file with
  | true =>
      have behind : Path.isAbsolute anchored = true := by
        rw [(File.anchorEntry_eq present relative).1, Path.isAbsolute_directory,
          from_root]
      rw [from_root] at leads
      refine iff_of_true ⟨Path.trim_ne_nil behind, ?_⟩ (.inl rfl)
      rw [Disk.absolute, Path.absolute, Path.absolute, if_pos leads, if_pos leads]
  | false =>
      rw [or_iff_right Bool.false_ne_true, Disk.absolute,
        Path.absolute_eq_absolute_iff rooted disk.isAbsolute_workingDirectory
          (leads.trans from_root)]

/-- An entry of a settings file is excluded as the file says exactly if two things hold.
It leads to the path that it is written for: the path of the file starts at the root, or
else the entry is not blank behind the directory of the file and the base of the run is,
as far above as the entry leads, the working directory. And if it is for a directory,
then so is the first entry for the same path. Files that were looked for have paths from
the root. -/
theorem load_excludes_iff (read : disk.read file = .ok data)
    (holds : File.settings file data = .ok written)
    (loaded : load disk file = .ok config)
    (isBase : base = disk.workingDirectory ∨ ∃ input, base = disk.absolute input)
    (member : entry ∈ written.exclude) (named : entry ≠ [])
    (relative : Path.isAbsolute entry = false) :
    let wanted := Path.directory file ++ [Byte.slash] ++ entry
    let anchored := File.anchorEntry (Path.directory file) entry
    anchored ∈ config.exclude
      ∧ ((∃ exclusion, Exclusion.ofText? disk base anchored = some exclusion
            ∧ exclusion.path = disk.absolute wanted
            ∧ (entry.endsWith [Byte.slash] = true → exclusion.isDirectory = true)
            ∧ ∃ kept ∈ Exclusion.ofEntries disk base config.exclude,
              kept.path = exclusion.path
                ∧ (entry.endsWith [Byte.slash] = true → kept.isDirectory = true))
          ↔ (Path.isAbsolute file = true
              ∨ anchored.trim ≠ []
                ∧ (Path.segments base).rdrop (Path.steps wanted)
                  = (Path.segments disk.workingDirectory).rdrop (Path.steps wanted))
            ∧ (entry.endsWith [Byte.slash] = true →
              File.AsksDirectory disk base (Path.directory file) written.exclude
                (disk.absolute wanted)))
      ∧ ∀ start, disk.nearest fileName start = some file →
        Path.isAbsolute file = true := by
  intro wanted anchored
  have rooted : Path.isAbsolute base = true := by
    rcases isBase with rfl | ⟨input, rfl⟩
    · exact disk.isAbsolute_workingDirectory
    · exact (disk.isClean_absolute input).isAbsolute
  have present : Path.directory file ≠ [] := Path.clean_ne_nil _
  have placed := ofText?_anchored_iff disk file rooted relative
  rw [exclude_of_load read holds loaded]
  refine ⟨?_, ?_, fun start => Disk.isAbsolute_nearest⟩
  · exact List.mem_map_of_mem (List.mem_filter.mpr ⟨member, by simpa using named⟩)
  constructor
  · rintro ⟨exclusion, asks, path, -, kept⟩
    refine ⟨placed.mp ⟨exclusion, asks, path⟩, ?_⟩
    rw [← path]
    exact (File.kept_anchorEntry_iff present member named asks).mp kept
  · rintro ⟨leads, directory⟩
    obtain ⟨exclusion, asks, path⟩ := placed.mpr leads
    rw [← path] at directory
    refine ⟨exclusion, asks, path, fun ends => ?_,
      (File.kept_anchorEntry_iff present member named asks).mpr directory⟩
    rw [Exclusion.isDirectory_of_ofText?_iff asks,
      File.endsWith_anchorEntry_iff present]
    exact .inl (.inl ends)

/-- The settings file above the working directory, for an input beside it: the entry
leads above both, and is in front of another one for the same path. -/
theorem load_excludes_iff_beside :
    let data := utf8 "exclude: [gen/, gen]\n"
    let disk : Disk :=
      { root := .directory [(utf8 "c.yaml", .file ⟨data, 0o644, 0⟩),
        (utf8 "v", .directory []),
          (utf8 "w", .directory [])]
        cwd := [utf8 "w"] }
    let written : Config := { exclude := [utf8 "gen/", utf8 "gen"] }
    let config : Config :=
      { exclude := [utf8 "../gen/", utf8 "../gen"], path := some (utf8 "../c.yaml") }
    disk.read (utf8 "../c.yaml") = .ok data
      ∧ File.settings (utf8 "../c.yaml") data = .ok written
      ∧ load disk (utf8 "../c.yaml") = .ok config
      ∧ ∃ kept ∈ Exclusion.ofEntries disk (disk.absolute (utf8 "../v")) config.exclude,
        kept.path = utf8 "/gen" ∧ kept.isDirectory = true := by
  intro data disk written config
  have read : disk.read (utf8 "../c.yaml") = .ok data := rfl
  have holds : File.settings (utf8 "../c.yaml") data = .ok written := by decide +kernel
  have loaded : load disk (utf8 "../c.yaml") = .ok config := by decide +kernel
  have entry : utf8 "gen/" ∈ written.exclude := by decide
  obtain ⟨-, excluded, -⟩ :=
    load_excludes_iff read holds loaded (.inr ⟨utf8 "../v", rfl⟩) entry
    (by decide) (by decide)
  have directory : File.AsksDirectory disk (disk.absolute (utf8 "../v"))
      (Path.directory (utf8 "../c.yaml")) written.exclude (utf8 "/gen") := by
        decide +kernel
  obtain ⟨exclusion, -, path, -, kept, member, same, isDirectory⟩ :=
    excluded.mpr ⟨.inr ⟨by decide, by decide⟩, fun _ => directory⟩
  exact ⟨read, holds, loaded, kept, member, same.trans path, isDirectory rfl⟩

/-- With a relative path of the settings file, an entry is put behind the directory of
the file twice if that directory is also the input. -/
theorem load_excludes_iff_relative :
    let data := utf8 "exclude: [x.cs]\n"
    let disk : Disk :=
      { root := .directory [(utf8 "conf",
        .directory [(utf8 "c.yaml", .file ⟨data, 0o644, 0⟩),
          (utf8 "x.cs", .file ⟨[], 0o644, 1⟩)])] }
    let config : Config :=
      { exclude := [utf8 "conf/x.cs"], path := some (utf8 "conf/c.yaml") }
    File.settings (utf8 "conf/c.yaml") data = .ok { exclude := [utf8 "x.cs"] }
      ∧ load disk (utf8 "conf/c.yaml") = .ok config
      ∧ disk.absolute (Path.directory (utf8 "conf/c.yaml") ++ [Byte.slash]
        ++ utf8 "x.cs")
        = utf8 "/conf/x.cs"
      ∧ Exclusion.ofEntries disk (disk.absolute (utf8 "conf")) config.exclude
        = [⟨utf8 "/conf/conf/x.cs", false⟩] :=
  ⟨by decide +kernel, by decide +kernel, rfl, rfl⟩

end Config

end Lineup
