import Lineup.Proofs.Disk.Walks
import Lineup.Proofs.Path

/-!
# Where paths lead

A path is followed from the root or from the working directory. A clean path that leads
to a directory leads to it by its own segments, and one more name leads to what the
directory holds under it.
-/

namespace Lineup

namespace Disk

/-- A path leads to the given names. -/
def Leads (disk : Disk) (follow : Bool) (path : Text) (target : List Text) : Prop :=
  path ≠ [] ∧ disk.Reaches follow (maxLinks + 1) (start disk.cwd path)
    (route path) target

variable {disk : Disk} {follow : Bool} {path : Text}

theorem locate_eq_ok_iff {place : Place} :
    disk.locate follow path = .ok place ↔ disk.Holds place
      ∧ disk.Leads follow path place.names := by
  rw [locate, Leads]
  cases path with
  | nil => simp
  | cons byte path =>
      rw [List.isEmpty_cons, if_neg Bool.false_ne_true, walk_eq_ok_iff]
      simp

theorem locate_of_leads {target : List Text} {entry : Entry}
    (leads : disk.Leads follow path target)
    (found : disk.root.get? target = some entry) :
    disk.locate follow path = .ok (.present target entry) :=
  locate_eq_ok_iff.mpr ⟨found, leads⟩

theorem entry_of_leads {operation : String} {target : List Text} {entry : Entry}
    (leads : disk.Leads follow path target)
    (found : disk.root.get? target = some entry) :
    disk.entry operation follow path = .ok entry := by
  rw [Disk.entry, locate_of_leads leads found]

/-- The entry that an operation finds is the one that its path leads to. -/
theorem entry_eq_ok_iff {operation : String} {entry : Entry} :
    disk.entry operation follow path = .ok entry
      ↔ ∃ target, disk.Leads follow path target
      ∧ disk.root.get? target = some entry := by
  constructor
  · intro finds
    rw [Disk.entry] at finds
    cases located : disk.locate follow path with
    | error fault =>
        rw [located] at finds
        cases finds
    | ok place =>
        obtain ⟨holds, leads⟩ := locate_eq_ok_iff.mp located
        rw [located] at finds
        cases place with
        | vacant directory name => cases finds
        | present target found =>
            cases finds
            exact ⟨target, leads, holds⟩
  · rintro ⟨target, leads, found⟩
    exact entry_of_leads leads found

/-- What a path leads to is found without following a last link, or else a link is. -/
theorem linkStat_of_stat {entry : Entry} (found : disk.stat path = .ok entry) :
    disk.linkStat path = .ok entry
      ∨ ∃ target, disk.linkStat path = .ok (.link target) := by
  obtain ⟨target, leads, holds⟩ := entry_eq_ok_iff.mp found
  obtain ⟨place, reaches, is⟩ := leads.2.unfollowed (by simp [item?_of_get? holds])
  rcases is with rfl | ⟨link, seen⟩
  · exact .inl (entry_of_leads ⟨leads.1, reaches⟩ holds)
  · exact .inr ⟨link, entry_of_leads ⟨leads.1, reaches⟩ (get?_eq_link_iff.mpr seen)⟩

theorem locate_of_vacant {directory : List Text} {name : Text}
    (leads : disk.Leads follow path (directory ++ [name]))
    (vacant : disk.item? (directory ++ [name]) = none) :
    disk.locate follow path = .ok (.vacant directory name) :=
  locate_eq_ok_iff.mpr ⟨get?_eq_none_iff.mpr vacant, leads⟩

theorem exists_locate_of_leads {target : List Text}
    (leads : disk.Leads follow path target) :
    ∃ place, disk.locate follow path = .ok place ∧ place.names = target := by
  obtain ⟨place, found, rfl⟩ := exists_walk_of_reaches leads.2
  exact ⟨place, locate_eq_ok_iff.mpr ⟨(reaches_of_walk found).1, leads⟩, rfl⟩

theorem Leads.unique {target other : List Text} (leads : disk.Leads follow path target)
    (also : disk.Leads follow path other) : target = other := by
  obtain ⟨place, found, rfl⟩ := exists_locate_of_leads leads
  obtain ⟨_, again, rfl⟩ := exists_locate_of_leads also
  cases found.symm.trans again
  rfl

theorem route_ofSegments {segments : List Text} {last : Text}
    (proper : ∀ segment ∈ segments, Path.IsSegment segment)
    (segment : Path.IsSegment last) :
    route (Path.ofSegments true (segments ++ [last])) = segments ++ [last] := by
  have kept : (segments ++ [last]).filter (fun name => !name.isEmpty)
      = segments ++ [last] := by
    rw [List.filter_eq_self]
    intro name member
    rcases List.mem_append.mp member with member | member
    · simpa using (proper name member).nonempty
    · cases List.mem_singleton.mp member
      simpa using segment.nonempty
  rw [route, Path.endsWith_ofSegments segment,
    Path.pieces_ofSegments_concat proper segment.whole]
  exact kept

/-- A clean path leads to a directory by its segments. -/
theorem leads_ofSegments_iff {segments target : List Text}
    (proper : ∀ segment ∈ segments, Path.IsSegment segment)
    (inside : disk.item? target = some .directory) :
    disk.Leads true (Path.ofSegments true segments) target
      ↔ disk.Reaches true (maxLinks + 1) [] segments target := by
  have present : Path.ofSegments true segments ≠ [] := List.cons_ne_nil _ _
  have rooted : start disk.cwd (Path.ofSegments true segments) = [] := rfl
  rw [Leads, rooted, and_iff_right present]
  rcases List.eq_nil_or_concat segments with rfl | ⟨others, last, rfl⟩
  · constructor
    · exact Reaches.of_here
    · intro reaches
      cases reaches
      exact .here inside (.arrive inside)
  · rw [List.concat_eq_append, List.forall_mem_append,
      List.forall_mem_singleton] at proper
    rw [List.concat_eq_append, route_ofSegments proper.1 proper.2]

theorem isClean_absolute (disk : Disk) (path : Text) :
    Path.IsClean (disk.absolute path) :=
  Path.isClean_absolute (Path.isAbsolute_ofSegments disk.cwd) path

theorem isName_of_isSegment {segment : Text} (proper : Path.IsSegment segment) :
    IsName segment :=
  ⟨proper.ne_here, proper.ne_above⟩

section Names

variable {name : Text} {children inner : List (Text × Entry)}

theorem segments_absolute_join (disk : Disk) (path : Text)
    (proper : Path.IsSegment name) :
    Path.segments (disk.absolute (Path.join path name))
      = Path.segments (disk.absolute path) ++ [name] :=
  Path.segments_absolute_join (Path.isAbsolute_ofSegments disk.cwd) path proper

theorem exists_absolute_join (disk : Disk) (path : Text)
    (proper : Path.IsSegment name) :
    ∃ segments, (∀ segment ∈ segments, Path.IsSegment segment)
      ∧ disk.absolute path = Path.ofSegments true segments
      ∧ disk.absolute (Path.join path name)
        = Path.ofSegments true (segments ++ [name]) :=
  Path.exists_absolute_join (Path.isAbsolute_ofSegments disk.cwd) path proper

/-- A directory is found by its name in the directory it is in. -/
theorem stat_absolute_join
    (found : disk.stat (disk.absolute path) = .ok (.directory children))
    (proper : Path.IsSegment name)
    (there : children.lookup name = some (.directory inner)) :
    disk.stat (disk.absolute (Path.join path name)) = .ok (.directory inner) := by
  obtain ⟨segments, each, spelled, joined⟩ := disk.exists_absolute_join path proper
  obtain ⟨target, leads, holds⟩ := entry_eq_ok_iff.mp found
  have inside : disk.item? target = some .directory := item?_of_get? holds
  have below : disk.root.get? (target ++ [name]) = some (.directory inner) := by
    rw [Entry.get?_concat holds, there]
  have seen : disk.item? (target ++ [name]) = some .directory := item?_of_get? below
  have whole : ∀ segment ∈ segments ++ [name], Path.IsSegment segment := by
    rw [List.forall_mem_append, List.forall_mem_singleton]
    exact ⟨each, proper⟩
  rw [spelled, leads_ofSegments_iff each inside] at leads
  have reaches := (leads.child inside (isName_of_isSegment proper)).followed
    (by simp [seen])
  rw [joined]
  exact entry_of_leads ((leads_ofSegments_iff whole seen).mpr reaches) below

end Names

end Disk

end Lineup
