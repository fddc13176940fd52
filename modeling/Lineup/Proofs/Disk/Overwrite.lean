import Mathlib.Algebra.Order.BigOperators.Group.List
import Mathlib.Algebra.Order.Group.Nat
import Lineup.Disk.Lock
import Lineup.Proofs.Disk.Leads

/-!
# Overwriting files

A file that is overwritten is replaced where its own path leads, and nothing else on the
disk changes: neither the file of the lock nor the scratch file is left behind.
-/

namespace Lineup

namespace Disk

variable {disk : Disk} {path : Text}

/-- A clean path is of a name in the directory at the given names. -/
structure Sits (disk : Disk) (path : Text) (directory : List Text) (name : Text) :
    Prop where
  inside : disk.item? directory = some .directory
  isSegment : Path.IsSegment name
  spelled : ∃ segments, (∀ segment ∈ segments, Path.IsSegment segment)
    ∧ path = Path.ofSegments true (segments ++ [name])
    ∧ disk.Reaches true (maxLinks + 1) [] segments directory

namespace Sits

variable {directory : List Text} {name : Text}

/-- The path leads to its name in the directory, if a link there is not followed. -/
theorem leads (sits : disk.Sits path directory name) :
    disk.Leads false path (directory ++ [name]) := by
  obtain ⟨segments, proper, rfl, reaches⟩ := sits.spelled
  refine ⟨nofun, ?_⟩
  rw [route_ofSegments proper sits.isSegment]
  exact reaches.child sits.inside (isName_of_isSegment sits.isSegment)

theorem leads_directory (sits : disk.Sits path directory name) :
    disk.Leads true (Path.directory path) directory := by
  obtain ⟨segments, proper, rfl, reaches⟩ := sits.spelled
  rw [Path.directory_ofSegments proper sits.isSegment.whole]
  exact (leads_ofSegments_iff proper sits.inside).mpr reaches

/-- The file of the lock is in the same directory. -/
theorem lock (sits : disk.Sits path directory name) :
    disk.Sits (lockPath path) directory (name ++ utf8 ".lock") := by
  obtain ⟨segments, proper, rfl, reaches⟩ := sits.spelled
  have long : 5 ≤ (name ++ utf8 ".lock").length := by
    rw [List.length_append]
    exact Nat.le_add_left _ _
  refine ⟨sits.inside, ⟨?_, ?_, ?_, ?_⟩, segments, proper, ?_, reaches⟩
  · simp [sits.isSegment.nonempty]
  · rw [List.mem_append, not_or]
    exact ⟨sits.isSegment.whole, by decide⟩
  · intro same
    rw [same] at long
    exact absurd long (by decide)
  · intro same
    rw [same] at long
    exact absurd long (by decide)
  · rw [lockPath, Path.ofSegments_append]

/-- Replacing ends of ways by files does not move directories. -/
theorem patched {after : Disk} {changed : List Text → Prop}
    (sits : disk.Sits path directory name) (patched : Patched disk after changed) :
    after.Sits path directory name := by
  obtain ⟨segments, proper, spelled, reaches⟩ := sits.spelled
  refine ⟨patched.directory sits.inside, sits.isSegment, segments, proper, spelled, ?_⟩
  refine patched.reaches_of_not_file reaches ?_ fun file =>
    file.ne_directory sits.inside
  rw [sits.inside]
  simp

end Sits

/-! ## What operations do -/

theorem get?_of_file {names : List Text} {data : Text} {mode : Nat}
    (seen : disk.item? names = some (.file data mode)) :
    ∃ id, disk.root.get? names = some (.file ⟨data, mode, id⟩) := by
  rw [item?, Entry.item?, Option.map_eq_some_iff] at seen
  obtain ⟨entry, found, is⟩ := seen
  obtain ⟨id, rfl⟩ := Entry.item_eq_file_iff.mp is
  exact ⟨id, found⟩

/-- One place of a disk has been given a new look, and all else is as before. -/
structure Puts (before after : Disk) (place : List Text) (seen : Option Entry.Item) :
    Prop where
  cwd : after.cwd = before.cwd
  item : ∀ names, after.item? names = if names = place then seen else before.item? names

namespace Puts

variable {before after : Disk} {place : List Text} {seen : Option Entry.Item}

theorem self (puts : Puts before after place seen) : after.item? place = seen := by
  rw [puts.item, if_pos rfl]

theorem other (puts : Puts before after place seen) {names : List Text}
    (different : names ≠ place) :
    after.item? names = before.item? names := by
  rw [puts.item, if_neg different]

/-- A new file in place of an end. -/
theorem patched {data : Text} {mode : Nat}
    (puts : Puts before after place (some (.file data mode)))
    (isEnd : before.IsEnd place) : Patched before after (· = place) := by
  refine ⟨fun names => puts.other, ?_, ?_⟩
  · rintro names rfl
    exact ⟨data, mode, puts.self⟩
  · rintro names rfl
    exact isEnd

end Puts

variable {directory : List Text} {name : Text}

theorem puts_set {new : Option Entry} (inside : disk.item? directory = some .directory)
    (oldLeaf : disk.item? (directory ++ [name]) ≠ some .directory)
    (newLeaf : new.map Entry.item ≠ some .directory) :
    Puts disk (disk.set (directory ++ [name]) new) (directory ++ [name])
      (new.map Entry.item) :=
  ⟨rfl, item?_set inside oldLeaf newLeaf⟩

theorem puts_create (inside : disk.item? directory = some .directory)
    (oldLeaf : disk.item? (directory ++ [name]) ≠ some .directory) (data : Text)
    (mode : Nat) :
    Puts disk (disk.create (directory ++ [name]) data mode) (directory ++ [name])
      (some (.file data mode)) :=
  have newLeaf : (some (Entry.file ⟨data, mode, disk.nextId⟩)).map Entry.item
      ≠ some .directory := by
    simp [Entry.item]
  ⟨rfl, (puts_set inside oldLeaf newLeaf).item⟩

theorem unlink_nextId (disk : Disk) (path : Text) :
    (disk.unlink path).nextId = disk.nextId := by
  rw [unlink]
  split <;> rfl

theorem unlink_locked (disk : Disk) (path : Text) :
    (disk.unlink path).locked = disk.locked := by
  rw [unlink]
  split <;> rfl

theorem puts_unlink (sits : disk.Sits path directory name)
    (isFile : disk.IsFile (directory ++ [name])) :
    Puts disk (disk.unlink path) (directory ++ [name]) none := by
  obtain ⟨data, mode, seen⟩ := isFile
  obtain ⟨id, found⟩ := get?_of_file seen
  rw [unlink, locate_of_leads sits.leads found]
  exact puts_set sits.inside (by simp [seen]) nofun

theorem tryAcquire_of_free {lock : Text} (sits : disk.Sits lock directory name)
    (free : disk.item? (directory ++ [name]) = none)
    (fresh : disk.nextId ∉ disk.locked) :
    ∃ after, Lock.tryAcquire ⟨lock, none⟩ disk = .ok (⟨lock, some disk.nextId⟩, after)
      ∧ after.nextId = disk.nextId + 1 ∧ after.locked = disk.nextId :: disk.locked
      ∧ Puts disk after (directory ++ [name]) (some (.file [] Lock.mode)) := by
  have leaf : disk.item? (directory ++ [name]) ≠ some .directory := by simp [free]
  have leads : disk.Leads true lock (directory ++ [name]) :=
    ⟨sits.leads.1, sits.leads.2.followed (by simp [free])⟩
  have made := puts_create sits.inside leaf [] Lock.mode
  refine ⟨{ disk.create (directory ++ [name]) [] Lock.mode with
    locked := disk.nextId :: disk.locked }, ?_, rfl, rfl, ⟨made.cwd, made.item⟩⟩
  have unheld : (disk.create (directory ++ [name]) [] Lock.mode).locked.contains
      disk.nextId
      = false := by
    simpa [create, set] using fresh
  rw [Lock.tryAcquire, Lock.openFile, locate_of_vacant leads free]
  simp only [Lock.isHeld, Option.isSome_none, unheld]
  rfl

theorem lookup_scratchName (children : List (Text × Entry)) :
    children.lookup (scratchName children) = none := by
  rw [List.lookup_eq_none_iff]
  intro child member
  rw [bne_iff_ne]
  intro same
  have size : (scratchName children).length
      = 11 + ((children.map fun child => child.1.length).sum + 1) := by
    rw [scratchName, List.length_append, Text.fill, List.length_replicate,
      List.sum_eq_foldl]
    rfl
  have within : child.1.length ≤ (children.map fun child => child.1.length).sum :=
    List.le_sum_of_mem (List.mem_map_of_mem member)
  rw [same] at size
  omega

/-- A file is moved to a path within its directory. -/
theorem rename_of_sits (sits : disk.Sits path directory name)
    (leaf : disk.item? (directory ++ [name]) ≠ some .directory) {scratch data : Text}
    {mode : Nat} (seen : disk.item? (directory ++ [scratch]) = some (.file data mode)) :
    ∃ between after, disk.rename (directory ++ [scratch]) path = .ok after
      ∧ after.nextId = disk.nextId ∧ after.locked = disk.locked
      ∧ Puts disk between (directory ++ [scratch]) none
      ∧ Puts between after (directory ++ [name]) (some (.file data mode)) := by
  have isFile : disk.IsFile (directory ++ [scratch]) := ⟨data, mode, seen⟩
  have moved : disk.rename (directory ++ [scratch]) path
      = .ok ((disk.set (directory ++ [scratch]) none).set (directory ++ [name])
        (disk.root.get? (directory ++ [scratch]))) := by
    cases there : disk.root.get? (directory ++ [name]) with
    | none => rw [rename, locate_of_vacant sits.leads (get?_eq_none_iff.mp there)]
    | some entry =>
        rw [rename, locate_of_leads sits.leads there]
        cases entry with
        | file found => rfl
        | link target => rfl
        | directory children => exact absurd (item?_of_get? there) leaf
  have gone : (none : Option Entry).map Entry.item ≠ some .directory := nofun
  have taken := puts_set sits.inside isFile.ne_directory gone
  have inside : (disk.set (directory ++ [scratch]) none).item? directory
      = some .directory := by
    rw [taken.other (by simp), sits.inside]
  have free : (disk.set (directory ++ [scratch]) none).item? (directory ++ [name])
      ≠ some .directory := by
    rw [taken.item]
    split
    · exact gone
    · exact leaf
  have placed := puts_set inside free
    (isFile.ne_directory : (disk.root.get? _).map _ ≠ _)
  refine ⟨_, _, moved, rfl, rfl, taken, ?_⟩
  rw [← seen]
  exact placed

/-- A file is put at a path by way of a scratch file, of which nothing remains. -/
theorem replaceFile_of_sits (sits : disk.Sits path directory name)
    (leaf : disk.item? (directory ++ [name]) ≠ some .directory) (data : Text)
    (mode : Nat) :
    ∃ after, disk.replaceFile path data mode = .ok after ∧ disk.nextId ≤ after.nextId
      ∧ after.locked = disk.locked
      ∧ Puts disk after (directory ++ [name]) (some (.file data mode)) := by
  obtain ⟨children, found⟩ := item?_eq_directory_iff.mp sits.inside
  have free : disk.item? (directory ++ [scratchName children]) = none := by
    rw [item?, Entry.item?, Entry.get?_concat found, lookup_scratchName,
      Option.map_none]
  have freeLeaf : disk.item? (directory ++ [scratchName children])
      ≠ some .directory := by
    rw [free]
    intro same
    cases same
  have made := puts_create sits.inside freeLeaf data mode
  have leafStill : (disk.create (directory ++ [scratchName children]) data mode).item?
      (directory ++ [name]) ≠ some .directory := by
    rw [made.item]
    split
    · intro same
      cases same
    · exact leaf
  obtain ⟨between, after, renamed, nextId, locked, taken, placed⟩ :=
    rename_of_sits (sits.patched (made.patched (.inl free))) leafStill made.self
  refine ⟨after, ?_, ?_, locked, placed.cwd.trans (taken.cwd.trans made.cwd),
    fun names => ?_⟩
  · rw [replaceFile, locate_of_leads sits.leads_directory found]
    simp only [renamed]
  · rw [nextId]
    exact Nat.le_succ _
  · rw [placed.item, taken.item, made.item]
    -- Where the scratch file was, nothing is seen again.
    by_cases scratch : names = directory ++ [scratchName children]
    · rw [if_pos scratch, scratch, free]
    · rw [if_neg scratch, if_neg scratch]

/-- What a path that leads to a file leads to itself is an end. -/
theorem Leads.isEnd {target loc : List Text} (leads : disk.Leads true path target)
    (isFile : disk.IsFile target) (stays : disk.Leads false path loc) :
    disk.IsEnd loc := by
  rcases stays.2.linksTo leads.2 with rfl | linked
  · exact .inr (.inl isFile)
  · exact .inr (.inr ⟨target, linked, isFile⟩)

/-- Overwriting a file changes what is at its path, and nothing else. -/
theorem overwrite_of_sits (sits : disk.Sits path directory name) {target : List Text}
    {old : Text} {mode : Nat} (leads : disk.Leads true path target)
    (seen : disk.item? target = some (.file old mode))
    (free : disk.item? (directory ++ [name ++ utf8 ".lock"]) = none)
    (fresh : disk.nextId ∉ disk.locked) (data : Text) :
    ∃ after, disk.overwrite path data = (after, .ok true) ∧ disk.nextId ≤ after.nextId
      ∧ after.locked = disk.locked
      ∧ Puts disk after (directory ++ [name]) (some (.file data (mode % 0o1000))) := by
  have isEnd := leads.isEnd ⟨old, mode, seen⟩ sits.leads
  obtain ⟨id, found⟩ := get?_of_file seen
  obtain ⟨held, acquired, heldId, heldLocks, locks⟩ :=
    tryAcquire_of_free sits.lock free fresh
  have different : directory ++ [name ++ utf8 ".lock"] ≠ directory ++ [name] := by
    have named : utf8 ".lock" ≠ [] := by decide
    simp [named]
  have leaf : held.item? (directory ++ [name]) ≠ some .directory := by
    rw [locks.other different.symm]
    exact isEnd.ne_directory
  obtain ⟨replaced, replaces, laterId, laterLocks, puts⟩ :=
    replaceFile_of_sits (sits.patched (locks.patched (.inl free))) leaf data
      (mode % 0o1000)
  -- The lock is given back, and then its file is removed.
  have written : disk.overwrite path data
      = ({ replaced with locked := disk.locked }.unlink (lockPath path), .ok true) := by
    rw [overwrite, lockAndReplace, stat, entry_of_leads leads found]
    simp only [acquired, modeOf, replaces, Lock.isHeld, Lock.release, laterLocks,
      heldLocks, Option.isSome_some, if_true, List.erase_cons_head]
  have lockSeen : { replaced with locked := disk.locked }.item?
      (directory ++ [name ++ utf8 ".lock"]) = some (.file [] Lock.mode) :=
    (puts.other different).trans locks.self
  have patched : Patched disk { replaced with locked := disk.locked } fun names =>
      names = directory ++ [name ++ utf8 ".lock"] ∨ names = directory ++ [name] := by
    refine ⟨fun names => ?_, ?_, ?_⟩
    · rw [not_or]
      rintro ⟨notLock, notFile⟩
      exact (puts.other notFile).trans (locks.other notLock)
    · rintro names (rfl | rfl)
      · exact ⟨_, _, lockSeen⟩
      · exact ⟨_, _, puts.self⟩
    · rintro names (rfl | rfl)
      · exact .inl free
      · exact isEnd
  have removes := puts_unlink (sits.lock.patched patched) ⟨_, _, lockSeen⟩
  refine ⟨_, written, ?_, unlink_locked ..,
    removes.cwd.trans (puts.cwd.trans locks.cwd), ?_⟩
  · rw [heldId] at laterId
    rw [unlink_nextId]
    exact Nat.le_of_succ_le laterId
  · intro names
    rw [removes.item]
    split
    · rename_i isLock
      rw [isLock, if_neg different, free]
    · rename_i notLock
      refine (puts.item names).trans ?_
      rw [locks.other notLock]

end Disk

end Lineup
