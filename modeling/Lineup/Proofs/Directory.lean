import Lineup.Proofs.Disk.Rewriting
import Lineup.Proofs.Run

/-!
# Directory runs

A run over a directory either fails before anything is written, or reports what would
change, or writes every file that changes. In the last case each selected path reads as
the reorganized form of what it read before, and nothing else on the disk has changed.
-/

namespace Lineup

/-! ## The selected files -/

namespace Entry

mutual

theorem isClean_sources (skip : Text → Bool) {path : Text} (isClean : Path.IsClean path)
    (name : Text) :
    (entry : Entry) → ∀ found ∈ entry.sources skip path name, Path.IsClean found
  | .directory children => by
      rw [sources]
      split
      · simp
      · exact isClean_sourcesIn skip isClean children
  | .file _ => by
      rw [sources]
      split
      · simpa using isClean
      · simp
  | .link _ => by
      rw [sources]
      split
      · simpa using isClean
      · simp

theorem isClean_sourcesIn (skip : Text → Bool) {path : Text}
    (isClean : Path.IsClean path) :
    (children : List (Text × Entry)) →
    ∀ found ∈ sourcesIn skip path children, Path.IsClean found
  | [] => by simp [sourcesIn]
  | (name, entry) :: rest => by
      rw [sourcesIn, List.forall_mem_append]
      exact ⟨isClean_sources skip (Path.isClean_join isClean.isAbsolute name)
        name entry, isClean_sourcesIn skip isClean rest⟩

end

end Entry

namespace Disk

variable {disk : Disk} {path : Text}

theorem sources_ascending {skip : Text → Bool} {root : Text} {paths : List Text}
    (isClean : Path.IsClean root) (found : disk.sources skip root = .ok paths) :
    paths.Pairwise (fun left right => (compare left right).isLE = true)
      ∧ ∀ path ∈ paths, Path.IsClean path := by
  have single (entry : Entry) (leaf : ∀ children, entry ≠ .directory children) :
      (entry.sources skip root (Path.base root)).Pairwise fun left right =>
        (compare left right).isLE = true := by
    cases entry with
    | directory children => exact absurd rfl (leaf children)
    | file _ =>
        rw [Entry.sources]
        split <;> simp
    | link _ =>
        rw [Entry.sources]
        split <;> simp
  rw [sources] at found
  cases stat : disk.linkStat root with
  | error error =>
      rw [stat] at found
      cases found
  | ok entry =>
      rw [stat] at found
      cases entry with
      | directory children =>
          cases found
          refine ⟨sortBy_pairwise_of_cmp compare _, fun path member => ?_⟩
          exact Entry.isClean_sourcesIn skip isClean children path
            ((sortBy_perm _ _).subset member)
      | file _ =>
          cases found
          exact ⟨single _ nofun, Entry.isClean_sources skip isClean _ _⟩
      | link _ =>
          cases found
          exact ⟨single _ nofun, Entry.isClean_sources skip isClean _ _⟩

theorem read_eq_ok_iff {data : Text} :
    disk.read path = .ok data
      ↔ ∃ target mode, disk.Leads true path target
      ∧ disk.item? target = some (.file data mode) := by
  constructor
  · intro reads
    rw [read] at reads
    split at reads
    · rename_i file found
      cases reads
      obtain ⟨target, leads, holds⟩ := entry_eq_ok_iff.mp found
      exact ⟨target, file.mode, leads, item?_of_get? holds⟩
    · cases reads
    · cases reads
  · rintro ⟨target, mode, leads, seen⟩
    obtain ⟨id, found⟩ := get?_of_file seen
    rw [read, entry_of_leads leads found]

theorem map_modeOf_stat {target : List Text} {data : Text} {mode : Nat}
    (leads : disk.Leads true path target)
    (seen : disk.item? target = some (.file data mode)) :
    (disk.stat path).map modeOf = .ok (mode % 0o1000) := by
  obtain ⟨id, found⟩ := get?_of_file seen
  rw [stat, entry_of_leads leads found]
  rfl

theorem source_of_read {data : Text} (isClean : Path.IsClean path)
    (reads : disk.read path = .ok data)
    (unlocked : ∀ entry, disk.linkStat (lockPath path) ≠ .ok entry) :
    ∃ place mode, disk.Source path place data mode := by
  obtain ⟨target, mode, leads, seen⟩ := read_eq_ok_iff.mp reads
  obtain ⟨segments, proper, rfl⟩ := isClean
  rcases List.eq_nil_or_concat segments with rfl | ⟨segments, name, rfl⟩
  · -- The root itself is a directory.
    have root := leads.2.of_here
    cases root
    exact nomatch seen.symm.trans leads.2.inside
  rw [List.concat_eq_append, List.forall_mem_append, List.forall_mem_singleton] at *
  have reaches := leads.2
  rw [route_ofSegments proper.1 proper.2] at reaches
  obtain ⟨directory, reaches, inside⟩ := reaches.parent (isName_of_isSegment proper.2)
  have sits : disk.Sits (Path.ofSegments true (segments ++ [name])) directory name :=
    ⟨inside, proper.2, segments, proper.1, rfl, reaches⟩
  refine ⟨directory ++ [name], mode, ⟨target, leads, seen⟩, directory, name, sits,
    rfl, ?_⟩
  rw [← get?_eq_none_iff]
  cases there : disk.root.get? (directory ++ [name ++ utf8 ".lock"]) with
  | none => rfl
  | some entry => exact absurd (entry_of_leads sits.lock.leads there) (unlocked entry)

end Disk

namespace Job

open Run

variable (job : Job)

/-- The files that a run over a directory works on. -/
def selected (disk : Disk) : Except FileError (List Text) :=
  let root := disk.absolute job.input
  files disk (Exclusion.ofEntries disk root job.exclude) root

/-- The paths whose files change. -/
def changing (disk : Disk) (paths : List Text) : List Text :=
  paths.filter fun path => job.reorganized (dataOf disk path) != dataOf disk path

/-! ## Reporting and writing -/

theorem does_forM_say (outcomes : List Outcome) (disk : Disk) :
    Does (outcomes.forM fun outcome => say outcome.path) disk (.ok ()) disk
      (outcomes.flatMap fun outcome => outcome.path ++ [Byte.lineFeed]) := by
  induction outcomes with
  | nil => exact does_pure () disk
  | cons outcome outcomes ih => exact (does_say outcome.path disk).bind ih

/-- What a dry run shows: the paths that change, one on each line. -/
def report (changed : List Text) : Text :=
  if changed.isEmpty then utf8 "all files ok" ++ [Byte.lineFeed]
  else changed.flatMap fun path => path ++ [Byte.lineFeed]

theorem does_reportChanges (paths : List Text) (disk : Disk) :
    Does (reportChanges (paths.map fun path => job.outcome path (dataOf disk path)))
      disk (if (job.changing disk paths).isEmpty then .ok () else .error .changesFound)
      disk (report (job.changing disk paths)) := by
  have changed : (paths.map fun path => job.outcome path (dataOf disk path)).filter
      Outcome.isChanged
      = (job.changing disk paths).map fun path =>
        job.outcome path (dataOf disk path) := by
    rw [List.filter_map]
    rfl
  rw [reportChanges, changed]
  have shows := does_forM_say ((job.changing disk paths).map fun path =>
    job.outcome path (dataOf disk path)) disk
  rw [List.flatMap_map] at shows
  cases all : job.changing disk paths with
  | nil =>
      rw [all] at shows
      exact shows.bind (does_say _ disk)
  | cons path rest =>
      rw [all] at shows
      rw [← List.append_nil (report (path :: rest))]
      exact shows.bind (does_throw _ disk)

theorem does_write {outcome : Outcome} {disk later : Disk}
    (written : disk.overwrite outcome.path outcome.output = (later, .ok true)) :
    Does (write outcome) disk (.ok ()) later [] := by
  refine does_get fun session same => ?_
  rw [same, written]
  refine (does_disk disk later).andThen ?_
  exact (does_pure () later).andThen (does_log _ _ later)

/-- Files that change are written, one after the other. -/
theorem does_forM_settle {before current : Disk} {done paths : List Text}
    (coherent : ∀ id ∈ before.locked, id < before.nextId)
    (sources : ∀ path ∈ paths, ∃ place data mode, before.Source path place data mode)
    (rewritten : Disk.Rewritten job.reorganized before current done) :
    ∃ after,
      Does ((paths.map fun path => job.outcome path (dataOf before path)).forM settle)
        current (.ok ()) after []
      ∧ Disk.Rewritten job.reorganized before after
        (done ++ job.changing before paths) := by
  induction paths generalizing current done with
  | nil => exact ⟨current, does_pure () current, by simpa [changing] using rewritten⟩
  | cons path paths ih =>
      rw [List.forall_mem_cons] at sources
      obtain ⟨⟨place, data, mode, source⟩, later⟩ := sources
      have reads : dataOf before path = data := by
        obtain ⟨target, leads, seen⟩ := source.leads
        exact dataOf_eq (Disk.read_eq_ok_iff.mpr ⟨target, mode, leads, seen⟩)
      rw [List.map_cons, changing, List.filter_cons, reads]
      cases changes : job.reorganized data != data with
      | true =>
          obtain ⟨next, written, onward⟩ := rewritten.step source coherent
          obtain ⟨after, does, all⟩ := ih later onward
          have first : Does (settle (job.outcome path data)) current (.ok ()) next
              [] := by
            rw [settle, outcome, changes]
            exact does_write written
          rw [List.append_assoc] at all
          exact ⟨after, first.andThen does, all⟩
      | false =>
          obtain ⟨after, does, all⟩ := ih later rewritten
          have first : Does (settle (job.outcome path data)) current (.ok ()) current
              [] := by
            rw [settle, outcome, changes]
            exact does_log _ _ current
          exact ⟨after, first.andThen does, all⟩

/-! ## The whole run -/

/-- A run over a directory goes on to work on the selected files. -/
theorem does_runDirectory {disk after : Disk} {paths : List Text}
    {result : Except RunError Unit} {shown : Text}
    (selects : job.selected disk = .ok paths)
    (onward : Does (job.processFiles paths >>= fun outcomes =>
      showStats job (outcomes.map Outcome.stats) >>= fun _ =>
        if job.isDryRun then reportChanges outcomes
        else outcomes.forM settle) disk result after shown) :
    Does job.runDirectory disk result after shown := by
  refine does_get fun session same => ?_
  rw [selected] at selects
  rw [same]
  dsimp only
  rw [selects]
  refine (does_orFail_ok _ paths disk).andThen ?_
  split
  · exact (does_log _ _ disk).andThen onward
  · exact (does_log _ _ disk).andThen onward

/-- The run cannot get to its end: it is cancelled, or a file cannot be read. -/
def Fails (disk : Disk) (paths : List Text) : Prop :=
  job.IsStopped ∨ ∃ path ∈ paths, ¬ IsReadable disk path

/-- Every selected path reads as what becomes of its file, which keeps its access
rights. Nothing but what is at these paths is changed, made or removed. -/
structure Writes (paths : List Text) (before after : Disk) : Prop where
  reads : ∀ path ∈ paths, ∀ data, before.read path = .ok data →
    after.read path = .ok (job.reorganized data)
      ∧ (after.stat path).map Disk.modeOf = (before.stat path).map Disk.modeOf
  kept : ∀ names, (∀ path ∈ paths, ∀ place, before.locate false path = .ok place →
    place.names ≠ names) → after.item? names = before.item? names

/-- What a run over a directory with the given selected files does to a disk, what it
shows, and how it ends. -/
structure Settles (paths : List Text) (before after : Disk)
    (result : Except RunError Unit) (shown : Text) : Prop where
  /-- A run that fails says why, and does nothing. -/
  failed : job.Fails before paths → after = before ∧ shown = []
    ∧ ∃ error, result = .error error
    ∧ (job.IsStopped ∧ error = .cancelled
      ∨ ∃ path ∈ paths, ∃ cause, before.read path = .error cause
      ∧ error = .unreadableFile cause)
  /-- A dry run shows what changes, and does nothing. -/
  reported : ¬ job.Fails before paths → job.isDryRun = true →
    after = before ∧ shown = report (job.changing before paths)
      ∧ result = if (job.changing before paths).isEmpty then .ok ()
        else .error .changesFound
  /-- Any other run succeeds, shows nothing, and writes the files. -/
  written : ¬ job.Fails before paths → job.isDryRun = false →
    result = .ok () ∧ shown = [] ∧ job.Writes paths before after

section Writing

variable {job} {before after : Disk} {paths : List Text}

/-- A source reads as it should once the files that change are rewritten. -/
theorem reads_of_rewritten {path : Text} {place : List Text} {data : Text} {mode : Nat}
    (source : before.Source path place data mode)
    (rewritten : Disk.Rewritten job.reorganized before after
      (job.changing before paths))
    (member : path ∈ paths) :
    after.read path = .ok (job.reorganized data)
      ∧ (after.stat path).map Disk.modeOf = (before.stat path).map Disk.modeOf := by
  obtain ⟨target, leads, seen⟩ := source.leads
  have reads := dataOf_eq (Disk.read_eq_ok_iff.mpr ⟨target, mode, leads, seen⟩)
  have later : ∃ rights, after.Source path place (job.reorganized data) rights
      ∧ rights % 0o1000 = mode % 0o1000 := by
    by_cases changes : path ∈ job.changing before paths
    · exact ⟨_, rewritten.source_of_mem source changes, Nat.mod_mod mode _⟩
    · have same : job.reorganized data = data := by
        simpa [changing, member, reads] using changes
      obtain ⟨now, rights, also, kept, either⟩ := rewritten.source source
      rw [same, or_self] at either
      rw [same, ← either]
      exact ⟨rights, also, kept⟩
  obtain ⟨rights, ⟨⟨stop, leadsNow, seenNow⟩, -⟩, kept⟩ := later
  refine ⟨Disk.read_eq_ok_iff.mpr ⟨stop, rights, leadsNow, seenNow⟩, ?_⟩
  rw [Disk.map_modeOf_stat leadsNow seenNow, Disk.map_modeOf_stat leads seen, kept]

/-- Rewriting the files that change is all there is to write. -/
theorem writes_of_rewritten
    (sources : ∀ path ∈ paths, ∃ place data mode, before.Source path place data mode)
    (rewritten : Disk.Rewritten job.reorganized before after
      (job.changing before paths)) :
    job.Writes paths before after := by
  constructor
  · intro path member data reads
    obtain ⟨place, old, mode, source⟩ := sources path member
    obtain ⟨target, leads, seen⟩ := source.leads
    cases (Disk.read_eq_ok_iff.mpr ⟨target, mode, leads, seen⟩).symm.trans reads
    exact reads_of_rewritten source rewritten member
  · intro names apart
    apply rewritten.same
    intro path member data mode source
    obtain ⟨place, found, stays⟩ := Disk.exists_locate_of_leads source.stays
    exact apart path (List.mem_of_mem_filter member) place found stays

end Writing

/-- A run over a directory works on all of the selected files before it writes any, and
writes nothing but them, in whatever order the files are worked on. -/
theorem runDirectory_settles (session : Session) {paths : List Text}
    (selects : job.selected session.disk = .ok paths)
    (scheduled : (job.schedule paths).Perm paths)
    (unlocked : ∀ path ∈ paths, ∀ entry,
      session.disk.linkStat (Disk.lockPath path) ≠ .ok entry)
    (coherent : ∀ id ∈ session.disk.locked, id < session.disk.nextId) :
    ∃ result after events, job.runDirectory.run.run session = (result, after)
      ∧ after.events = session.events ++ events
      ∧ paths.Pairwise (fun left right => (compare left right).isLE = true)
      ∧ job.Settles paths session.disk after.disk result (Event.outputOf events) := by
  obtain ⟨ascending, isClean⟩ :=
    Disk.sources_ascending (session.disk.isClean_absolute _) selects
  suffices run : ∃ result after shown,
      Does job.runDirectory session.disk result after shown
      ∧ job.Settles paths session.disk after result shown by
    obtain ⟨result, disk, shown, does, settles⟩ := run
    obtain ⟨after, ran, rfl, events, adds, rfl⟩ := does session rfl
    exact ⟨result, after, events, ran, adds, ascending, settles⟩
  by_cases fails : job.Fails session.disk paths
  · obtain ⟨error, does, cause⟩ := job.does_processFiles_of_failure scheduled fails
    refine ⟨_, _, _, job.does_runDirectory selects does.bind_error, ?_⟩
    exact ⟨fun _ => ⟨rfl, rfl, error, rfl, cause⟩, fun going => absurd fails going,
      fun going => absurd fails going⟩
  have readable : ∀ path ∈ paths, IsReadable session.disk path := by
    simpa using (not_or.mp fails).2
  have works := job.does_processFiles (not_or.mp fails).1 scheduled ascending readable
  cases dry : job.isDryRun with
  | true =>
      have does := job.does_runDirectory selects (works.andThen
        ((does_showStats job _ _).andThen (by
          rw [if_pos dry]
          exact job.does_reportChanges paths session.disk)))
      exact ⟨_, _, _, does, fun now => absurd now fails, fun _ _ => ⟨rfl, rfl, rfl⟩,
        fun _ wet => absurd (wet.symm.trans dry) Bool.false_ne_true⟩
  | false =>
      have sources : ∀ path
          ∈ paths, ∃ place data mode, session.disk.Source path place data mode := by
        intro path member
        obtain ⟨data, reads⟩ := readable path member
        obtain ⟨place, mode, source⟩ :=
          Disk.source_of_read (isClean path member) reads (unlocked path member)
        exact ⟨place, data, mode, source⟩
      obtain ⟨after, writes, rewritten⟩ :=
        job.does_forM_settle coherent sources (.refl _)
      have does := job.does_runDirectory selects (works.andThen
        ((does_showStats job _ _).andThen (by
          rw [if_neg (by simp [dry])]
          exact writes)))
      exact ⟨_, _, _, does, fun now => absurd now fails,
        fun _ now => absurd (dry.symm.trans now) Bool.false_ne_true,
        fun _ _ => ⟨rfl, rfl, writes_of_rewritten sources rewritten⟩⟩

/-- A file and a link to it are both written, although one is the other. -/
theorem runDirectory_settles_link :
    let job : Job := { input := utf8 "/w", schedule := List.reverse }
    let file : File := ⟨utf8 "class C { int b; int a; }", 0o640, 0⟩
    let session : Session := { disk :=
      { root := .directory [(utf8 "w", .directory
          [(utf8 "b.cs", .file file), (utf8 "a.cs", .link (utf8 "b.cs"))])]
        nextId := 2
        locked := [1] } }
    let paths := [utf8 "/w/a.cs", utf8 "/w/b.cs"]
    ¬ job.Fails session.disk paths ∧ job.selected session.disk = .ok paths
      ∧ (job.schedule paths).Perm paths
      ∧ (∀ path ∈ paths, ∀ entry,
        session.disk.linkStat (Disk.lockPath path) ≠ .ok entry)
      ∧ (∀ id ∈ session.disk.locked, id < session.disk.nextId)
      ∧ ∃ result after events, job.runDirectory.run.run session = (result, after)
        ∧ after.events = session.events ++ events
        ∧ paths.Pairwise (fun left right => (compare left right).isLE = true)
        ∧ job.Settles paths session.disk after.disk result (Event.outputOf events) := by
  intro job file session paths
  have going : ¬ job.Fails session.disk paths := by
    rintro (stopped | ⟨path, member, unreadable⟩)
    · exact absurd stopped (by simp [IsStopped, job])
    · rcases List.mem_pair.mp member with rfl | rfl
      · exact unreadable ⟨file.data, rfl⟩
      · exact unreadable ⟨file.data, rfl⟩
  have selects : job.selected session.disk = .ok paths := rfl
  have scheduled : (job.schedule paths).Perm paths := List.reverse_perm paths
  have unlocked : ∀ path ∈ paths, ∀ entry,
      session.disk.linkStat (Disk.lockPath path) ≠ .ok entry := by
    intro path member entry
    rcases List.mem_pair.mp member with rfl | rfl
    · exact nofun
    · exact nofun
  have coherent : ∀ id ∈ session.disk.locked, id < session.disk.nextId := by decide
  exact ⟨going, selects, scheduled, unlocked, coherent,
    job.runDirectory_settles session selects scheduled unlocked coherent⟩

end Job

end Lineup
