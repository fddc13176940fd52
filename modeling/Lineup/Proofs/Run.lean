import Lineup.Proofs.Sort
import Lineup.Run

/-!
# Following a run

What a part of a run does is told by the disk it starts on, its result, the disk it
leaves and what it writes to standard output; the log plays no part in any of them.
Parts are put together by the rules below, and the work on the files of a directory
leaves the disk alone.
-/

namespace Lineup

namespace Event

theorem outputOf_append (events later : List Event) :
    outputOf (events ++ later) = outputOf events ++ outputOf later :=
  List.flatMap_append

end Event

namespace Run

variable {α β : Type}

/-- Started on the disk `before`, the action ends with the result on the disk `after`,
and has written `shown` to standard output. -/
def Does (action : Run α) (before : Disk) (result : Except RunError α) (after : Disk)
    (shown : Text) : Prop :=
  ∀ session : Session, session.disk = before →
    ∃ later, action.run.run session = (result, later) ∧ later.disk = after
      ∧ ∃ events, later.events = session.events ++ events
      ∧ Event.outputOf events = shown

variable {action : Run α} {next : α → Run β} {before between after : Disk}
  {shown later : Text}

theorem run_bind (action : Run α) (next : α → Run β) (session : Session) :
    (action >>= next).run.run session
      = match action.run.run session with
        | (.ok value, later) => (next value).run.run later
        | (.error error, later) => (.error error, later) := by
  simp only [ExceptT.run_bind, StateT.run_bind]
  rcases action.run.run session with ⟨_ | _, _⟩ <;> rfl

theorem does_pure (value : α) (disk : Disk) :
    Does (pure value : Run α) disk (.ok value) disk [] :=
  fun session same => ⟨session, rfl, same, [], (List.append_nil _).symm, rfl⟩

theorem does_throw (error : RunError) (disk : Disk) :
    Does (throw error : Run α) disk (.error error) disk [] :=
  fun session same => ⟨session, rfl, same, [], (List.append_nil _).symm, rfl⟩

theorem Does.bind {value : α} {result : Except RunError β}
    (first : Does action before (.ok value) between shown)
    (second : Does (next value) between result after later) :
    Does (action >>= next) before result after (shown ++ later) := by
  intro session same
  obtain ⟨middle, ran, disk, events, shows, rfl⟩ := first session same
  obtain ⟨last, onward, ends, more, adds, rfl⟩ := second middle disk
  refine ⟨last, ?_, ends, events ++ more, ?_, Event.outputOf_append events more⟩
  · rw [run_bind, ran]
    exact onward
  · rw [adds, shows, List.append_assoc]

theorem Does.andThen {value : α} {result : Except RunError β}
    (first : Does action before (.ok value) between [])
    (second : Does (next value) between result after shown) :
    Does (action >>= next) before result after shown :=
  first.bind second

theorem Does.bind_error {error : RunError}
    (first : Does action before (.error error) after shown) :
    Does (action >>= next) before (.error error) after shown := by
  intro session same
  obtain ⟨middle, ran, disk, events⟩ := first session same
  exact ⟨middle, by rw [run_bind, ran], disk, events⟩

theorem does_get {next : Session → Run β} {result : Except RunError β}
    (onward : ∀ session : Session, session.disk = before →
      Does (next session) before result after shown) :
    Does (get >>= next) before result after shown := by
  intro session same
  obtain ⟨last, ran, rest⟩ := onward session same session same
  exact ⟨last, by rw [run_bind]; exact ran, rest⟩

theorem does_disk (disk after : Disk) :
    Does (modify fun session => { session with disk := after } : Run Unit) disk (.ok ())
      after [] :=
  fun session _ => ⟨{ session with disk := after }, rfl, rfl, [],
    (List.append_nil _).symm, rfl⟩

theorem does_emit (event : Event) (disk : Disk) :
    Does (emit event) disk (.ok ()) disk (Event.outputOf [event]) :=
  fun session same =>
    ⟨{ session with events := session.events ++ [event] }, rfl, same, [event], rfl, rfl⟩

theorem does_say (line : Text) (disk : Disk) :
    Does (say line) disk (.ok ()) disk (line ++ [Byte.lineFeed]) := by
  have shows := does_emit (.output (line ++ [Byte.lineFeed])) disk
  rwa [Event.outputOf, List.flatMap_singleton] at shows

theorem does_log (level : LogLevel) (message : Text) (disk : Disk) :
    Does (log level message) disk (.ok ()) disk [] := by
  refine does_get fun session _ => ?_
  cases session.threshold with
  | none => exact does_pure () disk
  | some threshold =>
      dsimp only
      split
      · exact does_pure () disk
      · exact does_emit (.log _) disk

theorem does_showStats (job : Job) (stats : List FileStats) (disk : Disk) :
    Does (showStats job stats) disk (.ok ()) disk [] := by
  rw [showStats]
  split
  · exact does_emit (.table _) disk
  · exact does_pure () disk

theorem does_orFail_ok {ε : Type} (wrap : ε → RunError) (value : α) (disk : Disk) :
    Does (orFail wrap (.ok value)) disk (.ok value) disk [] :=
  does_pure value disk

theorem does_orFail_error {ε : Type} (wrap : ε → RunError) (error : ε) (disk : Disk) :
    Does (orFail wrap (.error error) : Run α) disk (.error (wrap error)) disk [] :=
  does_throw (wrap error) disk

end Run

namespace Job

open Run

/-- The bytes that become of a file. -/
def reorganized (job : Job) (data : Text) : Text :=
  (reorganizeData job.options data).1

/-- What becomes of a file with the given bytes. -/
def outcome (job : Job) (path data : Text) : Outcome :=
  { path
    output := job.reorganized data
    report := (reorganizeData job.options data).2
    isChanged := job.reorganized data != data }

variable (job : Job) {disk : Disk}

theorem does_processFile {path data : Text} (reads : disk.read path = .ok data) :
    Does (job.processFile path) disk (.ok (job.outcome path data)) disk [] := by
  refine does_get fun session same => ?_
  rw [same, reads]
  refine (does_orFail_ok _ data disk).andThen ?_
  rw [outcome, reorganized]
  generalize reorganizeData job.options data = done
  refine (does_log _ _ disk).andThen ?_
  dsimp only
  split
  · exact (does_log _ _ disk).andThen (does_pure _ disk)
  · exact does_pure _ disk

theorem does_processFile_of_error {path : Text} {error : FileError}
    (reads : disk.read path = .error error) :
    Does (job.processFile path) disk (.error (.unreadableFile error)) disk [] := by
  refine does_get fun session same => ?_
  rw [same, reads]
  exact (does_orFail_error _ error disk).bind_error

/-- The bytes of a file, if it can be read. -/
def dataOf (disk : Disk) (path : Text) : Text :=
  (disk.read path).toOption.getD []

theorem dataOf_eq {path data : Text} (reads : disk.read path = .ok data) :
    dataOf disk path = data := by
  rw [dataOf, reads]
  rfl

/-- The file can be read. -/
def IsReadable (disk : Disk) (path : Text) : Prop :=
  ∃ data, disk.read path = .ok data

theorem does_mapM_processFile {paths : List Text}
    (readable : ∀ path ∈ paths, IsReadable disk path) :
    Does (paths.mapM job.processFile) disk
      (.ok (paths.map fun path => job.outcome path (dataOf disk path))) disk [] := by
  induction paths with
  | nil => exact does_pure [] disk
  | cons path paths ih =>
      rw [List.forall_mem_cons] at readable
      obtain ⟨data, reads⟩ := readable.1
      rw [List.mapM_cons, List.map_cons, dataOf_eq reads]
      exact (job.does_processFile reads).andThen
        ((ih readable.2).andThen (does_pure _ disk))

theorem does_mapM_processFile_of_error {paths : List Text}
    (unreadable : ∃ path ∈ paths, ¬ IsReadable disk path) :
    ∃ path ∈ paths, ∃ error, disk.read path = .error error
      ∧ Does (paths.mapM job.processFile) disk (.error (.unreadableFile error)) disk
        [] := by
  induction paths with
  | nil => simp at unreadable
  | cons path paths ih =>
      rw [List.mapM_cons]
      cases reads : disk.read path with
      | error error =>
          refine ⟨path, List.mem_cons_self, error, reads, ?_⟩
          exact (job.does_processFile_of_error reads).bind_error
      | ok data =>
          have later : ∃ path ∈ paths, ¬ IsReadable disk path := by
            obtain ⟨other, member, fails⟩ := unreadable
            rcases List.mem_cons.mp member with rfl | member
            · exact absurd ⟨data, reads⟩ fails
            · exact ⟨other, member, fails⟩
          obtain ⟨other, member, error, fails, does⟩ := ih later
          refine ⟨other, List.mem_cons_of_mem _ member, error, fails, ?_⟩
          exact (job.does_processFile reads).andThen does.bind_error

/-- The outcomes are in the order of the paths, in whatever order the files were worked
on. -/
theorem sortBy_outcomes {scheduled paths : List Text} (perm : scheduled.Perm paths)
    (sorted : paths.Pairwise fun left right => (compare left right).isLE = true)
    (outcome : Text → Outcome) (named : ∀ path, (outcome path).path = path) :
    sortBy (fun left right => compare left.path right.path != .gt)
      (scheduled.map outcome)
      = paths.map outcome := by
  have ordered : sortBy (fun left right : Text => compare left right != .gt) scheduled
      = paths := by
    refine List.Perm.eq_of_pairwise (fun left right _ _ first second => ?_)
      (sortBy_pairwise_of_cmp compare scheduled) sorted
        ((sortBy_perm _ scheduled).trans perm)
    exact Std.LawfulEqCmp.eq_of_compare (Std.OrientedCmp.isLE_antisymm first second)
  rw [sortBy_map (fun left right => by rw [named, named]), ordered]

/-- The run is cancelled, before it starts or while files are worked on. -/
def IsStopped : Prop :=
  job.isCancelled = true ∨ job.cancelledAfter.isSome = true

theorem does_processFiles {paths : List Text} (going : ¬ job.IsStopped)
    (perm : (job.schedule paths).Perm paths)
    (sorted : paths.Pairwise fun left right => (compare left right).isLE = true)
    (readable : ∀ path ∈ paths, IsReadable disk path) :
    Does (job.processFiles paths) disk
      (.ok (paths.map fun path => job.outcome path (dataOf disk path))) disk [] := by
  obtain ⟨uncancelled, unstopped⟩ := not_or.mp going
  have endless : job.cancelledAfter = none := by simpa using unstopped
  rw [processFiles, if_neg uncancelled, endless]
  have works := job.does_mapM_processFile fun path member =>
    readable path (perm.subset member)
  rw [← sortBy_outcomes perm sorted _ fun _ => rfl]
  exact works.andThen (does_pure _ disk)

/-- A run that is cancelled or meets a file that it cannot read fails, and writes
nothing. -/
theorem does_processFiles_of_failure {paths : List Text}
    (perm : (job.schedule paths).Perm paths)
    (fails : job.IsStopped ∨ ∃ path ∈ paths, ¬ IsReadable disk path) :
    ∃ error, Does (job.processFiles paths) disk (.error error) disk []
      ∧ (job.IsStopped ∧ error = .cancelled
        ∨ ∃ path ∈ paths, ∃ cause, disk.read path = .error cause
        ∧ error = .unreadableFile cause) := by
  rw [processFiles]
  by_cases cancelled : job.isCancelled = true
  · rw [if_pos cancelled]
    exact ⟨.cancelled, (does_throw _ disk).bind_error, .inl ⟨.inl cancelled, rfl⟩⟩
  rw [if_neg cancelled]
  dsimp only
  generalize found :
      (job.cancelledAfter.map (job.schedule paths).take).getD (job.schedule paths)
    = reached
  have known : ∀ path ∈ reached, path ∈ paths := by
    intro path member
    rw [← found] at member
    cases after : job.cancelledAfter with
    | none => exact perm.subset (by simpa [after] using member)
    | some count =>
        rw [after] at member
        exact perm.subset (List.mem_of_mem_take member)
  by_cases readable : ∀ path ∈ reached, IsReadable disk path
  · -- All files were worked on, so the run must have been cancelled meanwhile.
    have stopped : job.cancelledAfter.isSome = true := by
      cases after : job.cancelledAfter with
      | some count => rfl
      | none =>
          rcases fails with (now | later) | ⟨path, member, unreadable⟩
          · exact absurd now cancelled
          · rw [after] at later
            cases later
          · rw [after] at found
            exact absurd (readable path (found ▸ perm.symm.subset member)) unreadable
    refine ⟨.cancelled, (job.does_mapM_processFile readable).andThen ?_,
      .inl ⟨.inr stopped, rfl⟩⟩
    rw [if_pos stopped]
    exact (does_throw _ disk).bind_error
  · rw [not_forall] at readable
    obtain ⟨path, unreadable⟩ := readable
    obtain ⟨other, member, cause, reads, does⟩ :=
      job.does_mapM_processFile_of_error ⟨path, Classical.not_imp.mp unreadable⟩
    exact ⟨_, does.bind_error, .inr ⟨other, known other member, cause, reads, rfl⟩⟩

end Job

end Lineup
