import Lineup.Disk.Lock
import Lineup.Disk.Scan
import Lineup.Encoding
import Lineup.Exclusion
import Lineup.Log
import Lineup.Reorganize
import Lineup.Stats

/-!
# Runs

A run puts standard input, a single file or all source files below a directory in order,
and either writes the results or reports what would change. In a directory nothing is
written before every file has been worked on.
-/

namespace Lineup

/-- What a run works on. -/
inductive Mode where
  | console
  | file
  | directory
  deriving DecidableEq, Repr

/-- The name of a mode. -/
def Mode.name : Mode → String
  | console => "console"
  | file => "file"
  | directory => "directory"

/-- The name of the mode with a given number. -/
def Mode.nameOfNumber : Int → String
  | 0 => console.name
  | 1 => file.name
  | 2 => directory.name
  | _ => "unknown"

/-- Why a run ended without success. -/
inductive RunError where
  /-- A dry run found files that would change. -/
  | changesFound
  | missingInput
  | inputNotFound (path : Text)
  | cancelled
  | uncheckedPath (cause : FileError)
  | unreadableFile (cause : FileError)
  | unsearchable (cause : FileError)
  | unwritableFile (cause : WriteError)
  deriving DecidableEq, Repr

/-- The wording of an error. -/
def RunError.message : RunError → Text
  | changesFound => utf8 "changes found"
  | missingInput =>
      utf8 "no input: pass a file or directory, or redirect standard input"
  | inputNotFound path => utf8 "input path does not exist: " ++ path
  | cancelled => utf8 "context canceled"
  | uncheckedPath cause => utf8 "failed to check path: " ++ cause.message
  | unreadableFile cause => utf8 "failed to read file: " ++ cause.message
  | unsearchable cause => utf8 "failed to find C# files in directory: " ++ cause.message
  | unwritableFile cause => utf8 "failed to write file: " ++ cause.message

/-- Something that a run shows. -/
inductive Event where
  /-- Bytes of standard output. -/
  | output (data : Text)
  /-- A line of the log. -/
  | log (line : Text)
  /-- A summary table, shown next to the log. -/
  | table (text : Text)
  deriving DecidableEq, Repr

namespace Event

/-- What standard output receives. -/
def outputOf (events : List Event) : Text :=
  events.flatMap fun
    | output data => data
    | _ => []

/-- What the log holds. -/
def logOf (events : List Event) : Text :=
  events.flatMap fun
    | log line => line
    | _ => []

/-- The summary tables. -/
def tablesOf (events : List Event) : Text :=
  events.flatMap fun
    | table text => text
    | _ => []

end Event

/-- What a run reads and changes. -/
structure Session where
  disk : Disk
  /-- The level from which on messages are logged. Without one, nothing is logged. -/
  threshold : Option LogLevel := none
  events : List Event := []

/-- A part of a run. -/
abbrev Run := ExceptT RunError (StateM Session)

/-- What a run is asked to do. -/
structure Job where
  /-- The file or directory to work on; standard input if it is empty. -/
  input : Text := []
  /-- Whether changes are reported instead of written. -/
  isDryRun : Bool := false
  /-- Whether a summary table is shown. -/
  showsStats : Bool := false
  exclude : List Text := []
  options : Options := {}
  /-- The bytes of standard input. -/
  stdin : Text := []
  /-- Whether the run has been cancelled before it starts. -/
  isCancelled : Bool := false
  /-- How many files of a directory are worked on before the run is cancelled, if it
  ever is. -/
  cancelledAfter : Option Nat := none
  /-- The order in which the files of a directory are worked on. -/
  schedule : List Text → List Text := id

/-- A file in its new order, with what was done to it. Bytes that do not change are kept
as they are, even where they are malformed. -/
def reorganizeData (options : Options) (data : Text) : Text × Report :=
  let (text, encoding) := Encoding.decode data
  let (result, report) := reorganizeText options text
  (if report.isChanged then encoding.encode result else data, report)

/-- What becomes of a file. -/
structure Outcome where
  path : Text
  output : Text
  report : Report
  isChanged : Bool
  deriving DecidableEq, Repr

/-- The line of a file in the summary table. -/
def Outcome.stats (outcome : Outcome) : FileStats :=
  { path := outcome.path
    movedDirectives := outcome.report.movedDirectives
    movedMembers := outcome.report.movedMembers
    skipped := outcome.report.skipped
    isChanged := outcome.isChanged }

namespace Run

/-- Shows something. -/
def emit (event : Event) : Run Unit :=
  modify fun session => { session with events := session.events ++ [event] }

/-- Writes a line to standard output. -/
def say (line : Text) : Run Unit :=
  emit (.output (line ++ [Byte.lineFeed]))

/-- Logs a message, if its level is high enough. -/
def log (level : LogLevel) (message : Text) : Run Unit := do
  match (← get).threshold with
  | some threshold =>
      let line := threshold.line level message
      if line.isEmpty then return () else emit (.log line)
  | none => return ()

/-- Shows the summary table of files, if the job asks for one. -/
def showStats (job : Job) (stats : List FileStats) : Run Unit :=
  if job.showsStats then emit (.table (FileStats.render stats)) else return ()

/-- The result of an operation on the disk, or the error that it becomes. -/
def orFail {ε α : Type} (wrap : ε → RunError) (result : Except ε α) : Run α :=
  match result with
  | .ok value => return value
  | .error error => throw (wrap error)

end Run

/-- How an input is worked on. -/
def Disk.mode (disk : Disk) (input : Text) : Except RunError Mode :=
  if input.isEmpty then .ok .console
  else
    match disk.isDirectory input with
    | .ok true => .ok .directory
    | .ok false => .ok .file
    | .error error =>
        if error.fault == .missing then .error (.inputNotFound input)
        else .error (.uncheckedPath error)

namespace Job

open Run

/-- Works on one file, without writing anything. -/
def processFile (job : Job) (path : Text) : Run Outcome := do
  let data ← orFail .unreadableFile ((← get).disk.read path)
  let (output, report) := reorganizeData job.options data
  log .trace (utf8 "Reorganized " ++ path ++ utf8 ": "
    ++ Text.ofNat report.movedDirectives ++ utf8 " directive(s) and "
    ++ Text.ofNat report.movedMembers ++ utf8 " member(s) moved, "
    ++ Text.ofNat report.cleaned ++ utf8 " list(s) re-padded")
  if 0 < report.skipped then
    log .warn (utf8 "Skipped " ++ Text.ofNat report.skipped
      ++ utf8 " list(s) with preprocessor directives in " ++ path)
  return { path, output, report, isChanged := output != data }

/-- Writes the result for a file. -/
def write (outcome : Outcome) : Run Unit := do
  let (disk, result) := (← get).disk.overwrite outcome.path outcome.output
  modify fun session => { session with disk }
  discard (orFail .unwritableFile result)
  log .info (utf8 "Processed: " ++ outcome.path)

/-- Says that a file stays as it is. -/
def logUnchanged (outcome : Outcome) : Run Unit :=
  log .debug (utf8 "Unchanged: " ++ outcome.path)

/-- Writes the result for a file that has changed. -/
def settle (outcome : Outcome) : Run Unit :=
  if outcome.isChanged then write outcome else logUnchanged outcome

/-- Puts standard input in order on standard output. -/
def runConsole (job : Job) : Run Unit := do
  let (output, report) := reorganizeData job.options job.stdin
  emit (.output output)
  let outcome : Outcome :=
    { path := utf8 "<stdin>", output, report, isChanged := report.isChanged }
  showStats job [outcome.stats]

/-- Puts a single file in order. Exclusions are read from the working directory. -/
def runFile (job : Job) : Run Unit := do
  let disk := (← get).disk
  let path := disk.absolute job.input
  let exclusions := Exclusion.ofEntries disk disk.workingDirectory job.exclude
  if Exclusion.excludes disk exclusions path then
    log .info (utf8 "Excluded: " ++ path)
    if job.isDryRun then say (utf8 "no changes")
  else
    let outcome ← job.processFile path
    showStats job [outcome.stats]
    if job.isDryRun then
      if outcome.isChanged then
        say path
        throw .changesFound
      else say (utf8 "no changes")
    else settle outcome

/-- The source files below a directory that are not excluded, in ascending order. -/
def files (disk : Disk) (exclusions : List Exclusion) (root : Text) :
    Except FileError (List Text) :=
  disk.sources (Exclusion.excludes disk exclusions) root

/-- Works on all given files in the order of the schedule, up to the first failure or
until the run is cancelled. The outcomes are in the order of the paths. -/
def processFiles (job : Job) (paths : List Text) : Run (List Outcome) := do
  if job.isCancelled then throw .cancelled
  let scheduled := job.schedule paths
  let reached := (job.cancelledAfter.map scheduled.take).getD scheduled
  let outcomes ← reached.mapM job.processFile
  if job.cancelledAfter.isSome then throw .cancelled
  return sortBy (fun left right => compare left.path right.path != .gt) outcomes

/-- Says which files would change. -/
def reportChanges (outcomes : List Outcome) : Run Unit := do
  let changed := outcomes.filter Outcome.isChanged
  changed.forM fun outcome => say outcome.path
  if changed.isEmpty then say (utf8 "all files ok") else throw .changesFound

/-- Puts all source files below a directory in order. Exclusions are read from the
directory. -/
def runDirectory (job : Job) : Run Unit := do
  let disk := (← get).disk
  let root := disk.absolute job.input
  let exclusions := Exclusion.ofEntries disk root job.exclude
  let paths ← orFail .unsearchable (files disk exclusions root)
  if paths.isEmpty then log .info (utf8 "No C# files found in directory: " ++ root)
  else
    log .info (utf8 "Found " ++ Text.ofNat paths.length
      ++ utf8 " C# files in directory: " ++ root)
  let outcomes ← job.processFiles paths
  showStats job (outcomes.map Outcome.stats)
  if job.isDryRun then reportChanges outcomes else outcomes.forM settle

/-- Does the job once. -/
def run (job : Job) : Run Unit := do
  match ← orFail id ((← get).disk.mode job.input) with
  | .console => job.runConsole
  | .file => job.runFile
  | .directory => job.runDirectory

/-- Works again on files that have changed. Failures are logged and do not stop the
others; a file that is locked elsewhere is passed over. -/
def reprocess (job : Job) (paths : List Text) : Run Unit := do
  let outcomes ← paths.filterMapM fun path => do
    match (← get).disk.stat path with
    | .error _ => return none
    | .ok _ =>
        tryCatch (return some (← job.processFile path)) fun error => do
          log .error error.message
          return none
  showStats job (outcomes.map Outcome.stats)
  outcomes.forM fun outcome => do
    if !outcome.isChanged then logUnchanged outcome
    else if job.isDryRun then say outcome.path
    else
      let (disk, result) := (← get).disk.tryOverwrite outcome.path outcome.output
      modify fun session => { session with disk }
      match result with
      | .error error =>
          log .error (outcome.path ++ utf8 ": failed to write file: " ++ error.message)
      | .ok false =>
          log .warn (utf8 "Skipped " ++ outcome.path
            ++ utf8 ": locked by another process")
      | .ok true => log .info (utf8 "Processed: " ++ outcome.path)

end Job

end Lineup
