import Lineup.Run

/-!
# Watching

A job can be done again whenever files change. What is watched tells which files matter.
-/

namespace Lineup

/-- What is watched for changes. -/
structure Watch where
  /-- The file or directory that is watched. -/
  target : Text
  mode : Mode
  exclusions : List Exclusion

namespace Watch

/-- Whether a file that has changed is worked on again. -/
def accepts (watch : Watch) (disk : Disk) (path : Text) : Bool :=
  match watch.mode with
  | .file => path == watch.target && !Exclusion.excludes disk watch.exclusions path
  | _ =>
      SourceFile.isSource path && !SourceFile.isInBuildOutput watch.target path
        && !Exclusion.excludes disk watch.exclusions path

end Watch

open Run in
/-- Does a job once, and tells what to watch from then on. Standard input cannot be
watched. -/
def Job.watch (job : Job) : Run Watch := do
  let mode ← orFail id ((← get).disk.mode job.input)
  if mode == .console then throw .missingInput
  tryCatch job.run fun error =>
    if error == .changesFound then return () else throw error
  let disk := (← get).disk
  let target := disk.absolute job.input
  let base := if mode == .file then disk.workingDirectory else target
  log .info (utf8 "Watching " ++ target ++ utf8 " for changes")
  return { target, mode, exclusions := Exclusion.ofEntries disk base job.exclude }

end Lineup
