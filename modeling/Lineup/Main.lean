import Lineup.Command
import Lineup.Disk.Build

/-!
# The program

Reads the files that a command can touch, does what the command line asks for, and
writes back the files that have changed.
-/

namespace Lineup

namespace Program

/-- The bytes of an array as a text. -/
def textOf (data : ByteArray) : Text :=
  data.toList

/-- A text as an array of bytes. -/
def bytesOf (text : Text) : ByteArray :=
  ⟨text.toArray⟩

/-- A text as a string; bytes that cannot be read are replaced. -/
def stringOf (text : Text) : String :=
  String.ofList text.chars

/-- The entry of the file system at an absolute path. -/
def entryAt (path : Text) : IO.FS.DirEntry :=
  { root := stringOf (Path.directory path), fileName := stringOf (Path.base path) }

/-- Adds a file to a disk, if it can be read. -/
def addFile (disk : Disk) (path : Text) : IO Disk := do
  try
    return disk.put path (textOf (← IO.FS.readBinFile (entryAt path).path)) 0o644
  catch _ => return disk

/-- Adds a directory or a source file, with everything below it, to a disk. -/
partial def addTree (disk : Disk) (path : Text) : IO Disk := do
  let entry := entryAt path
  let type ← try pure (some (← entry.path.symlinkMetadata).type) catch _ => pure none
  match type with
  | some .dir =>
      let mut disk := disk.makeDirectory path
      for child in ← entry.path.readDir do
        disk ← addTree disk (Path.join path (utf8 child.fileName))
      return disk
  | some .file => if SourceFile.isSource path then addFile disk path else return disk
  | some .symlink =>
      let real ← try pure (utf8 (← IO.FS.realPath entry.path).toString) catch _ =>
          pure path
      let disk := disk.makeLink path real
      if real == path then return disk
      else if ← entry.path.isDir then return disk.makeDirectory real
      else addFile disk real
  | _ => return disk

/-- Adds the settings files in a directory and above it to a disk. -/
def addSettings (disk : Disk) : List Text → IO Disk
  | [] => addFile disk (Path.join (utf8 "/") Config.fileName)
  | last :: names => do
      let directory := Path.ofSegments true (last :: names).reverse
      let disk ← addFile disk (Path.join directory Config.fileName)
      addSettings disk names

/-- The part of the file system that a command can touch. -/
def snapshot (commandLine : List Text) : IO Disk := do
  let cwd := utf8 (← IO.currentDir).toString
  let disk := (({} : Disk).makeDirectory cwd).changeDirectory cwd
  match Arguments.read commandLine with
  | .error _ => return disk
  | .ok arguments =>
      let path := disk.absolute (arguments.paths.headD [])
      let disk ← if arguments.paths.isEmpty then pure disk else addTree disk path
      let disk ← addSettings disk (Path.segments path).reverse
      if arguments.config.isEmpty then return disk
      else addFile disk (disk.absolute arguments.config)

/-- The files of a disk whose contents are not those of another one. -/
def changedFiles (before after : Disk) : List (Text × Text) :=
  let old := before.root.items []
  (after.root.items []).filterMap fun (names, item) =>
    match item, old.lookup names with
    | .file data _, some (.file oldData _) =>
        if data == oldData then none else some (Path.ofSegments true names, data)
    | .file data _, _ => some (Path.ofSegments true names, data)
    | _, _ => none

/-- Shows what a session has to show, and writes the files that it has changed. -/
def finish (before : Disk) (session : Session) : IO Unit := do
  for (path, data) in changedFiles before session.disk do
    IO.FS.writeBinFile (entryAt path).path (bytesOf data)
  let stdout ← IO.getStdout
  let stderr ← IO.getStderr
  for event in session.events do
    match event with
    | .output data => stdout.write (bytesOf data)
    | .log text | .table text => stderr.write (bytesOf text)
  stdout.flush

/-- The pause between two looks at what is watched, in milliseconds. -/
def pause : UInt32 := 250

/-- Works on the files that change, for as long as the program runs. -/
partial def follow (job : Job) (watch : Watch) (disk : Disk)
    (threshold : Option LogLevel) :
    IO Unit := do
  IO.sleep pause
  let now ← addTree { ({} : Disk).makeDirectory disk.workingDirectory with
      cwd := disk.cwd }
    watch.target
  let paths := (changedFiles disk now).map Prod.fst
  let paths := paths.filter (SourceFile.isRelevant (watch.accepts now))
  let (_, session) := (job.reprocess paths).run.run { disk := now, threshold }
  finish now session
  follow job watch session.disk threshold

/-- What is known about this build. -/
def version : Version :=
  { compiler := utf8 "unknown", platform := utf8 "unknown" }

/-- Does what the command line asks for, and gives the exit code. -/
def run (commandLine : List Text) : IO UInt32 := do
  let stdin ← IO.getStdin
  let isTerminal ← stdin.isTty
  let isRead := match Arguments.read commandLine with
    | .ok arguments => arguments.paths.isEmpty && !isTerminal && !arguments.showsHelp
        && !arguments.showsVersion
    | .error _ => false
  let data ← if isRead then stdin.readBinToEnd else pure .empty
  let disk ← snapshot commandLine
  let (result, session) :=
    (Command.execute version { data := textOf data, isTerminal } commandLine).run.run
      { disk }
  finish disk session
  match result with
  | .ok (some (job, watch)) => follow job watch session.disk session.threshold
  | .ok none => pure ()
  | .error (.run .changesFound) => pure ()
  | .error error =>
      (← IO.getStderr).write (bytesOf (utf8 "Error: " ++ error.message ++ utf8 "\n"))
  return (Command.exitCode result).toUInt32

end Program

end Lineup

def main (arguments : List String) : IO UInt32 :=
  Lineup.Program.run (arguments.map Lineup.utf8)
