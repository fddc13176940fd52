import Lineup.Disk

/-!
# Building a disk

Making directories, files and links one by one, and removing them again.
-/

namespace Lineup

namespace Disk

/-- The disk with directories along the given names below `position`. What is there
already stays. -/
def makeDirectories (disk : Disk) (position : List Text) : List Text → Disk
  | [] => disk
  | name :: names =>
      let position := position ++ [name]
      let disk :=
        if (disk.root.get? position).isSome then disk
        else disk.set position (some (.directory []))
      disk.makeDirectories position names

/-- The disk with the directory of a path, and with the directories it is in. -/
def makeDirectory (disk : Disk) (path : Text) : Disk :=
  match disk.locate true path with
  | .ok (.present _ _) => disk
  | _ => disk.makeDirectories [] (Path.segments (disk.absolute path))

/-- The disk with the given contents in the file that a path leads to. A new file gets
the given access rights; an old one keeps its own. -/
def put (disk : Disk) (path data : Text) (mode : Nat) : Disk :=
  let disk := disk.makeDirectory (Path.directory (disk.absolute path))
  match disk.locate true path with
  | .ok (.present names (.file file)) =>
      disk.set names (some (.file { file with data }))
  | .ok (.vacant directory name) => disk.create (directory ++ [name]) data mode
  | _ => disk

/-- The disk with new access rights for the file that a path leads to. -/
def setMode (disk : Disk) (path : Text) (mode : Nat) : Disk :=
  match disk.locate true path with
  | .ok (.present names (.file file)) =>
      disk.set names (some (.file { file with mode }))
  | _ => disk

/-- The disk with a symbolic link at a path. -/
def makeLink (disk : Disk) (path linkTarget : Text) : Disk :=
  let disk := disk.makeDirectory (Path.directory (disk.absolute path))
  match disk.locate false path with
  | .ok (.vacant directory name) =>
      disk.set (directory ++ [name]) (some (.link linkTarget))
  | _ => disk

/-- The disk without what a path leads to, and without everything below that. -/
def remove (disk : Disk) (path : Text) : Disk :=
  match disk.locate false path with
  | .ok (.present names _) => disk.set names none
  | _ => disk

/-- The disk seen from the directory that a path leads to. -/
def changeDirectory (disk : Disk) (path : Text) : Disk :=
  match disk.locate true path with
  | .ok (.present names (.directory _)) => { disk with cwd := names }
  | _ => disk

end Disk

end Lineup
