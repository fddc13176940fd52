import Lineup.Disk
import Lineup.Sort
import Lineup.SourceFile

/-!
# Scanning a disk

Finding the source files below a directory, and the nearest file of a given name above a
path.
-/

namespace Lineup

namespace Entry

mutual

/-- The paths of the source files at and below an entry. Directories that a build writes
to are passed over, and so is whatever `skip` tells to. Links are not followed. -/
def sources (skip : Text → Bool) (path name : Text) : Entry → List Text
  | directory children =>
      if SourceFile.isBuildOutput name || skip path then []
      else sourcesIn skip path children
  | file _ | link _ => if SourceFile.isSource name && !skip path then [path] else []

/-- The paths of the source files below a directory. -/
def sourcesIn (skip : Text → Bool) (path : Text) : List (Text × Entry) → List Text
  | [] => []
  | (name, entry) :: rest =>
      entry.sources skip (Path.join path name) name ++ sourcesIn skip path rest

end

end Entry

namespace Disk

/-- The paths of the source files below `root`, in ascending order. A directory given as
the root is searched whatever its name. -/
def sources (disk : Disk) (skip : Text → Bool) (root : Text) :
    Except FileError (List Text) :=
  let sorted := sortBy fun (left right : Text) => compare left right != .gt
  match disk.linkStat root with
  | .ok (.directory children) => .ok (sorted (Entry.sourcesIn skip root children))
  | .ok entry => .ok (entry.sources skip root (Path.base root))
  | .error error => .error error

/-- Whether a path leads to something other than a directory. -/
def hasFile (disk : Disk) (path : Text) : Bool :=
  match disk.stat path with
  | .ok entry => !entry.isDirectory
  | .error _ => false

/-- The nearest file of a name in a directory or one above it. -/
def nearestAbove (disk : Disk) (name directory : Text) : Option Text :=
  let candidate := Path.join directory name
  if disk.hasFile candidate then some candidate
  else if _shorter : (Path.directory directory).length < directory.length then
    disk.nearestAbove name (Path.directory directory)
  else none
  termination_by directory.length

/-- The nearest file of a name, looked for from a path upwards. -/
def nearest (disk : Disk) (name path : Text) : Option Text :=
  let path := disk.absolute path
  let isDirectory := (disk.isDirectory path).toOption.getD false
  disk.nearestAbove name (if isDirectory then path else Path.directory path)

end Disk

end Lineup
