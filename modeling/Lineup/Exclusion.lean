import Lineup.Disk
import Lineup.Text.Case

/-!
# Exclusions

Paths that a run must not touch. An excluded directory excludes everything below it.
-/

namespace Lineup

/-- An excluded path, absolute and cleaned. -/
structure Exclusion where
  path : Text
  isDirectory : Bool
  deriving DecidableEq, Repr

namespace Exclusion

/-- The exclusion that an entry asks for, read from the directory `base`. An entry is
for a directory when it ends with a slash or names an existing directory. A blank entry
asks for nothing. -/
def ofText? (disk : Disk) (base entry : Text) : Option Exclusion :=
  if entry.trim.isEmpty then none
  else
    let path := disk.absolute
      (if Path.isAbsolute entry then entry else Path.join base entry)
    let isDirectory :=
      entry.endsWith [Byte.slash] || (disk.isDirectory path).toOption.getD false
    some { path, isDirectory }

/-- The exclusions with one more; the first one for a path wins. -/
def add (exclusions : List Exclusion) (new : Exclusion) : List Exclusion :=
  if exclusions.any (·.path == new.path) then exclusions else exclusions ++ [new]

/-- The exclusions that a list of entries asks for. -/
def ofEntries (disk : Disk) (base : Text) (entries : List Text) : List Exclusion :=
  (entries.filterMap (ofText? disk base)).foldl add []

/-- What the paths below an excluded directory start with. -/
def below (exclusion : Exclusion) : Text :=
  if exclusion.path.endsWith [Byte.slash] then exclusion.path
  else exclusion.path ++ [Byte.slash]

/-- Whether an exclusion covers an absolute, cleaned path. -/
def covers (exclusion : Exclusion) (path : Text) : Bool :=
  path == exclusion.path || (exclusion.isDirectory && path.startsWith exclusion.below)

/-- Whether one of the exclusions covers a path. -/
def excludes (disk : Disk) (exclusions : List Exclusion) (path : Text) : Bool :=
  exclusions.any fun exclusion => exclusion.covers (disk.absolute path)

end Exclusion

end Lineup
