import Lineup.Text

/-!
# Paths

Slash-separated file names. A path is cleaned by dropping empty segments and `.`, and by
letting `..` cancel the segment before it.
-/

namespace Lineup

namespace Path

/-- The segment that stands for the directory itself. -/
def here : Text := utf8 "."

/-- The segment that stands for the directory above. -/
def above : Text := utf8 ".."

/-- Whether a path starts at the root. -/
def isAbsolute (path : Text) : Bool :=
  path.head? == some Byte.slash

/-- The pieces of a path between slashes. -/
def pieces (path : Text) : List Text :=
  Text.splitOn Byte.slash path

/-- The piece behind the last slash. -/
def lastPiece (path : Text) : Text :=
  (pieces path).getLastD []

/-- The segments read so far, last one first, after one more piece. Nothing is above the
root. -/
def push (isRooted : Bool) (read : List Text) (piece : Text) : List Text :=
  if piece.isEmpty || piece == here then read
  else if piece == above then
    match read with
    | [] => if isRooted then [] else [above]
    | last :: earlier => if last == above then above :: read else earlier
  else piece :: read

/-- The segments of a cleaned path. -/
def segments (path : Text) : List Text :=
  ((pieces path).foldl (push (isAbsolute path)) []).reverse

/-- The path with the given segments. -/
def ofSegments (isRooted : Bool) (segments : List Text) : Text :=
  if isRooted then Byte.slash :: Text.join [Byte.slash] segments
  else if segments.isEmpty then here
  else Text.join [Byte.slash] segments

/-- The shortest path that names the same file, as far as the text tells. -/
def clean (path : Text) : Text :=
  ofSegments (isAbsolute path) (segments path)

/-- A name inside a directory. -/
def join (directory name : Text) : Text :=
  if directory.isEmpty then (if name.isEmpty then [] else clean name)
  else clean (directory ++ [Byte.slash] ++ name)

/-- The cleaned path as seen from the root, for a process in the directory `cwd`. -/
def absolute (cwd path : Text) : Text :=
  if isAbsolute path then clean path else join cwd path

/-- The directory that a path is in. -/
def directory (path : Text) : Text :=
  clean (path.take (path.length - (lastPiece path).length))

/-- The last segment of a path. -/
def base (path : Text) : Text :=
  match ((pieces path).filter (!·.isEmpty)).getLast? with
  | some name => name
  | none => if path.isEmpty then here else [Byte.slash]

/-- The part of the last piece from its last dot on, empty without a dot. -/
def extension (path : Text) : Text :=
  match Text.splitOn Byte.dot (lastPiece path) with
  | [_] => []
  | parts => Byte.dot :: parts.getLastD []

/-- The segments that lead from one list of segments to another. There is no way from a
directory whose own place is unknown. -/
def wayBetween? : List Text → List Text → Option (List Text)
  | base :: bases, target :: targets =>
      if base == target then wayBetween? bases targets
      else if base == above then none
      else some ((base :: bases).map (fun _ => above) ++ target :: targets)
  | bases, targets => some (bases.map (fun _ => above) ++ targets)

/-- The segments of the path to `target` from the directory `base`, if the texts tell
it. -/
def relative? (base target : Text) : Option (List Text) :=
  if isAbsolute base == isAbsolute target then
    wayBetween? (segments base) (segments target)
  else none

end Path

end Lineup
