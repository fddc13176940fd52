import Lineup.Path
import Lineup.Text.Utf8

/-!
# Source files

Which names belong to C# source files, which to the folders that a build writes to, and
which to the scratch files of editors.
-/

namespace Lineup

namespace SourceFile

/-- The lower case of an ASCII letter, and of the two other characters that fold to
one. -/
def fold (character : Char) : Char :=
  if character == '\u017f' then 's' else if character == '\u212a' then 'k'
  else character.toLower

/-- Whether a text equals a lower-case ASCII name when case is ignored. -/
def foldsTo (name : String) (text : Text) : Bool :=
  text.chars.map fold == name.toList

/-- Whether a file holds C# source, by its name. -/
def isSource (path : Text) : Bool :=
  foldsTo ".cs" (Path.extension path)

/-- Whether a directory of this name holds what a build has written. -/
def isBuildOutput (name : Text) : Bool :=
  foldsTo "bin" name || foldsTo "obj" name

/-- Whether some directory between `root` and the path holds what a build has
written. -/
def isInBuildOutput (root path : Text) : Bool :=
  match Path.relative? root path with
  | some segments => segments.any isBuildOutput
  | none => false

/-- Whether a file is a scratch file of an editor, by its name. -/
def isScratch (path : Text) : Bool :=
  let name := Path.base path
  name.startsWith (utf8 ".#") || name.endsWith (utf8 "~") || name.endsWith (utf8 ".swp")

/-- Whether a change of a file matters to someone who accepts the files given by
`accept`. -/
def isRelevant (accept : Text → Bool) (path : Text) : Bool :=
  !isScratch path && accept path

end SourceFile

end Lineup
