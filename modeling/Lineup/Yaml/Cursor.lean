import Lineup.Text.Utf8

/-!
# Positions in a YAML text

A text is read character by character, with its lines and columns counted. A line ends
with a carriage return and a line feed, with one of the two, or with one of three other
characters.
-/

namespace Lineup

namespace Yaml

/-- Whether a character ends a line. -/
def isBreak (character : Char) : Bool :=
  character == '\n' || character == '\r' || character == '\u0085'
    || character == '\u2028'
    || character == '\u2029'

/-- Whether a character separates words within a line. -/
def isBlank (character : Char) : Bool :=
  character == ' ' || character == '\t'

/-- Whether a word ends here: at a blank, at the end of a line, or at the end of the
text. -/
def endsWord : List Char → Bool
  | [] => true
  | character :: _ => isBlank character || isBreak character

/-- Whether a character may stand in a text. -/
def isAllowed (character : Char) : Bool :=
  let code := character.toNat
  code == 0x09 || code == 0x0a || code == 0x0d || (0x20 ≤ code && code ≤ 0x7e)
    || code == 0x85
    || (0xa0 ≤ code && code ≤ 0xd7ff) || (0xe000 ≤ code && code ≤ 0xfffd)
    || (0x10000 ≤ code && code ≤ 0x10ffff)

/-- A letter, digit, dash or underscore of ASCII. -/
def isWordCharacter (character : Char) : Bool :=
  character.isAlphanum || character == '-' || character == '_'

/-- A position in a text, with what follows it. -/
structure Cursor where
  rest : List Char
  index : Nat := 0
  line : Nat := 0
  column : Nat := 0

namespace Cursor

/-- The position after a number of characters of the same line. -/
def skip (cursor : Cursor) (count : Nat) : Cursor :=
  { cursor with
    rest := cursor.rest.drop count
    index := cursor.index + count
    column := cursor.column + count }

/-- The line end at a position in its usual spelling, and the position behind it. -/
def readBreak (cursor : Cursor) : List Char × Cursor :=
  let behind (count : Nat) : Cursor :=
    { cursor with
      rest := cursor.rest.drop count
      index := cursor.index + count
      line := cursor.line + 1
      column := 0 }
  match cursor.rest with
  | '\r' :: '\n' :: _ => (['\n'], behind 2)
  | character :: _ =>
      (if character == '\u2028'
        || character == '\u2029' then [character] else ['\n'], behind 1)
  | [] => ([], cursor)

/-- The position behind all characters of a kind that does not include line ends. -/
def skipWhile (cursor : Cursor) (isSkipped : Char → Bool) : Cursor :=
  cursor.skip (cursor.rest.takeWhile isSkipped).length

/-- The position at the end of the line. -/
def skipComment (cursor : Cursor) : Cursor :=
  match cursor.rest with
  | '#' :: _ => cursor.skipWhile (!isBreak ·)
  | _ => cursor

/-- Whether a line that only marks the start or the end of a document is here. -/
def isAtMark (mark : List Char) (cursor : Cursor) : Bool :=
  cursor.column == 0 && mark.isPrefixOf cursor.rest
    && endsWord (cursor.rest.drop mark.length)

/-- Whether a document starts or ends here. -/
def isAtDocumentMark (cursor : Cursor) : Bool :=
  cursor.isAtMark ['-', '-', '-'] || cursor.isAtMark ['.', '.', '.']

end Cursor

end Yaml

end Lineup
