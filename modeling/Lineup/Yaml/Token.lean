import Lineup.Yaml.Scalar

/-!
# Tokens of a YAML text

The indicators and scalars of a text, with tokens for the starts and ends of the
collections that indentation tells. A key is told by the colon behind it, so its tokens
are put in front of what has been read already.
-/

namespace Lineup

namespace Yaml

/-- A token of a YAML text. -/
inductive Token where
  | versionDirective (major minor : Nat)
  | tagDirective (handle start : List Char)
  | documentStart
  | documentEnd
  | blockSequenceStart
  | blockMappingStart
  | blockEnd
  | flowSequenceStart
  | flowSequenceEnd
  | flowMappingStart
  | flowMappingEnd
  | blockEntry
  | flowEntry
  | key
  | value
  | reference (name : List Char)
  | anchor (name : List Char)
  | tag (handle suffix : List Char)
  | scalar (isPlain : Bool) (text : List Char)
  deriving DecidableEq, Repr

/-- A place where a key without an indicator of its own may have started. -/
structure KeyStart where
  /-- The number of tokens in front of the key. -/
  token : Nat
  index : Nat
  line : Nat
  column : Nat
  /-- Whether nothing but a key can stand there. -/
  isRequired : Bool

/-- What has been read of a text. -/
structure Scan where
  cursor : Cursor
  tokens : List Token := []
  /-- The last possible key on each level of brackets, innermost first. -/
  keys : List (Option KeyStart) := [none]
  /-- The column of the current block, less than zero outside of all blocks. -/
  indent : Int := -1
  outerIndents : List Int := []
  /-- Whether a key without an indicator may start here. -/
  allowsKey : Bool := true

namespace Scan

/-- Whether the position is inside brackets. -/
def inFlow (scan : Scan) : Bool :=
  1 < scan.keys.length

/-- Adds tokens at the end. -/
def emit (scan : Scan) (tokens : List Token) : Scan :=
  { scan with tokens := scan.tokens ++ tokens }

/-- Adds a token behind the first `count` ones. -/
def insert (scan : Scan) (count : Nat) (token : Token) : Scan :=
  { scan with tokens := scan.tokens.take count ++ token :: scan.tokens.drop count }

/-- Moves on by a number of characters. -/
def skip (scan : Scan) (count : Nat) : Scan :=
  { scan with cursor := scan.cursor.skip count }

/-- Says whether a key may start at the next token. -/
def allowKey (scan : Scan) (isAllowed : Bool) : Scan :=
  { scan with allowsKey := isAllowed }

/-- Starts a block at a column that is deeper than the current one, with a token behind
the first `count` ones. -/
def openBlock (scan : Scan) (column count : Nat) (token : Token) : Scan :=
  if !scan.inFlow && scan.indent < column then
    { scan.insert count token with
      indent := column
      outerIndents := scan.indent :: scan.outerIndents }
  else scan

/-- The number of blocks to end at a column, with the indentation that is left. -/
def blocksBeyond (column : Int) (indent : Int) : List Int → Nat × Int × List Int
  | [] => (0, indent, [])
  | outer :: rest =>
      if column < indent then
        let (count, left) := blocksBeyond column outer rest
        (count + 1, left)
      else (0, indent, outer :: rest)

/-- Ends the blocks that are deeper than a column. -/
def closeBlocks (scan : Scan) (column : Int) : Scan :=
  if scan.inFlow then scan
  else
    let (count, indent, outerIndents) :=
      blocksBeyond column scan.indent scan.outerIndents
    { scan.emit (List.replicate count .blockEnd) with indent, outerIndents }

/-- Gives up the possible key on the current level. A required key cannot be given
up. -/
def dropKey (scan : Scan) : Option Scan :=
  match scan.keys with
  | some key :: rest =>
      if key.isRequired then none else some { scan with keys := none :: rest }
  | _ => some scan

/-- Notes that a key may start here. -/
def noteKey (scan : Scan) : Option Scan :=
  if scan.allowsKey then
    match scan.dropKey with
    | none => none
    | some scan =>
        let key : KeyStart :=
          { token := scan.tokens.length
            index := scan.cursor.index
            line := scan.cursor.line
            column := scan.cursor.column
            isRequired := !scan.inFlow && scan.indent == scan.cursor.column }
        some { scan with keys := some key :: scan.keys.drop 1 }
  else some scan

/-- The length of the longest key without an indicator. -/
def maxKeyLength : Nat := 1024

/-- The possible key on the current level, if what was read since can be a key: it is
short and on one line. A required key that cannot be one is an error. -/
def currentKey (scan : Scan) : Option (Option KeyStart) :=
  match scan.keys with
  | some key :: _ =>
      if key.line == scan.cursor.line
        && scan.cursor.index ≤ key.index + maxKeyLength then
        some (some key)
      else if key.isRequired then none
      else some none
  | _ => some none

/-- The position of the next token, behind blanks, comments and line ends. A tab does
not count as a blank where a key may start; a byte-order mark does at the start of a
line. -/
def skipSpace : (fuel : Nat) → Scan → Scan
  | 0, scan => scan
  | fuel + 1, scan =>
      let takesTabs := scan.inFlow || !scan.allowsKey
      let isMarked := scan.cursor.column == 0 && scan.cursor.rest.head? == some '\ufeff'
      let cursor := if isMarked then scan.cursor.skip 1 else scan.cursor
      let cursor := cursor.skipWhile fun character =>
        character == ' ' || (takesTabs && character == '\t')
      let cursor := cursor.skipComment
      match cursor.rest with
      | character :: _ =>
          if isBreak character then
            skipSpace fuel
              { scan with
                cursor := cursor.readBreak.2
                allowsKey := scan.allowsKey || !scan.inFlow }
          else { scan with cursor }
      | [] => { scan with cursor }

/-- Reads a token that ends all blocks. -/
def endBlocks (scan : Scan) : Option Scan :=
  ((scan.closeBlocks (-1)).dropKey).map (·.allowKey false)

/-- Reads a mark that starts or ends a document. -/
def documentMark (scan : Scan) (token : Token) : Option Scan :=
  scan.endBlocks.map fun scan => (scan.emit [token]).skip 3

/-- Reads an opening bracket. -/
def openFlow (scan : Scan) (token : Token) : Option Scan :=
  scan.noteKey.map fun scan =>
    (({ scan with keys := none :: scan.keys }.allowKey true).emit [token]).skip 1

/-- Reads a closing bracket. -/
def closeFlow (scan : Scan) (token : Token) : Option Scan :=
  scan.dropKey.map fun scan =>
    let keys := if scan.inFlow then scan.keys.drop 1 else scan.keys
    (({ scan with keys }.allowKey false).emit [token]).skip 1

/-- Reads a comma between items in brackets. -/
def flowEntry (scan : Scan) : Option Scan :=
  scan.dropKey.map fun scan => ((scan.allowKey true).emit [.flowEntry]).skip 1

/-- Reads the dash in front of an item of a block. -/
def blockEntry (scan : Scan) : Option Scan :=
  if !scan.inFlow && !scan.allowsKey then none
  else
    let scan := scan.openBlock scan.cursor.column scan.tokens.length .blockSequenceStart
    scan.dropKey.map fun scan => ((scan.allowKey true).emit [.blockEntry]).skip 1

/-- Reads the question mark in front of a key. -/
def keyMark (scan : Scan) : Option Scan :=
  if !scan.inFlow && !scan.allowsKey then none
  else
    let scan := scan.openBlock scan.cursor.column scan.tokens.length .blockMappingStart
    scan.dropKey.map fun scan => ((scan.allowKey (!scan.inFlow)).emit [.key]).skip 1

/-- Reads the colon behind a key. -/
def valueMark (scan : Scan) : Option Scan :=
  let behind (scan : Scan) : Scan := (scan.emit [.value]).skip 1
  match scan.currentKey with
  | none => none
  | some (some key) =>
      let scan := (scan.insert key.token .key).openBlock key.column key.token
        .blockMappingStart
      some (behind ({ scan with keys := none :: scan.keys.drop 1 }.allowKey false))
  | some none =>
      let scan := { scan with keys := none :: scan.keys.drop 1 }
      if scan.inFlow then some (behind (scan.allowKey false))
      else if scan.allowsKey then
        some (behind
          ((scan.openBlock scan.cursor.column scan.tokens.length
            .blockMappingStart).allowKey true))
      else none

/-- Reads the name of an anchor, or of a reference to one, behind its indicator. -/
def anchorName (scan : Scan) (token : List Char → Token) : Option Scan :=
  match scan.noteKey with
  | none => none
  | some scan =>
      let name := (scan.cursor.rest.drop 1).takeWhile isWordCharacter
      let behind := scan.cursor.rest.drop (1 + name.length)
      let isEnded := endsWord behind
        || behind.head?.any ['?', ':', ',', ']', '\x7d', '%', '@', '\x60'].contains
      if name.isEmpty || !isEnded then none
      else some (((scan.allowKey false).emit [token name]).skip (1 + name.length))

/-- Whether a character may stand in a tag. -/
def isTagCharacter (character : Char) : Bool :=
  isWordCharacter character
    || [';', '/', '?', ':', '@', '&', '=', '+', '$', '.', '%', '!', '~', '*',
    '\x27', '(', ')'].contains character

/-- The handle and the suffix of a tag, with the number of its characters. -/
def readTag (rest : List Char) : Option (List Char × List Char × Nat) :=
  match rest with
  | '!' :: '<' :: rest =>
      let suffix := rest.takeWhile fun character =>
        isTagCharacter character || [',', '[', ']'].contains character
      if suffix.isEmpty || (rest.drop suffix.length).head? != some '>' then none
      else some ([], suffix, suffix.length + 3)
  | '!' :: rest =>
      let name := rest.takeWhile isWordCharacter
      match rest.drop name.length with
      | '!' :: rest =>
          let suffix := rest.takeWhile isTagCharacter
          if suffix.isEmpty then none
          else some ('!' :: name ++ ['!'], suffix, name.length + 2 + suffix.length)
      | _ =>
          let suffix := rest.takeWhile isTagCharacter
          if suffix.isEmpty then some ([], ['!'], 1)
          else some (['!'], suffix, suffix.length + 1)
  | _ => none

/-- Reads a tag. -/
def tag (scan : Scan) : Option Scan :=
  match scan.noteKey, readTag scan.cursor.rest with
  | some scan, some (handle, suffix, length) =>
      if endsWord (scan.cursor.rest.drop length) then
        some (((scan.allowKey false).emit [.tag handle suffix]).skip length)
      else none
  | _, _ => none

/-- Reads a scalar that is written as an indented block. -/
def blockScalar (scan : Scan) (isLiteral : Bool) : Option Scan :=
  match scan.dropKey with
  | none => none
  | some scan =>
      match Block.read isLiteral scan.indent (scan.cursor.skip 1) with
      | some (text, cursor) =>
          some { (scan.allowKey true).emit [.scalar false text] with cursor }
      | none => none

/-- Reads a scalar in quotes. -/
def quotedScalar (scan : Scan) (quote : Char) : Option Scan :=
  match scan.noteKey with
  | none => none
  | some scan =>
      match Quoted.read quote scan.cursor.rest.length [] (scan.cursor.skip 1) with
      | some (text, cursor) =>
          some { (scan.allowKey false).emit [.scalar false text] with cursor }
      | none => none

/-- Reads a plain scalar. A key may start behind it if a line ended there. -/
def plainScalar (scan : Scan) : Option Scan :=
  match scan.noteKey with
  | none => none
  | some scan =>
      match Plain.read scan.inFlow (scan.indent + 1) scan.cursor.rest.length []
        {} scan.cursor with
      | some (text, hasBreak, cursor) =>
          some { (scan.allowKey hasBreak).emit [.scalar true text] with cursor }
      | none => none

/-- The number that decimal digits stand for. -/
def decimal (digits : List Char) : Nat :=
  digits.foldl (fun value digit => value * 10 + (digit.toNat - '0'.toNat)) 0

/-- The token of a directive with the given words. -/
def directiveToken? (name : List Char) (words : List (List Char)) : Option Token :=
  if name == ['Y', 'A', 'M', 'L'] then
    match words with
    | [version] =>
        let major := version.takeWhile Char.isDigit
        match version.drop major.length with
        | '.' :: minor =>
            if major.isEmpty || minor.isEmpty || 9 < major.length || 9 < minor.length
                || !minor.all Char.isDigit then none
            else some (.versionDirective (decimal major) (decimal minor))
        | _ => none
    | _ => none
  else if name == ['T', 'A', 'G'] then
    match words with
    | [handle, start] =>
        let isHandle := handle.head? == some '!' && handle.getLast? == some '!'
          && ((handle.drop 1).dropLast).all isWordCharacter
        if isHandle && start.all isTagCharacter then some (.tagDirective handle start)
        else none
    | _ => none
  else none

/-- Reads a directive in front of a document. -/
def directive (scan : Scan) : Option Scan :=
  match scan.endBlocks with
  | none => none
  | some scan =>
      let line := (scan.cursor.rest.drop 1).takeWhile (!isBreak ·)
      let words :=
        ((line.splitBy fun left right => isBlank left == isBlank right).filter
        fun word => !word.all isBlank).takeWhile fun word => word.head? != some '#'
      match words with
      | [] => none
      | name :: words =>
          if line.head?.any isBlank then none
          else
            match directiveToken? name words with
            | some token => some ((scan.emit [token]).skip (line.length + 1))
            | none => none

/-- The characters that a plain scalar does not start with. -/
def indicators : List Char :=
  ['-', '?', ':', ',', '[', ']', '\x7b', '\x7d', '#', '&', '*', '!', '|', '>', '\x27',
    '"', '%', '@', '\x60']

/-- Reads the next token, which starts with the given character. -/
def token (scan : Scan) (character : Char) (rest : List Char) : Option Scan :=
  let endsHere := endsWord rest
  if scan.cursor.column == 0 && character == '%' then scan.directive
  else if scan.cursor.isAtMark ['-', '-', '-'] then scan.documentMark .documentStart
  else if scan.cursor.isAtMark ['.', '.', '.'] then scan.documentMark .documentEnd
  else if character == '[' then scan.openFlow .flowSequenceStart
  else if character == '\x7b' then scan.openFlow .flowMappingStart
  else if character == ']' then scan.closeFlow .flowSequenceEnd
  else if character == '\x7d' then scan.closeFlow .flowMappingEnd
  else if character == ',' then scan.flowEntry
  else if character == '-' && endsHere then scan.blockEntry
  else if character == '?' && (scan.inFlow || endsHere) then scan.keyMark
  else if character == ':' && (scan.inFlow || endsHere) then scan.valueMark
  else if character == '*' then scan.anchorName .reference
  else if character == '&' then scan.anchorName .anchor
  else if character == '!' then scan.tag
  else if character == '|' && !scan.inFlow then scan.blockScalar true
  else if character == '>' && !scan.inFlow then scan.blockScalar false
  else if character == '\x27' || character == '"' then scan.quotedScalar character
  else if !(isBlank character || indicators.contains character) || character == '-'
      || (!scan.inFlow && (character == '?' || character == ':')) then scan.plainScalar
  else none

/-- Reads all tokens from here on, as far as they can be read, and tells whether the end
was reached. -/
def run : (fuel : Nat) → Scan → List Token × Bool
  | 0, scan => (scan.tokens, false)
  | fuel + 1, scan =>
      let scan := skipSpace scan.cursor.rest.length scan
      let scan := scan.closeBlocks scan.cursor.column
      match scan.cursor.rest with
      | [] =>
          match scan.endBlocks with
          | some scan => (scan.tokens, true)
          | none => (scan.tokens, false)
      | character :: rest =>
          match scan.token character rest with
          | some scan => run fuel scan
          | none => (scan.tokens, false)

end Scan

/-- The tokens of a text, as far as they can be read, and whether that is up to its
end. -/
def Token.ofText (characters : List Char) : List Token × Bool :=
  Scan.run (characters.length + 1) { cursor := { rest := characters } }

end Yaml

end Lineup
