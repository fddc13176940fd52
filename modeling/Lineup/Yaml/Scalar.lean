import Lineup.Yaml.Cursor

/-!
# Scalars of a YAML text

Reading the text of a scalar: plain, in single or double quotes, or as an indented
block. In all but the last, a single line end between two lines counts as a blank.
-/

namespace Lineup

namespace Yaml

/-- The blanks and line ends between two words. -/
structure Gap where
  blanks : List Char := []
  firstBreak : List Char := []
  moreBreaks : List Char := []
  hasBreak : Bool := false

/-- What a gap contributes to a scalar. -/
def Gap.folded (gap : Gap) : List Char :=
  if !gap.hasBreak then gap.blanks
  else if gap.firstBreak == ['\n'] then
    if gap.moreBreaks.isEmpty then [' '] else gap.moreBreaks
  else gap.firstBreak ++ gap.moreBreaks

/-- Reads the rest of a gap. A tab must not stand for the indentation of a line, which
is `indent` columns wide. -/
def readGap (indent : Int) : (fuel : Nat) → Gap → Cursor → Option (Gap × Cursor)
  | 0, gap, cursor => some (gap, cursor)
  | fuel + 1, gap, cursor =>
      match cursor.rest with
      | [] => some (gap, cursor)
      | character :: _ =>
          if isBlank character then
            if gap.hasBreak then
              if character == '\t' && (cursor.column : Int) < indent then none
              else readGap indent fuel gap (cursor.skip 1)
            else
              readGap indent fuel { gap with blanks := gap.blanks ++ [character] }
                (cursor.skip 1)
          else if isBreak character then
            let (ending, behind) := cursor.readBreak
            let gap :=
              if gap.hasBreak then { gap with moreBreaks := gap.moreBreaks ++ ending }
              else { gap with blanks := [], firstBreak := ending, hasBreak := true }
            readGap indent fuel gap behind
          else some (gap, cursor)

namespace Plain

/-- The characters that end a plain scalar inside brackets. -/
def flowIndicators : List Char :=
  [',', '?', '[', ']', '\x7b', '\x7d']

/-- The word of a plain scalar at the start of a text. -/
def word (inFlow : Bool) : List Char → List Char
  | [] => []
  | character :: rest =>
      if isBlank character || isBreak character || (character == ':' && endsWord rest)
          || (inFlow && flowIndicators.contains character) then []
      else character :: word inFlow rest

/-- Reads the rest of a plain scalar after `text` and a gap, and tells whether a line
ended behind its last word. -/
def read (inFlow : Bool) (indent : Int) :
    (fuel : Nat) → (text : List Char) → Gap → Cursor →
    Option (List Char × Bool × Cursor)
  | 0, text, gap, cursor => some (text, gap.hasBreak, cursor)
  | fuel + 1, text, gap, cursor =>
      let next := if cursor.isAtDocumentMark || cursor.rest.head? == some '#' then []
        else word inFlow cursor.rest
      if next.isEmpty then some (text, gap.hasBreak, cursor)
      else
        let text := text ++ gap.folded ++ next
        match readGap indent cursor.rest.length {} (cursor.skip next.length) with
        | none => none
        | some (gap, cursor) =>
            if !inFlow && (cursor.column : Int) < indent then
              some (text, gap.hasBreak, cursor)
            else read inFlow indent fuel text gap cursor

end Plain

namespace Quoted

/-- The number that hexadecimal digits stand for. -/
def hexValue? (digits : List Char) : Option Nat :=
  digits.foldl (fun value? digit =>
    match value? with
    | none => none
    | some value =>
        if digit.isDigit then some (value * 16 + (digit.toNat - '0'.toNat))
        else if 'a' ≤ digit && digit ≤ 'f' then
          some (value * 16 + (digit.toNat - 'a'.toNat + 10))
        else if 'A' ≤ digit && digit ≤ 'F' then
          some (value * 16 + (digit.toNat - 'A'.toNat + 10))
        else none) (some 0)

/-- The character given by a number of hexadecimal digits, with the length of its
escape. -/
def numbered? (count : Nat) (rest : List Char) : Option (Char × Nat) :=
  let digits := rest.take count
  if digits.length < count then none
  else
    match hexValue? digits with
    | some code =>
        if Utf8.isScalar code then some (Char.ofNat code, count + 2) else none
    | none => none

/-- The character that an escape stands for, given what follows its backslash, with the
length of the escape. -/
def escape? : List Char → Option (Char × Nat)
  | '0' :: _ => some ('\x00', 2)
  | 'a' :: _ => some ('\x07', 2)
  | 'b' :: _ => some ('\x08', 2)
  | 't' :: _ | '\t' :: _ => some ('\t', 2)
  | 'n' :: _ => some ('\n', 2)
  | 'v' :: _ => some ('\x0b', 2)
  | 'f' :: _ => some ('\x0c', 2)
  | 'r' :: _ => some ('\r', 2)
  | 'e' :: _ => some ('\x1b', 2)
  | ' ' :: _ => some (' ', 2)
  | '"' :: _ => some ('"', 2)
  | '\x27' :: _ => some ('\x27', 2)
  | '/' :: _ => some ('/', 2)
  | '\\' :: _ => some ('\\', 2)
  | 'N' :: _ => some ('\u0085', 2)
  | '_' :: _ => some ('\u00a0', 2)
  | 'L' :: _ => some ('\u2028', 2)
  | 'P' :: _ => some ('\u2029', 2)
  | 'x' :: rest => numbered? 2 rest
  | 'u' :: rest => numbered? 4 rest
  | 'U' :: rest => numbered? 8 rest
  | _ => none

/-- Reads the rest of a scalar in quotes, after `text`, up to and with its closing
quote. A single quote is written twice in single quotes; escapes are read in double
quotes. -/
def read (quote : Char) :
    (fuel : Nat) → (text : List Char) → Cursor → Option (List Char × Cursor)
  | 0, _, _ => none
  | fuel + 1, text, cursor =>
      let afterGap (gap : Gap) (cursor : Cursor) : Option (List Char × Cursor) :=
        match readGap 0 cursor.rest.length gap cursor with
        | some (gap, cursor) => read quote fuel (text ++ gap.folded) cursor
        | none => none
      if cursor.isAtDocumentMark then none
      else
        match cursor.rest with
        | [] => none
        | character :: rest =>
            if character == quote then
              if quote == '\x27' && rest.head? == some quote then
                read quote fuel (text ++ [quote]) (cursor.skip 2)
              else some (text, cursor.skip 1)
            else if character == '\\' && quote == '"' then
              match rest with
              | next :: _ =>
                  if isBreak next then
                    afterGap { hasBreak := true } (cursor.skip 1).readBreak.2
                  else
                    match escape? rest with
                    | some (meant, length) =>
                        read quote fuel (text ++ [meant]) (cursor.skip length)
                    | none => none
              | [] => none
            else if isBlank character || isBreak character then afterGap {} cursor
            else read quote fuel (text ++ [character]) (cursor.skip 1)

end Quoted

namespace Block

/-- What becomes of the line ends behind the last line of a block. -/
inductive Chomping where
  | strip
  | clip
  | keep
  deriving DecidableEq, Repr

/-- The chomping that a character asks for. -/
def chomping? : Char → Option Chomping
  | '-' => some .strip
  | '+' => some .keep
  | _ => none

/-- The indentation that a character asks for. -/
def width? (character : Char) : Option Nat :=
  if character.isDigit then some (character.toNat - '0'.toNat) else none

/-- Reads the indicators in the head of a block, in either order: how its end is
chomped, and how much wider than its surroundings it is indented. -/
def readHead (cursor : Cursor) : Option (Chomping × Option Nat × Cursor) :=
  let result :=
    match cursor.rest with
    | first :: rest =>
        match chomping? first, width? first with
        | some chomping, _ =>
            match rest.head?.bind width? with
            | some width => (chomping, some width, cursor.skip 2)
            | none => (chomping, none, cursor.skip 1)
        | none, some width =>
            match rest.head?.bind chomping? with
            | some chomping => (chomping, some width, cursor.skip 2)
            | none => (.clip, some width, cursor.skip 1)
        | none, none => (.clip, none, cursor)
    | [] => (.clip, none, cursor)
  let (chomping, width, cursor) := result
  let cursor := (cursor.skipWhile isBlank).skipComment
  match width, cursor.rest with
  | some 0, _ => none
  | _, [] => some (chomping, width, cursor)
  | _, character :: _ =>
      if isBreak character then some (chomping, width, cursor.readBreak.2) else none

/-- Reads indentation and empty lines. An indentation of zero is not known yet, and any
number of spaces is taken; the widest number of them is counted. -/
def readEmptyLines (indent : Nat) :
    (fuel : Nat) → (widest : Nat) → (breaks : List Char) → Cursor →
    Option (Nat × List Char × Cursor)
  | 0, widest, breaks, cursor => some (widest, breaks, cursor)
  | fuel + 1, widest, breaks, cursor =>
      let spaces := (cursor.rest.takeWhile (· == ' ')).length
      let taken := if indent == 0 then spaces else min spaces (indent - cursor.column)
      let cursor := cursor.skip taken
      let widest := max widest cursor.column
      match cursor.rest with
      | [] => some (widest, breaks, cursor)
      | character :: _ =>
          if character == '\t' && (indent == 0 || cursor.column < indent) then none
          else if isBreak character then
            let (ending, behind) := cursor.readBreak
            readEmptyLines indent fuel widest (breaks ++ ending) behind
          else some (widest, breaks, cursor)

/-- The lines of a block read so far. -/
structure Lines where
  text : List Char := []
  /-- The end of the last line. -/
  ending : List Char := []
  /-- The ends of the empty lines after it. -/
  emptyLines : List Char := []
  /-- Whether the last line starts with a blank. -/
  startsBlank : Bool := false

/-- Reads the lines of a block that is indented by `indent` columns. In a folded block
the end of a line counts as a blank between two lines that start with no blank. -/
def readLines (isLiteral : Bool) (indent : Nat) : (fuel : Nat) → Lines → Cursor →
    Option (Lines × Cursor)
  | 0, lines, cursor => some (lines, cursor)
  | fuel + 1, lines, cursor =>
      match cursor.rest with
      | [] => some (lines, cursor)
      | character :: _ =>
          if cursor.column != indent then some (lines, cursor)
          else
            let startsBlank := isBlank character
            let joined :=
              if !isLiteral && !lines.startsBlank && !startsBlank
                && lines.ending == ['\n'] then
                if lines.emptyLines.isEmpty then [' '] else []
              else lines.ending
            let line := cursor.rest.takeWhile (!isBreak ·)
            let (ending, behind) := (cursor.skip line.length).readBreak
            match readEmptyLines indent behind.rest.length 0 [] behind with
            | none => none
            | some (_, emptyLines, cursor) =>
                readLines isLiteral indent fuel
                  { text := lines.text ++ joined ++ lines.emptyLines ++ line
                    ending, emptyLines, startsBlank } cursor

/-- Reads a block below surroundings that are indented by `outer` columns, from behind
its first indicator. -/
def read (isLiteral : Bool) (outer : Int) (cursor : Cursor) :
    Option (List Char × Cursor) :=
  match readHead cursor with
  | none => none
  | some (chomping, width, cursor) =>
      let known :=
        match width with
        | some width => if 0 ≤ outer then outer.toNat + width else width
        | none => 0
      match readEmptyLines known (cursor.rest.length + 1) 0 [] cursor with
      | none => none
      | some (widest, emptyLines, cursor) =>
          let indent :=
            if known == 0 then max (max widest (outer + 1).toNat) 1 else known
          match readLines isLiteral indent cursor.rest.length { emptyLines } cursor with
          | none => none
          | some (lines, cursor) =>
              match chomping with
              | .strip => some (lines.text, cursor)
              | .clip => some (lines.text ++ lines.ending, cursor)
              | .keep => some (lines.text ++ lines.ending ++ lines.emptyLines, cursor)

end Block

end Yaml

end Lineup
