import Lineup.Token.Lexer

/-!
# Lines of trivia

The trivia in front of an item, line by line, and the rules for the blank lines in it:
runs of blank lines shrink to one, and the part of the trivia in front of a whole list
that does not belong to its first item stays in front of the list.
-/

namespace Lineup

/-- One line of trivia. The last line in front of an item is usually not complete: it is
the indentation of the item. -/
structure TriviaLine where
  text : Text
  /-- Whether there is nothing but whitespace on the line. -/
  hasOnlySpace : Bool
  /-- Whether there is a preprocessor line on the line. -/
  hasDirective : Bool
  /-- Whether the line ends with a line end. -/
  isComplete : Bool
  deriving DecidableEq, Repr

namespace TriviaLine

/-- The line made of the given tokens, without its line end. -/
def ofTokens (tokens : List Token) : TriviaLine :=
  { text := Token.joined tokens
    hasOnlySpace := tokens.all fun token => token.kind == .whitespace
    hasDirective := tokens.any fun token => token.kind == .directive
    isComplete := false }

/-- The line with its line end. -/
def complete (line : TriviaLine) (lineEnd : Text) : TriviaLine :=
  { line with text := line.text ++ lineEnd, isComplete := true }

/-- The lines of a token sequence, when `current` has been read of the first line. -/
def ofTokensFrom (current : List Token) : List Token → List TriviaLine
  | [] => if current.isEmpty then [] else [ofTokens current]
  | token :: rest =>
      if token.kind == .newline then
        (ofTokens current).complete token.text :: ofTokensFrom [] rest
      else ofTokensFrom (current ++ [token]) rest

/-- The lines of a piece of trivia. -/
def split (trivia : Text) : List TriviaLine :=
  ofTokensFrom [] (Token.lex trivia)

/-- The text of consecutive lines. -/
def joined (lines : List TriviaLine) : Text :=
  lines.flatMap TriviaLine.text

/-- Whether the line is a blank line. -/
def isBlank (line : TriviaLine) : Bool :=
  line.isComplete && line.hasOnlySpace

/-- Whether the line divides what belongs to a list from what belongs to its first
item. -/
def isDivider (line : TriviaLine) : Bool :=
  line.isComplete && (line.hasOnlySpace || line.hasDirective)

/-- The number of lines up to and including the last divider. -/
def headerLength : List TriviaLine → Nat
  | [] => 0
  | line :: rest =>
      match headerLength rest with
      | 0 => if line.isDivider then 1 else 0
      | length + 1 => length + 2

/-- The lines that stay in front of a list, and those that belong to its first item.
Blank lines alone do not stay. -/
def splitHeader (lines : List TriviaLine) : List TriviaLine × List TriviaLine :=
  let length := headerLength lines
  if (lines.take length).all hasOnlySpace then ([], lines)
  else (lines.take length, lines.drop length)

/-- The lines with each run of blank lines reduced to its first one, after a line that
is or is not blank. -/
def collapseFrom (afterBlank : Bool) : List TriviaLine → List TriviaLine
  | [] => []
  | line :: rest =>
      if line.isBlank && afterBlank then collapseFrom true rest
      else line :: collapseFrom line.isBlank rest

/-- The lines with each run of blank lines reduced to its first one. -/
def collapse (lines : List TriviaLine) : List TriviaLine :=
  collapseFrom false lines

/-- The lines without blank lines in front. -/
def dropBlank (lines : List TriviaLine) : List TriviaLine :=
  lines.dropWhile isBlank

end TriviaLine

/-- The line end that a text ends with, empty if there is none. -/
def Text.lineEnd (text : Text) : Text :=
  if text.endsWith [Byte.carriageReturn, Byte.lineFeed] then
    [Byte.carriageReturn, Byte.lineFeed]
  else if text.endsWith [Byte.lineFeed] then [Byte.lineFeed]
  else if text.endsWith [Byte.carriageReturn] then [Byte.carriageReturn]
  else []

end Lineup
