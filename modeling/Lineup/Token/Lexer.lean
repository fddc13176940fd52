import Lineup.Text.Letter
import Lineup.Token.Literal

/-!
# Lexing

Splitting source text into tokens. Lexing never fails: a character that starts no other
token is a punctuation token of its own, and an unfinished literal reaches to the end of
its line or of the text. The texts of the tokens, put together, are the source text.
-/

namespace Lineup

namespace Token

/-- The punctuation of two characters; all other punctuation has one. -/
def pairs : List Text :=
  ["=>", "::", "==", "!=", "<=", ">=", "&&", "||", "??", "++", "--", "->",
    "+=", "-=", "*=", "/=", "%=", "&=", "|=", "^="].map utf8

/-- The number of bytes up to the end of the line. -/
def lineWidth (text : Text) : Nat :=
  (text.takeWhile fun byte => !Byte.isLineEnd byte).length

/-- The number of bytes that continue a number: letters, digits, underscores, and points
in front of a digit. -/
def numberWidth : Text → Nat
  | [] => 0
  | byte :: rest =>
      if Byte.isDigit byte || Byte.isAlpha byte || byte == Byte.underscore
          || (byte == Byte.dot && rest.head?.any Byte.isDigit) then
        numberWidth rest + 1
      else 0

/-- The number of bytes that continue an identifier, where the first `covered` bytes
belong to a character already read. -/
def identifierWidth (covered : Nat) : Text → Nat
  | [] => 0
  | byte :: rest =>
      match covered with
      | more + 1 => identifierWidth more rest + 1
      | 0 =>
          let (character, width) := Utf8.read byte rest
          if Letter.continuesIdentifier character then identifierWidth width rest + 1
          else 0

/-- The number of bytes that follow the first one in a punctuation token. -/
def punctuationWidth (first : UInt8) (rest : Text) : Nat :=
  if pairs.contains (first :: rest.take 1) then 1 else (Utf8.read first rest).2

/-- The kind of the first token of a text, and the number of bytes it has after the
first one. A preprocessor line is recognised only where nothing but blanks precedes it
on its line. -/
def first (lineStart : Bool) (byte : UInt8) (rest : Text) : TokenKind × Nat :=
  if byte == Byte.lineFeed then (.newline, 0)
  else if byte == Byte.carriageReturn then
    (.newline, if rest.head? == some Byte.lineFeed then 1 else 0)
  else if Byte.isInlineSpace byte then
    (.whitespace, (rest.takeWhile Byte.isInlineSpace).length)
  else if byte == Byte.hash && lineStart then (.directive, lineWidth rest)
  else if byte == Byte.slash && rest.head? == some Byte.slash then
    (.lineComment, lineWidth rest)
  else if byte == Byte.slash && rest.head? == some Byte.star then
    (.blockComment, Literal.width [.skip, .comment] rest)
  else if byte == Byte.quote then
    (.string, Literal.width (Literal.openQuote false false rest) rest)
  else if byte == Byte.dollar then
    if Literal.opensString rest then (.string, Literal.width [.opening false true] rest)
    else (.punctuation, 0)
  else if byte == Byte.atSign
      && (rest.head? == some Byte.quote || rest.head? == some Byte.dollar) then
    if Literal.opensString rest then (.string, Literal.width [.opening true false] rest)
    else (.punctuation, 0)
  else if byte == Byte.apostrophe then (.character, Literal.width [.character] rest)
  else if Byte.isDigit byte then (.number, numberWidth rest)
  else if byte == Byte.atSign then
    match identifierWidth 0 rest with
    | 0 => (.punctuation, 0)
    | width + 1 => (.identifier, width + 1)
  else
    let (character, width) := Utf8.read byte rest
    if Letter.startsIdentifier character then (.identifier, identifierWidth width rest)
    else (.punctuation, punctuationWidth byte rest)

/-- Whether only blanks precede, on its line, the token after one of the given kind. -/
def startsLine (lineStart : Bool) : TokenKind → Bool
  | .newline => true
  | .whitespace | .directive => lineStart
  | _ => false

/-- The tokens of a text that starts at `offset`. -/
def lexFrom (lineStart : Bool) (offset : Nat) : Text → List Token
  | [] => []
  | byte :: rest =>
      let (kind, width) := first lineStart byte rest
      let token : Token := { kind, text := byte :: rest.take width, offset }
      token :: lexFrom (startsLine lineStart kind) token.stop (rest.drop width)
  termination_by text => text.length

/-- The tokens of a source text. -/
def lex (source : Text) : List Token :=
  lexFrom true 0 source

end Token

end Lineup
