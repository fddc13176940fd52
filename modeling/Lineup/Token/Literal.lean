import Lineup.Token

/-!
# Literals and comments

Finding the end of strings, character literals and block comments. An interpolated
string holds code in braces, that code may hold further literals, and so on; the scanner
therefore keeps a stack of the constructs it is inside of and reads one byte at a time.
The stack empties at the end of the outermost construct.
-/

namespace Lineup

namespace Literal

/-- A construct the scanner is inside of. -/
inductive Enclosure where
  /-- One byte to pass over, whatever it is. -/
  | skip
  /-- The signs `@` and `$` in front of a string. -/
  | opening (verbatim interpolated : Bool)
  /-- A string that ends at the next quote. -/
  | quoted (verbatim interpolated : Bool)
  /-- A string that ends at a run of `quotes` quotes, after `run` quotes in a row. -/
  | raw (quotes run : Nat)
  /-- Code inside an interpolated string, with `depth` braces open in it. -/
  | hole (depth : Nat)
  | character
  | comment
  deriving DecidableEq, Repr

/-- Whether the text is a string literal, apart from any signs `@` and `$` in front of
its quote. -/
def opensString : Text → Bool
  | [] => false
  | byte :: rest =>
      byte == Byte.quote
        || ((byte == Byte.atSign || byte == Byte.dollar) && opensString rest)

/-- What a quote opens, given the text after it: three quotes or more open a raw string
that ends at as many quotes. -/
def openQuote (verbatim interpolated : Bool) (rest : Text) : List Enclosure :=
  let further := (rest.takeWhile (· == Byte.quote)).length
  if further < 2 then [.quoted verbatim interpolated]
  else List.replicate further .skip ++ [.raw (further + 1) 0]

/-- Whether an unfinished construct ends in front of the byte: strings and characters
that cannot span lines end where the line ends. -/
def Enclosure.endsBefore : Enclosure → UInt8 → Bool
  | .quoted verbatim _, byte => !verbatim && Byte.isLineEnd byte
  | .character, byte => Byte.isLineEnd byte
  | _, _ => false

/-- What remains open of a construct after one byte of it, given the text after that
byte. -/
def Enclosure.advance (enclosure : Enclosure) (byte : UInt8) (rest : Text) :
    List Enclosure :=
  match enclosure with
  | .skip => []
  | .opening verbatim interpolated =>
      if byte == Byte.atSign then [.opening true interpolated]
      else if byte == Byte.dollar then [.opening verbatim true]
      else openQuote verbatim interpolated rest
  | .quoted verbatim interpolated =>
      if byte == Byte.quote then
        if verbatim && rest.head? == some Byte.quote then [.skip, enclosure] else []
      else if byte == Byte.backslash && !verbatim then [.skip, enclosure]
      else if byte == Byte.openBrace && interpolated then
        if rest.head? == some Byte.openBrace then [.skip, enclosure]
        else [.hole 0, enclosure]
      else [enclosure]
  | .raw quotes run =>
      if byte == Byte.quote then
        if run + 1 < quotes
          || rest.head? == some Byte.quote then [.raw quotes (run + 1)] else []
      else [.raw quotes 0]
  | .hole depth =>
      if byte == Byte.openBrace then [.hole (depth + 1)]
      else if byte == Byte.closeBrace then
        match depth with
        | 0 => []
        | outer + 1 => [.hole outer]
      else if byte == Byte.quote then openQuote false false rest ++ [enclosure]
      else if (byte == Byte.dollar || byte == Byte.atSign) && opensString rest then
        [.opening (byte == Byte.atSign) (byte == Byte.dollar), enclosure]
      else if byte == Byte.apostrophe then [.character, enclosure]
      else if byte == Byte.slash && rest.head? == some Byte.star then
        [.skip, .comment, enclosure]
      else [enclosure]
  | .character =>
      if byte == Byte.backslash then [.skip, .character]
      else if byte == Byte.apostrophe then []
      else [.character]
  | .comment =>
      if byte == Byte.star && rest.head? == some Byte.slash then [.skip] else [.comment]

/-- The position at which all open constructs have ended, when the text starts at
`position`. A construct that never ends reaches to the end of the text. When a line end
cuts off a literal inside a hole, the hole takes the line end as part of its code. -/
def reach : List Enclosure → Text → Nat → Nat
  | [], _, position => position
  | _ :: _, [], position => position
  | inner :: outer, byte :: rest, position =>
      if inner.endsBefore byte then
        if outer.isEmpty then position else reach outer rest (position + 1)
      else reach (inner.advance byte rest ++ outer) rest (position + 1)

/-- The number of bytes, from the start of the text, until all open constructs have
ended. -/
def width (enclosures : List Enclosure) (text : Text) : Nat :=
  reach enclosures text 0

end Literal

end Lineup
