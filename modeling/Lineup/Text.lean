/-!
# Text

Source text, file names and messages are byte sequences. They are usually UTF-8, but
nothing here requires it: every function is defined on every byte sequence and leaves
unknown bytes alone.
-/

namespace Lineup

/-- A sequence of bytes, read as UTF-8 wherever it is well formed. -/
abbrev Text := List UInt8

/-- The UTF-8 bytes of a string. -/
def utf8 (string : String) : Text :=
  string.toUTF8.data.toList

namespace Byte

abbrev tab : UInt8 := 0x09
abbrev lineFeed : UInt8 := 0x0a
abbrev verticalTab : UInt8 := 0x0b
abbrev formFeed : UInt8 := 0x0c
abbrev carriageReturn : UInt8 := 0x0d
abbrev space : UInt8 := 0x20
abbrev quote : UInt8 := 0x22
abbrev hash : UInt8 := 0x23
abbrev dollar : UInt8 := 0x24
abbrev apostrophe : UInt8 := 0x27
abbrev star : UInt8 := 0x2a
abbrev dash : UInt8 := 0x2d
abbrev dot : UInt8 := 0x2e
abbrev slash : UInt8 := 0x2f
abbrev equals : UInt8 := 0x3d
abbrev atSign : UInt8 := 0x40
abbrev backslash : UInt8 := 0x5c
abbrev underscore : UInt8 := 0x5f
abbrev openBrace : UInt8 := 0x7b
abbrev closeBrace : UInt8 := 0x7d

/-- The decimal digits `0` to `9`. -/
def isDigit (byte : UInt8) : Bool :=
  0x30 ≤ byte && byte ≤ 0x39

/-- The letters of the ASCII alphabet. -/
def isAlpha (byte : UInt8) : Bool :=
  (0x41 ≤ byte && byte ≤ 0x5a) || (0x61 ≤ byte && byte ≤ 0x7a)

/-- The two bytes that end a line. -/
def isLineEnd (byte : UInt8) : Bool :=
  byte == lineFeed || byte == carriageReturn

/-- The bytes that separate words within a line. -/
def isInlineSpace (byte : UInt8) : Bool :=
  byte == space || byte == tab || byte == verticalTab || byte == formFeed

end Byte

namespace Text

/-- The decimal digits of a natural number. -/
def ofNat (value : Nat) : Text :=
  utf8 (String.ofList (Nat.toDigits 10 value))

/-- The decimal digits of an integer, after a dash when it is negative. -/
def ofInt (value : Int) : Text :=
  if value < 0 then Byte.dash :: ofNat value.natAbs else ofNat value.natAbs

/-- Whether the text ends with another one. -/
def endsWith (text ending : Text) : Bool :=
  ending.isSuffixOf text

/-- Whether the text starts with another one. -/
def startsWith (text start : Text) : Bool :=
  start.isPrefixOf text

/-- The text without one given ending; a text that ends otherwise is left as it is. -/
def dropEnding (text ending : Text) : Text :=
  if text.endsWith ending then text.take (text.length - ending.length) else text

/-- The pieces between occurrences of a separator byte. There is always at least one
piece. -/
def splitOn (separator : UInt8) : Text → List Text
  | [] => [[]]
  | byte :: rest =>
      if byte == separator then [] :: splitOn separator rest
      else
        match splitOn separator rest with
        | piece :: pieces => (byte :: piece) :: pieces
        | [] => [[byte]]

/-- The pieces with a separator between each two of them. -/
def join (separator : Text) : List Text → Text
  | [] => []
  | [piece] => piece
  | piece :: pieces => piece ++ separator ++ join separator pieces

/-- Each occurrence of one byte replaced by another. -/
def replaceByte (old new : UInt8) (text : Text) : Text :=
  text.map fun byte => if byte == old then new else byte

/-- A run of one byte. -/
def fill (byte : UInt8) (count : Nat) : Text :=
  List.replicate count byte

end Text

end Lineup
