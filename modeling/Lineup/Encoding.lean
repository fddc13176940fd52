import Lineup.Encoding.Wide

/-!
# Encodings

The encoding of a file is told by its byte-order mark. A file is decoded to UTF-8 text,
and written back in the encoding and with the mark it had.
-/

namespace Lineup

/-- The encoding of a file, with its byte-order mark. -/
inductive Encoding where
  /-- UTF-8 without a mark. -/
  | utf8
  /-- UTF-8 with a mark. -/
  | utf8Marked
  | utf16 (order : ByteOrder)
  | utf32 (order : ByteOrder)
  deriving DecidableEq, Repr

namespace Encoding

/-- All encodings, in the order of their numbers. -/
def all : List Encoding :=
  [.utf8, .utf8Marked, .utf16 .littleEndian, .utf16 .bigEndian, .utf32 .littleEndian,
    .utf32 .bigEndian]

/-- The name of an encoding. -/
def name : Encoding → String
  | utf8 => "utf-8"
  | utf8Marked => "utf-8-bom"
  | utf16 .littleEndian => "utf-16le"
  | utf16 .bigEndian => "utf-16be"
  | utf32 .littleEndian => "utf-32le"
  | utf32 .bigEndian => "utf-32be"

/-- The encoding with a given number, if there is one. -/
def ofNumber? (number : Int) : Option Encoding :=
  if number < 0 then none else all[number.toNat]?

/-- The encoding that a number stands for. A number without an encoding stands for plain
UTF-8. -/
def ofNumber (number : Int) : Encoding :=
  (ofNumber? number).getD .utf8

/-- The name that a number has. -/
def nameOfNumber (number : Int) : Text :=
  match ofNumber? number with
  | some encoding => Lineup.utf8 encoding.name
  | none => Lineup.utf8 "encoding(" ++ Text.ofInt number ++ Lineup.utf8 ")"

/-- The byte-order mark in front of the body of a file. -/
def mark : Encoding → Text
  | utf8 => []
  | utf8Marked => [0xef, 0xbb, 0xbf]
  | utf16 .littleEndian => [0xff, 0xfe]
  | utf16 .bigEndian => [0xfe, 0xff]
  | utf32 .littleEndian => [0xff, 0xfe, 0x00, 0x00]
  | utf32 .bigEndian => [0x00, 0x00, 0xfe, 0xff]

/-- The encoding that the mark of a file tells. The mark of UTF-32 is looked for before
that of UTF-16, which it starts with. -/
def detect (data : Text) : Encoding :=
  let marked := [utf8Marked, utf32 .littleEndian, utf16 .littleEndian, utf16 .bigEndian,
    utf32 .bigEndian]
  (marked.find? fun encoding => data.startsWith encoding.mark).getD utf8

/-- The text of a body without a mark. A body in UTF-8 is taken as it is. -/
def decodeBody (encoding : Encoding) (body : Text) : Text :=
  match encoding with
  | utf8 | utf8Marked => body
  | utf16 order => Text.ofChars (Utf16.read order body)
  | utf32 order => Text.ofChars (Utf32.read order body)

/-- The body that holds a text. -/
def encodeBody (encoding : Encoding) (text : Text) : Text :=
  match encoding with
  | utf8 | utf8Marked => text
  | utf16 order => Utf16.write order text.chars
  | utf32 order => Utf32.write order text.chars

/-- The text of a file, and its encoding. -/
def decode (data : Text) : Text × Encoding :=
  let encoding := detect data
  (encoding.decodeBody (data.drop encoding.mark.length), encoding)

/-- The bytes of a file that holds a text in an encoding. -/
def encode (encoding : Encoding) (text : Text) : Text :=
  encoding.mark ++ encoding.encodeBody text

end Encoding

end Lineup
