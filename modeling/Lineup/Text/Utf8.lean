import Lineup.Text

/-!
# UTF-8

Reading characters from bytes and writing them back. A byte that starts no well-formed
character is read alone, as the replacement character.
-/

namespace Lineup

namespace Utf8

/-- The character that stands for bytes that cannot be read. -/
def replacement : Char := '\ufffd'

/-- A byte that continues a character. -/
def isContinuation (byte : UInt8) : Bool :=
  0x80 ≤ byte && byte ≤ 0xbf

/-- The six bits that a continuation byte carries. -/
def payload (byte : UInt8) : Nat :=
  byte.toNat % 64

/-- The code points that are characters. -/
def isScalar (code : Nat) : Bool :=
  code < 0xd800 || (0xe000 ≤ code && code < 0x110000)

/-- The character that starts with the byte `lead`, with the number of further bytes it
covers. The shortest form is the only one accepted. -/
def read? (lead : UInt8) (rest : Text) : Option (Char × Nat) :=
  if lead < 0x80 then
    some (Char.ofNat lead.toNat, 0)
  else if lead < 0xc2 then
    none
  else if lead < 0xe0 then
    match rest with
    | second :: _ =>
        if isContinuation second then
          some (Char.ofNat (lead.toNat % 32 * 64 + payload second), 1)
        else none
    | [] => none
  else if lead < 0xf0 then
    match rest with
    | second :: third :: _ =>
        let code := lead.toNat % 16 * 4096 + payload second * 64 + payload third
        if isContinuation second && isContinuation third && 0x800 ≤ code
          && isScalar code then
          some (Char.ofNat code, 2)
        else none
    | _ => none
  else if lead < 0xf5 then
    match rest with
    | second :: third :: fourth :: _ =>
        let code :=
          lead.toNat % 8 * 262144 + payload second * 4096 + payload third * 64
            + payload fourth
        if isContinuation second && isContinuation third && isContinuation fourth
            && 0x10000 ≤ code && isScalar code then
          some (Char.ofNat code, 3)
        else none
    | _ => none
  else none

/-- Like `read?`, with the replacement character for a byte that starts no character. -/
def read (lead : UInt8) (rest : Text) : Char × Nat :=
  (read? lead rest).getD (replacement, 0)

/-- The bytes of a character. -/
def write (character : Char) : Text :=
  String.utf8EncodeChar character

end Utf8

namespace Text

/-- The characters of a text, where the next `covered` bytes belong to a character
already read. -/
def charsFrom (covered : Nat) : Text → List Char
  | [] => []
  | byte :: rest =>
      match covered with
      | more + 1 => charsFrom more rest
      | 0 =>
          let (character, width) := Utf8.read byte rest
          character :: charsFrom width rest

/-- The characters of a text; each unreadable byte is one replacement character. -/
def chars (text : Text) : List Char :=
  charsFrom 0 text

/-- The text that spells the given characters. -/
def ofChars (characters : List Char) : Text :=
  characters.flatMap Utf8.write

/-- Whether the bytes after the first `covered` ones are well-formed UTF-8. -/
def isWellFormedFrom (covered : Nat) : Text → Bool
  | [] => true
  | byte :: rest =>
      match covered with
      | more + 1 => isWellFormedFrom more rest
      | 0 =>
          match Utf8.read? byte rest with
          | some (_, width) => isWellFormedFrom width rest
          | none => false

/-- Whether the text is well-formed UTF-8. -/
def isWellFormed (text : Text) : Bool :=
  isWellFormedFrom 0 text

end Text

end Lineup
