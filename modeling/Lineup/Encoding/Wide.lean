import Lineup.Text.Utf8

/-!
# UTF-16 and UTF-32

Text in units of two or four bytes. Reading never fails: what is no character becomes
the replacement character.
-/

namespace Lineup

/-- The order of the bytes of a unit. -/
inductive ByteOrder where
  | littleEndian
  | bigEndian
  deriving DecidableEq, Repr

namespace ByteOrder

/-- The number that two bytes stand for. -/
def unit16 (order : ByteOrder) (first second : UInt8) : Nat :=
  match order with
  | littleEndian => second.toNat * 256 + first.toNat
  | bigEndian => first.toNat * 256 + second.toNat

/-- The two bytes that stand for a number below 65536. -/
def bytes16 (order : ByteOrder) (unit : Nat) : Text :=
  match order with
  | littleEndian => [(unit % 256).toUInt8, (unit / 256).toUInt8]
  | bigEndian => [(unit / 256).toUInt8, (unit % 256).toUInt8]

/-- The number that four bytes stand for. -/
def unit32 (order : ByteOrder) (first second third fourth : UInt8) : Nat :=
  match order with
  | littleEndian => order.unit16 third fourth * 65536 + order.unit16 first second
  | bigEndian => order.unit16 first second * 65536 + order.unit16 third fourth

/-- The four bytes that stand for a number below 2 to the power of 32. -/
def bytes32 (order : ByteOrder) (unit : Nat) : Text :=
  match order with
  | littleEndian => order.bytes16 (unit % 65536) ++ order.bytes16 (unit / 65536)
  | bigEndian => order.bytes16 (unit / 65536) ++ order.bytes16 (unit % 65536)

end ByteOrder

/-- The character with a given code point, or the replacement character if there is
none. -/
def charOfCode (code : Nat) : Char :=
  if Utf8.isScalar code then Char.ofNat code else Utf8.replacement

namespace Utf16

/-- The units of a text, and whether a single byte is left over. -/
def units (order : ByteOrder) : Text → List Nat × Bool
  | [] => ([], false)
  | [_] => ([], true)
  | first :: second :: rest =>
      let (later, leftOver) := units order rest
      (order.unit16 first second :: later, leftOver)

/-- The first unit of a pair. -/
def isHigh (unit : Nat) : Bool :=
  0xd800 ≤ unit && unit < 0xdc00

/-- The second unit of a pair. -/
def isLow (unit : Nat) : Bool :=
  0xdc00 ≤ unit && unit < 0xe000

/-- The character that two units of a pair stand for. Two second units stand for
none. -/
def ofPair (first second : Nat) : Char :=
  if isHigh first then
    Char.ofNat (0x10000 + (first - 0xd800) * 1024 + (second - 0xdc00))
  else Utf8.replacement

/-- The characters that units stand for. A unit of a pair is read together with a second
unit after it. -/
def ofUnits : List Nat → List Char
  | [] => []
  | [unit] => [charOfCode unit]
  | first :: second :: rest =>
      if (isHigh first || isLow first) && isLow second then
        ofPair first second :: ofUnits rest
      else charOfCode first :: ofUnits (second :: rest)

/-- The units that stand for a character. -/
def toUnits (character : Char) : List Nat :=
  let code := character.toNat
  if code < 0x10000 then [code]
  else [0xd800 + (code - 0x10000) / 1024, 0xdc00 + (code - 0x10000) % 1024]

/-- The characters of a text in UTF-16. -/
def read (order : ByteOrder) (body : Text) : List Char :=
  let (units, leftOver) := units order body
  ofUnits units ++ if leftOver then [Utf8.replacement] else []

/-- The characters in UTF-16. -/
def write (order : ByteOrder) (characters : List Char) : Text :=
  (characters.flatMap toUnits).flatMap order.bytes16

end Utf16

namespace Utf32

/-- The characters of a text in UTF-32. Bytes left over at the end are one replacement
character. -/
def read (order : ByteOrder) : Text → List Char
  | [] => []
  | first :: second :: third :: fourth :: rest =>
      charOfCode (order.unit32 first second third fourth) :: read order rest
  | _ => [Utf8.replacement]

/-- The characters in UTF-32. -/
def write (order : ByteOrder) (characters : List Char) : Text :=
  characters.flatMap fun character => order.bytes32 character.toNat

end Utf32

end Lineup
