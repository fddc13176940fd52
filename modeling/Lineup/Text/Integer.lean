import Lineup.Text

/-!
# Written integers

Integers of 64 bits in decimal, or in another base told by the digits they start with.
Underscores may stand between digits.
-/

namespace Lineup

namespace Integer

/-- Why a text is not an integer. -/
inductive Fault where
  | malformed
  | outOfRange
  deriving DecidableEq, Repr

/-- The wording of a fault. -/
def Fault.message : Fault → String
  | malformed => "invalid syntax"
  | outOfRange => "value out of range"

/-- The lower case of an ASCII letter. -/
def lower (byte : UInt8) : UInt8 :=
  if 0x41 ≤ byte && byte ≤ 0x5a then byte + 0x20 else byte

/-- The value of a digit; letters go on after nine. -/
def digit? (byte : UInt8) : Option Nat :=
  if Byte.isDigit byte then some (byte.toNat - 0x30)
  else if Byte.isAlpha byte then some ((lower byte).toNat - 0x61 + 10)
  else none

/-- The base that a number is written in, with its digits. A zero alone in front of
other digits asks for base eight. -/
def split (text : Text) : Nat × Text :=
  match text with
  | 0x30 :: mark :: first :: rest =>
      if lower mark == 0x62 then (2, first :: rest)
      else if lower mark == 0x6f then (8, first :: rest)
      else if lower mark == 0x78 then (16, first :: rest)
      else (8, mark :: first :: rest)
  | 0x30 :: rest => (8, rest)
  | _ => (10, text)

/-- The number that digits stand for, after `value`, up to the first fault. -/
def digits (base : Nat) (value : Nat) : Text → Except Fault Nat
  | [] => .ok value
  | byte :: rest =>
      if byte == Byte.underscore then digits base value rest
      else
        match digit? byte with
        | none => .error .malformed
        | some digit =>
            if base ≤ digit then .error .malformed
            else if UInt64.size ≤ value * base + digit then .error .outOfRange
            else digits base (value * base + digit) rest

/-- Whether each underscore stands between digits; `afterDigit` tells whether a digit is
in front. -/
def hasProperUnderscores (afterDigit : Bool) : Text → Bool
  | [] => true
  | byte :: rest =>
      if byte == Byte.underscore then
        afterDigit && rest.head?.any (fun next => (digit? next).isSome)
          && hasProperUnderscores false rest
      else hasProperUnderscores true rest

/-- An integer without a sign. -/
def readUnsigned (text : Text) : Except Fault Nat :=
  if text.isEmpty then .error .malformed
  else
    let (base, rest) := split text
    match digits base 0 rest with
    | .error fault => .error fault
    | .ok value =>
        if hasProperUnderscores (rest.length < text.length) rest then .ok value
        else .error .malformed

/-- The first number that an integer of 64 bits does not reach. -/
def limit : Nat :=
  UInt64.size / 2

/-- An integer that may have a sign. -/
def read (text : Text) : Except Fault Int :=
  let (isNegative, rest) :=
    match text with
    | 0x2d :: rest => (true, rest)
    | 0x2b :: rest => (false, rest)
    | _ => (false, text)
  match readUnsigned rest with
  | .error fault => .error fault
  | .ok value =>
      if isNegative then
        if value ≤ limit then .ok (-value) else .error .outOfRange
      else if value < limit then .ok value
      else .error .outOfRange

end Integer

end Lineup
