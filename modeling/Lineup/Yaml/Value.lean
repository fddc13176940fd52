import Lineup.Text.Integer
import Lineup.Yaml.Node

/-!
# Values of YAML scalars

What the text of a scalar stands for. A plain scalar may stand for a number, a truth
value or nothing at all, by its spelling; every other scalar is text, unless its tag
says otherwise.
-/

namespace Lineup

namespace Yaml

/-- What a scalar stands for. -/
inductive Value where
  | null
  | bool (value : Bool)
  | int (value : Int)
  | float (value : Float)
  | text

namespace Value

/-- The tag of a value. -/
def tag : Value → Text
  | null => utf8 "!!null"
  | bool _ => utf8 "!!bool"
  | int _ => utf8 "!!int"
  | float _ => utf8 "!!float"
  | text => utf8 "!!str"

/-- The spellings that stand for a value by themselves. -/
def named? (scalar : Text) : Option Value :=
  let isOne (names : List String) : Bool := names.any fun name => utf8 name == scalar
  let infinity : Float := 1.0 / 0.0
  if isOne ["", "~", "null", "Null", "NULL"] then some null
  else if isOne ["true", "True", "TRUE"] then some (bool true)
  else if isOne ["false", "False", "FALSE"] then some (bool false)
  else if isOne [".nan", ".NaN", ".NAN"] then some (float (0.0 / 0.0))
  else if isOne [".inf", ".Inf", ".INF", "+.inf", "+.Inf", "+.INF"] then
    some (float infinity)
  else if isOne ["-.inf", "-.Inf", "-.INF"] then some (float (-infinity))
  else none

/-- The number that decimal digits stand for. -/
def decimal (digits : Text) : Nat :=
  digits.foldl (fun value byte => value * 10 + (byte.toNat - 0x30)) 0

/-- A text without a sign in front, and whether the sign was a minus. -/
def dropSign : Text → Bool × Text
  | 0x2d :: rest => (true, rest)
  | 0x2b :: rest => (false, rest)
  | rest => (false, rest)

/-- The exponent at the end of a number, which is zero if none is written. -/
def exponent? : Text → Option Int
  | [] => some 0
  | mark :: rest =>
      let (isNegative, digits) := dropSign rest
      if Integer.lower mark == 0x65 && !digits.isEmpty && digits.all Byte.isDigit then
        some (if isNegative then -(decimal digits : Int) else decimal digits)
      else none

/-- The number with the given digits and exponent, if it is not too large. -/
def scale? (digits : Nat) (exponent : Int) : Option Float :=
  if digits == 0 then some 0.0
  else
    let size := (Nat.toDigits 10 digits).length + exponent
    if 310 < size then none
    else if size < -330 then some 0.0
    else
      let value := Float.ofScientific digits (exponent < 0) exponent.natAbs
      if value.isInf then none else some value

/-- A number with a point or an exponent. -/
def float? (scalar : Text) : Option Value :=
  let (isNegative, rest) := dropSign scalar
  let whole := rest.takeWhile Byte.isDigit
  let rest := rest.drop whole.length
  let hasPoint := rest.head? == some Byte.dot
  let fraction := if hasPoint then (rest.drop 1).takeWhile Byte.isDigit else []
  let rest := if hasPoint then rest.drop (fraction.length + 1) else rest
  if whole.isEmpty && fraction.isEmpty then none
  else
    match exponent? rest with
    | none => none
    | some exponent =>
        (scale? (decimal (whole ++ fraction))
          (exponent - fraction.length)).map fun value =>
          float (if isNegative then -value else value)

/-- An integer. Underscores may stand anywhere in it. -/
def int? (scalar : Text) : Option Value :=
  let plain := scalar.filter (· != Byte.underscore)
  match Integer.read plain, Integer.readUnsigned plain with
  | .ok value, _ => some (int value)
  | .error _, .ok value => some (int value)
  | .error _, .error _ => none

/-- The value of a plain scalar without a tag. -/
def ofPlain (scalar : Text) : Value :=
  match named? scalar, scalar with
  | some value, _ => value
  | none, [] => text
  | none, first :: _ =>
      if first == Byte.dot then (float? scalar).getD text
      else if Byte.isDigit first || first == Byte.dash || first == 0x2b then
        match int? scalar with
        | some value => value
        | none => (float? (scalar.filter (· != Byte.underscore))).getD text
      else text

/-- The tags whose scalars have a value of their own kind. -/
def valueTags : List Text :=
  [utf8 "!!null", utf8 "!!bool", utf8 "!!int", utf8 "!!float", utf8 "!!timestamp"]

/-- The value of a scalar. A scalar that contradicts its tag has none. -/
def ofScalar? (tag : Text) (isPlain : Bool) (scalar : Text) : Option Value :=
  if tag.isEmpty then some (if isPlain then ofPlain scalar else text)
  else if valueTags.contains tag then
    let value := ofPlain scalar
    match value with
    | int number =>
        if tag == utf8 "!!float" then some (float (Float.ofInt number))
        else if value.tag == tag then some value
        else none
    | _ => if value.tag == tag then some value else none
  else some text

/-- The integer of 64 bits that a number stands for. What follows a point is dropped. -/
def toInt? : Value → Option Int
  | int value => if value < Integer.limit then some value else none
  | float value =>
      let limit : Float := 9223372036854775808.0
      if value < limit then some value.toInt64.toInt
      else if value == limit then some (-Integer.limit)
      else none
  | _ => none

end Value

end Yaml

end Lineup
