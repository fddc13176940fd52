import Lineup.Syntax.Span
import Lineup.Text.Case
import Lineup.Text.Quoted

/-!
# Type members

What decides the place of a member among the members of its type: its kind, its access
level, its modifiers and its name, all read off the tokens of its declaration. A member
that is not recognised is of unknown kind.
-/

namespace Lineup

/-- The kind of a type member, by number. Numbers outside the table of names are kinds
that no member has. -/
structure MemberKind where
  number : Int
  deriving DecidableEq, Repr

namespace MemberKind

def constant : MemberKind := ⟨0⟩
def field : MemberKind := ⟨1⟩
def constructor : MemberKind := ⟨2⟩
def destructor : MemberKind := ⟨3⟩
def property : MemberKind := ⟨4⟩
def indexer : MemberKind := ⟨5⟩
def delegate : MemberKind := ⟨6⟩
def event : MemberKind := ⟨7⟩
def method : MemberKind := ⟨8⟩
def operator : MemberKind := ⟨9⟩
def conversionOperator : MemberKind := ⟨10⟩
def nestedType : MemberKind := ⟨11⟩
def unknown : MemberKind := ⟨12⟩

/-- The names of the member kinds, in the order of their numbers. -/
def names : List String :=
  ["constant", "field", "constructor", "destructor", "property", "indexer", "delegate",
    "event", "method", "operator", "conversion-operator", "nested-type", "unknown"]

/-- All member kinds, in their default order. -/
def all : List MemberKind :=
  [constant, field, constructor, destructor, property, indexer, delegate, event, method,
    operator, conversionOperator, nestedType, unknown]

/-- The name of a member kind. -/
def name (kind : MemberKind) : Text :=
  match if kind.number < 0 then none else names[kind.number.toNat]? with
  | some name => utf8 name
  | none => utf8 "kind(" ++ Text.ofInt kind.number ++ utf8 ")"

/-- The kind with the given name. Case does not matter, blanks around the name are
dropped, and an underscore may stand for a dash. -/
def ofName? (name : Text) : Option MemberKind :=
  let wanted := name.trim.toLower.replaceByte Byte.underscore Byte.dash
  all.find? fun kind => kind.name == wanted

/-- What is said of a name that no kind has. -/
def unknownMessage (name : Text) : Text :=
  utf8 "unknown member kind " ++ name.quoted

end MemberKind

/-- The access level of a member, by rank: the most visible comes first. -/
structure AccessLevel where
  rank : Int
  deriving DecidableEq, Repr

namespace AccessLevel

def publicAccess : AccessLevel := ⟨0⟩
def internalAccess : AccessLevel := ⟨1⟩
def protectedInternalAccess : AccessLevel := ⟨2⟩
def protectedAccess : AccessLevel := ⟨3⟩
def privateProtectedAccess : AccessLevel := ⟨4⟩
def privateAccess : AccessLevel := ⟨5⟩

/-- The access level that modifiers give, or the fallback when they give none. -/
def ofModifiers (has : String → Bool) (fallback : AccessLevel) : AccessLevel :=
  if has "public" then publicAccess
  else if has "protected" && has "internal" then protectedInternalAccess
  else if has "private" && has "protected" then privateProtectedAccess
  else if has "internal" then internalAccess
  else if has "protected" then protectedAccess
  else if has "private" then privateAccess
  else fallback

/-- The access level of members without an access modifier, by the kind of their owner:
members of an interface are public, all others are private. -/
def default : NodeKind → AccessLevel
  | .typeDeclaration .interfaceType _ => publicAccess
  | _ => privateAccess

end AccessLevel

/-- The group a member belongs to by its other modifiers, by rank. -/
structure ModifierGroup where
  rank : Int
  deriving DecidableEq, Repr

namespace ModifierGroup

def constGroup : ModifierGroup := ⟨0⟩
def staticReadonlyGroup : ModifierGroup := ⟨1⟩
def staticGroup : ModifierGroup := ⟨2⟩
def readonlyGroup : ModifierGroup := ⟨3⟩
def abstractGroup : ModifierGroup := ⟨4⟩
def virtualGroup : ModifierGroup := ⟨5⟩
def overrideGroup : ModifierGroup := ⟨6⟩
def plainGroup : ModifierGroup := ⟨7⟩

/-- The group that modifiers give. -/
def ofModifiers (has : String → Bool) : ModifierGroup :=
  if has "const" then constGroup
  else if has "static" && has "readonly" then staticReadonlyGroup
  else if has "static" then staticGroup
  else if has "readonly" then readonlyGroup
  else if has "abstract" then abstractGroup
  else if has "virtual" then virtualGroup
  else if has "override" then overrideGroup
  else plainGroup

end ModifierGroup

/-- What decides the place of a member. -/
structure MemberInfo where
  kind : MemberKind
  access : AccessLevel
  modifier : ModifierGroup
  /-- The declared name, empty for operators and whatever has none. -/
  name : Text
  deriving DecidableEq, Repr

namespace Member

/-- What has been seen of a declaration before a token of it. -/
structure Reading where
  parens : Nat := 0
  brackets : Nat := 0
  angles : Nat := 0
  /-- The last identifier outside of all brackets. -/
  name : Text := []
  previous : Option Token := none

/-- Whether the reading stands outside of all brackets. -/
def Reading.isOutside (reading : Reading) : Bool :=
  reading.parens == 0 && reading.brackets == 0 && reading.angles == 0

/-- Whether the previous token is spelled as given. -/
def Reading.follows (reading : Reading) (spelling : String) : Bool :=
  reading.previous.any fun token => token.is spelling

/-- Whether the previous token is an identifier. -/
def Reading.followsIdentifier (reading : Reading) : Bool :=
  reading.previous.any Token.isIdentifier

/-- What the first words of a declaration say about it. -/
structure Form where
  isConstant : Bool
  isEvent : Bool
  isDelegate : Bool

/-- The kind of a declaration that ends or starts an initializer outside of brackets. -/
def Form.variableKind (form : Form) : MemberKind :=
  if form.isEvent then .event
  else if form.isDelegate then .delegate
  else if form.isConstant then .constant
  else .field

/-- The kind and the name of a member, from the tokens that remain to be read. -/
def shapeFrom (form : Form) (reading : Reading) : List Token → MemberKind × Text
  | [] => (if form.isConstant then .constant else .unknown, reading.name)
  | token :: rest =>
      let outside := reading.isOutside
      let noBrackets := reading.parens == 0 && reading.brackets == 0
      let next := { reading with previous := some token }
      if token.is "operator" && noBrackets then
        (if reading.follows "implicit" || reading.follows "explicit" then
            .conversionOperator
          else .operator, [])
      else if token.is "this" && outside
        && rest.head?.any fun token => token.is "[" then
        (.indexer, utf8 "this")
      else if token.is "<" && noBrackets && reading.followsIdentifier then
        shapeFrom form { next with angles := next.angles + 1 } rest
      else if token.is ">" && 0 < reading.angles then
        shapeFrom form { next with angles := next.angles - 1 } rest
      else if token.is "(" && outside
        && (reading.followsIdentifier || reading.follows ">") then
        (if form.isDelegate then .delegate else .method, reading.name)
      else if (token.is openBrace || token.is "=>") && outside then
        (if form.isEvent then .event else .property, reading.name)
      else if (token.is "=" || token.is ";" || token.is ",") && outside then
        (form.variableKind, reading.name)
      else if token.is "(" then
        shapeFrom form { next with parens := next.parens + 1 } rest
      else if token.is ")" then
        shapeFrom form { next with parens := next.parens - 1 } rest
      else if token.is "[" then
        shapeFrom form { next with brackets := next.brackets + 1 } rest
      else if token.is "]" then
        shapeFrom form { next with brackets := next.brackets - 1 } rest
      else if token.isIdentifier && outside then
        shapeFrom form { next with name := token.text } rest
      else shapeFrom form next rest

/-- The kind and the name of a member, from the tokens after its attributes and
modifiers. -/
def shape (isConstant : Bool) : List Token → MemberKind × Text
  | [] => (.unknown, [])
  | first :: rest =>
      if first.is "~" then
        match rest with
        | name :: _ => (.destructor, if name.isIdentifier then name.text else [])
        | [] => (.destructor, [])
      else if first.isIdentifier && !first.is "delegate"
          && rest.head?.any fun token => token.is "(" then
        (.constructor, first.text)
      else
        let form : Form :=
          { isConstant, isEvent := first.is "event", isDelegate := first.is "delegate" }
        shapeFrom form {} (first :: rest)

/-- Whether a token of a declaration is one of its modifiers. -/
def isModifier (token : Token) : Bool :=
  token.isIdentifier && Span.isModifier token.text

/-- What decides the place of a member whose owner gives the access level `fallback`. -/
def classify (fallback : AccessLevel) (node : Node) : MemberInfo :=
  let declaration := Span.skipAttributes 0 node.head
  let modifiers := declaration.takeWhile isModifier
  let has (word : String) : Bool := modifiers.any fun token => token.is word
  let (kind, name) :=
    match node.kind with
    | .typeDeclaration _ name => (MemberKind.nestedType, name)
    | _ => shape (has "const") (declaration.dropWhile isModifier)
  { kind, name,
    access := AccessLevel.ofModifiers has fallback,
    modifier := ModifierGroup.ofModifiers has }

end Member

end Lineup
