import Lineup.Syntax.Span

/-!
# Using directives

What decides the place of a using directive: whether it is global or static, whether it
declares an alias, and what it imports.
-/

namespace Lineup

/-- What decides the place of a using directive. -/
structure DirectiveInfo where
  /-- The imported namespace or type, empty if there is none. -/
  target : Text
  /-- The declared alias, empty if there is none. -/
  aliasName : Text
  isStatic : Bool
  isGlobal : Bool
  deriving DecidableEq, Repr

/-- Whether the directive declares an alias. -/
def DirectiveInfo.hasAlias (info : DirectiveInfo) : Bool :=
  !info.aliasName.isEmpty

namespace Directive

/-- The tokens without a semicolon at their end. -/
def dropSemicolon (tokens : List Token) : List Token :=
  if tokens.getLast?.any fun token => token.is ";" then tokens.dropLast else tokens

/-- The tokens without a given word in front, and whether it was there. -/
def takeWord (word : String) : List Token → Bool × List Token
  | [] => (false, [])
  | token :: rest => if token.is word then (true, rest) else (false, token :: rest)

/-- The alias in front of the tokens, empty if there is none, and the tokens after
it. -/
def takeAlias : List Token → Text × List Token
  | name :: equals :: rest =>
      if name.isIdentifier && equals.is "=" then (name.text, rest)
      else ([], name :: equals :: rest)
  | tokens => ([], tokens)

/-- What decides the place of a using directive. -/
def classify (source : Text) (node : Node) : DirectiveInfo :=
  let (isGlobal, tokens) := takeWord "global" (dropSemicolon node.head)
  let (_, tokens) := takeWord "using" tokens
  let (isStatic, tokens) := takeWord "static" tokens
  let (aliasName, tokens) := takeAlias tokens
  let target :=
    match tokens.head?, tokens.getLast? with
    | some first, some last => Token.textBetween source first last
    | _, _ => []
  { target, aliasName, isStatic, isGlobal }

end Directive

end Lineup
