import Lineup.Syntax.Node

/-!
# Spans

How many tokens belong to the construct at the front of a token sequence, and what that
construct is. Only significant tokens decide; trivia is passed over.
-/

namespace Lineup

namespace Span

/-- The words that may precede a declaration. -/
def modifiers : List String :=
  ["public", "private", "protected", "internal", "static", "readonly", "const",
    "volatile", "abstract", "virtual", "override", "sealed", "new", "extern", "unsafe",
    "async", "partial", "required", "file", "fixed", "ref", "scoped"]

/-- Whether a word may precede a declaration. -/
def isModifier (word : Text) : Bool :=
  modifiers.any fun modifier => word == utf8 modifier

/-- The number of trivia tokens that belong to what precedes them: all up to the first
line end, but no preprocessor line. -/
def trailing : List Token → Nat
  | [] => 0
  | token :: rest =>
      if !token.isTrivia || token.kind == .directive then 0
      else if token.kind == .newline then 1
      else trailing rest + 1

/-- The number of tokens up to the closer that matches the opener at the front, with
`depth` openers already open. An opener that is never closed reaches to the end. -/
def nested (opener closer : String) (depth : Nat) : List Token → Nat
  | [] => 0
  | token :: rest =>
      if token.is opener then nested opener closer (depth + 1) rest + 1
      else if token.is closer then
        if depth ≤ 1 then 1 else nested opener closer (depth - 1) rest + 1
      else nested opener closer depth rest + 1

/-- The number of tokens up to a semicolon when it is the next significant token, else
none. -/
def semicolon : List Token → Nat
  | [] => 0
  | token :: rest =>
      if token.isTrivia then
        match semicolon rest with
        | 0 => 0
        | width + 1 => width + 2
      else if token.is ";" then 1
      else 0

/-- Whether the next significant token is spelled as given. -/
def nextIs (spelling : String) (tokens : List Token) : Bool :=
  (tokens.find? fun token => !token.isTrivia).any fun token => token.is spelling

/-- What is open while the end of an item is sought. -/
structure ItemState where
  parens : Nat := 0
  brackets : Nat := 0
  braces : Nat := 0
  /-- Whether an assignment or an arrow came before, outside of brackets. -/
  assigned : Bool := false

/-- Whether the item stands outside of parentheses and square brackets. -/
def ItemState.isOutside (state : ItemState) : Bool :=
  state.parens == 0 && state.brackets == 0

/-- The number of tokens up to the end of an item. It ends after a semicolon outside of
brackets, after a block unless an initializer follows or an assignment came before, and
in front of a closing brace that it did not open. -/
def itemFrom (state : ItemState) : List Token → Nat
  | [] => 0
  | token :: rest =>
      if 0 < state.braces then
        if token.is openBrace then
          itemFrom { state with braces := state.braces + 1 } rest + 1
        else if token.is closeBrace then
          if state.braces == 1 && state.isOutside && !state.assigned
            && !nextIs "=" rest then 1
          else itemFrom { state with braces := state.braces - 1 } rest + 1
        else itemFrom state rest + 1
      else if token.is "(" then
        itemFrom { state with parens := state.parens + 1 } rest + 1
      else if token.is ")" then
        itemFrom { state with parens := state.parens - 1 } rest + 1
      else if token.is "[" then
        itemFrom { state with brackets := state.brackets + 1 } rest + 1
      else if token.is "]" then
        itemFrom { state with brackets := state.brackets - 1 } rest + 1
      else if token.is openBrace then itemFrom { state with braces := 1 } rest + 1
      else if token.is closeBrace then 0
      else if token.is ";" && state.isOutside then 1
      else if (token.is "=" || token.is "=>") && state.isOutside then
        itemFrom { state with assigned := true } rest + 1
      else itemFrom state rest + 1

/-- The number of tokens of the item at the front. A closing brace in front is an item
alone. -/
def item (tokens : List Token) : Nat :=
  if tokens.head?.any fun token => token.is closeBrace then 1 else itemFrom {} tokens

theorem nested_pos (opener closer : String) (depth : Nat) (token : Token)
    (rest : List Token) :
    0 < nested opener closer depth (token :: rest) := by
  simp only [nested]
  repeat' split
  all_goals omega

theorem item_pos (token : Token) (rest : List Token) : 0 < item (token :: rest) := by
  by_cases closing : token.is closeBrace
  · simp [item, closing]
  · simp only [item, List.head?_cons, Option.any_some, closing, itemFrom, Nat.lt_irrefl]
    repeat' split
    all_goals simp_all

/-- The number of brackets and parentheses open after a token. -/
def depthAfter (depth : Nat) (token : Token) : Nat :=
  if token.is "(" || token.is "[" then depth + 1
  else if token.is ")" || token.is "]" then depth - 1
  else depth

/-- Whether a token starts or closes a block or ends a statement. -/
def isBoundary (token : Token) : Bool :=
  token.is openBrace || token.is ";" || token.is closeBrace

/-- The number of tokens in front of the body of a type, with `depth` brackets and
parentheses open. -/
def typeHeader (depth : Nat) : List Token → Nat
  | [] => 0
  | token :: rest =>
      let depth := depthAfter depth token
      if depth == 0 && isBoundary token then 0 else typeHeader depth rest + 1

/-- The number of tokens in front of the body of a namespace. -/
def namespaceHeader (tokens : List Token) : Nat :=
  (tokens.takeWhile fun token => !isBoundary token).length

/-- The tokens after any attribute lists at the front, with `depth` brackets open. -/
def skipAttributes (depth : Nat) : List Token → List Token
  | [] => []
  | token :: rest =>
      if token.is "[" then skipAttributes (depth + 1) rest
      else if depth = 0 then token :: rest
      else if token.is "]" then skipAttributes (depth - 1) rest
      else skipAttributes depth rest

/-- Whether a token is a modifier. -/
def isModifierToken (token : Token) : Bool :=
  !token.isTrivia && isModifier token.text

/-- The keyword and the name of the type that the significant tokens at the front
declare. -/
def declaredType? (ahead : List Token) : Option (TypeKeyword × Text) :=
  match (skipAttributes 0 ahead).dropWhile isModifierToken with
  | [] => none
  | keyword :: rest =>
      let named (type : TypeKeyword) : List Token → Option (TypeKeyword × Text)
        | name :: _ => if name.isIdentifier then some (type, name.text) else none
        | [] => none
      if keyword.is "class" then named .classType rest
      else if keyword.is "struct" then named .structType rest
      else if keyword.is "interface" then named .interfaceType rest
      else if keyword.is "enum" then named .enumType rest
      else if keyword.is "record" then
        match rest with
        | next :: after =>
            if next.is "class" || next.is "struct" then named .recordType after
            else named .recordType rest
        | [] => none
      else none

/-- Whether tokens can name a namespace or a type: identifiers apart from each other,
with the punctuation of names between them. -/
def isName (afterIdentifier : Bool) : List Token → Bool
  | [] => true
  | token :: rest =>
      if token.isIdentifier then !afterIdentifier && isName true rest
      else token.isAny [".", "::", "<", ">", ",", "?", "[", "]", "*"]
        && isName false rest

/-- The tokens without a given word in front. -/
def skipWord (word : String) : List Token → List Token
  | [] => []
  | token :: rest => if token.is word then rest else token :: rest

/-- Whether tokens start with an alias and an equals sign. -/
def isAlias : List Token → Bool
  | name :: equals :: _ => name.isIdentifier && equals.is "="
  | _ => false

/-- Whether the significant tokens at the front are a using directive, and not a using
statement or declaration. -/
def isUsingDirective (ahead : List Token) : Bool :=
  match skipWord "global" ahead with
  | [] => false
  | word :: rest =>
      let subject := (skipWord "static" rest).takeWhile fun token => !token.is ";"
      word.is "using"
        && !subject.any (fun token => token.is openBrace || token.is closeBrace)
        && (subject.isEmpty || isAlias subject || isName false subject)

/-- Whether the significant tokens at the front are an attribute list for the assembly
or the module, which belongs to no declaration. -/
def isGlobalAttribute : List Token → Bool
  | opener :: target :: colon :: _ =>
      opener.is "[" && (target.is "assembly" || target.is "module") && colon.is ":"
  | _ => false

end Span

end Lineup
