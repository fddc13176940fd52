import Mathlib.Data.List.TakeWhile
import Lineup.Proofs.Syntax.Items
import Lineup.Proofs.Token.Runs

/-!
# What an item depends on

The next item of a body is decided in two steps: its form is read off the significant
tokens ahead, and then its extent is sought. Neither depends on the places of the
tokens.
-/

namespace Lineup

namespace Token

/-- The token without its place. -/
def bare (token : Token) : Token :=
  { token with offset := 0 }

@[simp] theorem is_bare (token : Token) (spelling : String) :
    token.bare.is spelling = token.is spelling := rfl

@[simp] theorem isTrivia_bare (token : Token) :
    token.bare.isTrivia = token.isTrivia := rfl

@[simp] theorem isIdentifier_bare (token : Token) :
    token.bare.isIdentifier = token.isIdentifier := rfl

@[simp] theorem significant_bare (tokens : List Token) :
    significant (tokens.map bare) = (significant tokens).map bare := by
  simp [significant, List.filter_map, Function.comp_def]

/-- Tokens are the same without their places when their kinds and texts are. -/
theorem map_bare_iff {tokens others : List Token} :
    tokens.map bare = others.map bare ↔ tokens.map face = others.map face := by
  have faces (tokens : List Token) :
      tokens.map bare = (tokens.map face).map fun face => ⟨face.1, face.2, 0⟩ := by
    simp [bare, face]
  have bares (tokens : List Token) : tokens.map face = (tokens.map bare).map face := by
    simp [bare, face]
  constructor
  · intro same
    rw [bares, same, ← bares]
  · intro same
    rw [faces, same, ← faces]

end Token

namespace Span

open Token (bare)

@[simp] theorem nested_bare (opener closer : String) (depth : Nat)
    (tokens : List Token) :
    nested opener closer depth (tokens.map bare)
      = nested opener closer depth tokens := by
  induction tokens generalizing depth with
  | nil => rfl
  | cons token tokens ih => simp only [List.map_cons, nested, Token.is_bare, ih]

@[simp] theorem semicolon_bare (tokens : List Token) :
    semicolon (tokens.map bare) = semicolon tokens := by
  induction tokens with
  | nil => rfl
  | cons token tokens ih =>
      simp only [List.map_cons, semicolon, Token.isTrivia_bare, Token.is_bare, ih]
      rfl

@[simp] theorem nextIs_bare (spelling : String) (tokens : List Token) :
    nextIs spelling (tokens.map bare) = nextIs spelling tokens := by
  simp only [nextIs, List.find?_map, Option.any_map, Function.comp_def,
    Token.isTrivia_bare, Token.is_bare]

@[simp] theorem itemFrom_bare (state : ItemState) (tokens : List Token) :
    itemFrom state (tokens.map bare) = itemFrom state tokens := by
  induction tokens generalizing state with
  | nil => rfl
  | cons token tokens ih =>
      simp only [List.map_cons, itemFrom, Token.is_bare, nextIs_bare, ih]

@[simp] theorem item_bare (tokens : List Token) :
    item (tokens.map bare) = item tokens := by
  simp only [item, List.head?_map, Option.any_map, Token.is_bare, itemFrom_bare]

@[simp] theorem typeHeader_bare (depth : Nat) (tokens : List Token) :
    typeHeader depth (tokens.map bare) = typeHeader depth tokens := by
  induction tokens generalizing depth with
  | nil => rfl
  | cons token tokens ih =>
      simp only [List.map_cons, typeHeader, depthAfter, isBoundary, Token.is_bare, ih]
      rfl

@[simp] theorem namespaceHeader_bare (tokens : List Token) :
    namespaceHeader (tokens.map bare) = namespaceHeader tokens := by
  simp only [namespaceHeader, List.takeWhile_map, List.length_map, Function.comp_def,
    isBoundary, Token.is_bare]

theorem skipAttributes_bare (depth : Nat) (tokens : List Token) :
    skipAttributes depth (tokens.map bare)
      = (skipAttributes depth tokens).map bare := by
  induction tokens generalizing depth with
  | nil => rfl
  | cons token tokens ih =>
      simp only [List.map_cons, skipAttributes, Token.is_bare, ih,
        apply_ite (List.map bare)]

theorem declaredType?_bare (tokens : List Token) :
    declaredType? (tokens.map bare) = declaredType? tokens := by
  have skipped : (skipAttributes 0 (tokens.map bare)).dropWhile isModifierToken
      = ((skipAttributes 0 tokens).dropWhile isModifierToken).map bare := by
    rw [skipAttributes_bare, List.dropWhile_map]
    rfl
  simp only [declaredType?, skipped]
  cases (skipAttributes 0 tokens).dropWhile isModifierToken with
  | nil => rfl
  | cons keyword rest =>
      cases rest with
      | nil => rfl
      | cons name rest => cases rest <;> rfl

theorem skipWord_bare (word : String) (tokens : List Token) :
    skipWord word (tokens.map bare) = (skipWord word tokens).map bare := by
  cases tokens with
  | nil => rfl
  | cons token tokens =>
      simp only [List.map_cons, skipWord, Token.is_bare, apply_ite (List.map bare)]
      rfl

theorem isName_bare (afterIdentifier : Bool) (tokens : List Token) :
    isName afterIdentifier (tokens.map bare) = isName afterIdentifier tokens := by
  induction tokens generalizing afterIdentifier with
  | nil => rfl
  | cons token tokens ih =>
      simp only [List.map_cons, isName, Token.isIdentifier_bare, ih]
      rfl

theorem isUsingDirective_bare (tokens : List Token) :
    isUsingDirective (tokens.map bare) = isUsingDirective tokens := by
  have named (tokens : List Token) : isAlias (tokens.map bare) = isAlias tokens := by
    cases tokens with
    | nil => rfl
    | cons token tokens => cases tokens <;> rfl
  simp only [isUsingDirective, skipWord_bare]
  cases skipWord "global" tokens with
  | nil => rfl
  | cons word rest =>
      simp only [List.map_cons, skipWord_bare, List.takeWhile_map, List.any_map, named,
        isName_bare, Function.comp_def, Token.is_bare, List.isEmpty_map]

theorem isGlobalAttribute_bare (tokens : List Token) :
    isGlobalAttribute (tokens.map bare) = isGlobalAttribute tokens := by
  cases tokens with
  | nil => rfl
  | cons opener tokens =>
      cases tokens with
      | nil => rfl
      | cons target tokens => cases tokens <;> rfl

end Span

namespace Parser

/-- What stands next, before its extent is known. -/
inductive Form where
  | ofType (keyword : TypeKeyword) (name : Text)
  | ofNamespace
  /-- An attribute list that belongs to no declaration. -/
  | ofAttributes
  /-- A node of the given kind, all of whose tokens belong to its head. -/
  | ofItem (kind : NodeKind)
  deriving DecidableEq, Repr

namespace Form

/-- The type that is declared, or else an item of the given kind. -/
def declared (otherwise : NodeKind) : Option (TypeKeyword × Text) → Form
  | some (keyword, name) => .ofType keyword name
  | none => .ofItem otherwise

/-- What stands next in a body of the given kind, by the significant tokens ahead. -/
def ahead (scope : Scope) (first : Token) (tokens : List Token) : Form :=
  match scope with
  | .members => declared .member (Span.declaredType? tokens)
  | .items _ =>
      if Span.isUsingDirective tokens then .ofItem .usingDirective
      else if first.is "namespace" then .ofNamespace
      else if Span.isGlobalAttribute tokens then .ofAttributes
      else declared .other (Span.declaredType? tokens)

/-- The item of a given form. -/
def item (first : Token) (rest : List Token) : Form → Item
  | .ofType keyword name => Item.ofType keyword name first rest
  | .ofNamespace => Item.ofNamespace first rest
  | .ofAttributes =>
      Item.whole .other (Span.nested "[" "]" 0 (first :: rest)) (first :: rest)
  | .ofItem kind => Item.whole kind (Span.item (first :: rest)) (first :: rest)

theorem ahead_bare (scope : Scope) (first : Token) (tokens : List Token) :
    ahead scope first.bare (tokens.map Token.bare) = ahead scope first tokens := by
  simp only [ahead, Span.declaredType?_bare, Span.isUsingDirective_bare,
    Span.isGlobalAttribute_bare, Token.is_bare]

end Form

namespace Item

/-- The next item is decided by its form. -/
theorem next_eq (scope : Scope) (first : Token) (rest : List Token) :
    next scope first rest
      = (Form.ahead scope first (Token.significant (first :: rest))).item first
        rest := by
  cases scope with
  | members =>
      simp only [next, Form.ahead]
      cases Span.declaredType? (Token.significant (first :: rest)) with
      | none => rfl
      | some found => rfl
  | items braced =>
      simp only [next, Form.ahead]
      split
      · rfl
      split
      · rfl
      split
      · rfl
      · cases Span.declaredType? (Token.significant (first :: rest)) with
        | none => rfl
        | some found => rfl

/-- The item without the places of its tokens. -/
def bare : Item → Item
  | .leaf kind head width => .leaf kind (head.map Token.bare) width
  | .block kind head scope width => .block kind (head.map Token.bare) scope width

theorem whole_bare (kind : NodeKind) (width : Nat) (tokens : List Token) :
    whole kind width (tokens.map Token.bare) = (whole kind width tokens).bare := by
  simp [whole, bare, ← List.map_take]

theorem ofNamespace_bare (keyword : Token) (rest : List Token) :
    ofNamespace keyword.bare (rest.map Token.bare)
      = (ofNamespace keyword rest).bare := by
  simp only [ofNamespace, Span.namespaceHeader_bare, ← List.map_cons, List.getElem?_map,
    ← List.map_take, Token.significant_bare]
  cases (keyword :: rest)[Span.namespaceHeader rest + 1]? with
  | none => rfl
  | some token =>
      simp only [Option.map_some, Token.is_bare, apply_ite bare]
      rfl

theorem ofType_bare (keyword : TypeKeyword) (name : Text) (first : Token)
    (rest : List Token) :
    ofType keyword name first.bare (rest.map Token.bare)
      = (ofType keyword name first rest).bare := by
  have depth : Span.depthAfter 0 first.bare = Span.depthAfter 0 first := rfl
  simp only [ofType, depth, Span.typeHeader_bare, ← List.map_cons, List.getElem?_map,
    ← List.map_take, ← List.map_drop, Span.nested_bare, Span.semicolon_bare,
    Token.significant_bare]
  cases (first :: rest)[Span.typeHeader (Span.depthAfter 0 first) rest + 1]? with
  | none => rfl
  | some token =>
      simp only [Option.map_some, Token.is_bare, apply_ite bare]
      rfl

/-- The next item does not depend on the places of the tokens. -/
theorem next_bare (scope : Scope) (first : Token) (rest : List Token) :
    next scope first.bare (rest.map Token.bare) = (next scope first rest).bare := by
  have item (form : Form) :
      form.item first.bare (rest.map Token.bare) = (form.item first rest).bare := by
    cases form with
    | ofType keyword name => exact ofType_bare keyword name first rest
    | ofNamespace => exact ofNamespace_bare first rest
    | ofAttributes =>
        simp only [Form.item, ← List.map_cons, Span.nested_bare]
        exact whole_bare _ _ _
    | ofItem kind =>
        simp only [Form.item, ← List.map_cons, Span.item_bare]
        exact whole_bare _ _ _
  rw [next_eq, next_eq, ← List.map_cons, Token.significant_bare, Form.ahead_bare, item]

/-- Tokens of the same kinds and texts make the same item, apart from places. -/
theorem next_congr (scope : Scope) {first other : Token} {rest others : List Token}
    (same : (first :: rest).map Token.face = (other :: others).map Token.face) :
    (next scope first rest).bare = (next scope other others).bare := by
  have bares := Token.map_bare_iff.mpr same
  simp only [List.map_cons, List.cons.injEq] at bares
  rw [← next_bare, ← next_bare, bares.1, bares.2]

end Item

end Parser

end Lineup
