import Lineup.Syntax.Parser

/-!
# What the parser reads next

Between two items of a body the parser looks at the tokens ahead and decides what to
read: a node without a body, or the start of a declaration with one. Here that decision
is a value, an `Item`, which depends on the tokens and on the kind of the body only. A
step of the parser closes the innermost body or takes the next item, and every item ends
in one of three ways.
-/

namespace Lineup

namespace Span

/-- Whether a token can be the last one of an item. -/
def isCloser (token : Token) : Bool :=
  token.is ";" || token.is closeBrace || token.is "]"

/-- How the first `width` tokens end: where the tokens end, in front of a closing brace,
or with a token that closes an item. -/
inductive Ends (tokens : List Token) : Nat → Prop where
  | text : Ends tokens tokens.length
  | brace {width : Nat} {token : Token} (found : tokens[width]? = some token)
      (closing : token.is closeBrace = true) : Ends tokens width
  | closer {last : Nat} {token : Token} (found : tokens[last]? = some token)
      (closes : isCloser token = true) : Ends tokens (last + 1)

namespace Ends

theorem le_length {tokens : List Token} {width : Nat} (ends : Ends tokens width) :
    width ≤ tokens.length := by
  cases ends with
  | text => exact Nat.le_refl _
  | brace found => exact Nat.le_of_lt (List.getElem?_eq_some_iff.mp found).1
  | closer found => exact (List.getElem?_eq_some_iff.mp found).1

theorem cons {tokens : List Token} {width : Nat} (ends : Ends tokens width)
    (token : Token) :
    Ends (token :: tokens) (width + 1) := by
  cases ends with
  | text => exact .text
  | brace found closing => exact .brace (by simpa using found) closing
  | closer found closes => exact .closer (by simpa using found) closes

theorem of_drop {tokens : List Token} {width more : Nat}
    (present : width ≤ tokens.length) (ends : Ends (tokens.drop width) more) :
    Ends tokens (width + more) := by
  induction width generalizing tokens with
  | zero => simpa using ends
  | succ width ih =>
      cases tokens with
      | nil => simp at present
      | cons token tokens =>
          have rest := (ih (by simpa using present) (by simpa using ends)).cons token
          rwa [Nat.add_right_comm]

theorem of_none {tokens : List Token} {width : Nat} (inside : width ≤ tokens.length)
    (last : tokens[width]? = none) : Ends tokens width := by
  have size := Nat.le_antisymm inside (List.getElem?_eq_none_iff.mp last)
  exact size ▸ .text

/-- In front of a boundary that neither opens a block nor ends a statement there is a
closing brace. -/
theorem of_boundary {tokens : List Token} {width : Nat} {token : Token}
    (found : tokens[width]? = some token) (boundary : isBoundary token = true)
    (noBlock : ¬ token.is openBrace = true) (noEnd : ¬ token.is ";" = true) :
    Ends tokens width := by
  simp only [isBoundary, Bool.or_eq_true] at boundary
  exact .brace found ((boundary.resolve_left fun either => either.elim noBlock noEnd))

theorem first {token : Token} (closes : isCloser token = true) (rest : List Token) :
    Ends (token :: rest) 1 := by
  have found : (token :: rest)[0]? = some token := rfl
  exact .closer found closes

end Ends

theorem itemFrom_ends (state : ItemState) (tokens : List Token) :
    Ends tokens (itemFrom state tokens) := by
  induction tokens generalizing state with
  | nil => exact .text
  | cons token rest ih =>
      simp only [itemFrom]
      split
      · split
        · exact (ih _).cons token
        split
        · rename_i closing
          split
          · exact .first (by simp [isCloser, closing]) rest
          · exact (ih _).cons token
        · exact (ih _).cons token
      iterate 5
        split
        · exact (ih _).cons token
      split
      · rename_i closing
        exact .brace rfl closing
      split
      · rename_i final
        rw [Bool.and_eq_true] at final
        exact .first (by simp [isCloser, final.1]) rest
      split
      · exact (ih _).cons token
      · exact (ih _).cons token

theorem item_ends (tokens : List Token) : Ends tokens (item tokens) := by
  cases tokens with
  | nil => exact .text
  | cons token rest =>
      change Ends _ (if token.is closeBrace then 1 else itemFrom {} (token :: rest))
      by_cases closing : token.is closeBrace
      · rw [if_pos closing]
        exact .first (by simp [isCloser, closing]) rest
      · rw [if_neg closing]
        exact itemFrom_ends _ _

theorem nested_ends (opener : String) {closer : String}
    (closes : ∀ token, Token.is token closer = true → isCloser token = true)
    (depth : Nat) (tokens : List Token) :
    Ends tokens (nested opener closer depth tokens) := by
  induction tokens generalizing depth with
  | nil => exact .text
  | cons token rest ih =>
      simp only [nested]
      split
      · exact (ih _).cons token
      split
      · rename_i closing
        split
        · exact .first (closes token closing) rest
        · exact (ih _).cons token
      · exact (ih _).cons token

theorem semicolon_ends (tokens : List Token) :
    semicolon tokens = 0 ∨ Ends tokens (semicolon tokens) := by
  induction tokens with
  | nil => exact .inl rfl
  | cons token rest ih =>
      simp only [semicolon]
      split
      · cases width : semicolon rest with
        | zero => exact .inl rfl
        | succ more =>
            rw [width] at ih
            exact .inr ((ih.resolve_left (Nat.succ_ne_zero more)).cons token)
      split
      · rename_i final
        exact .inr (.first (by simp [isCloser, final]) rest)
      · exact .inl rfl

theorem trailing_le (tokens : List Token) : trailing tokens ≤ tokens.length := by
  induction tokens with
  | nil => exact Nat.le_refl _
  | cons token rest ih =>
      simp only [trailing, List.length_cons]
      split
      · omega
      split
      · omega
      · omega

theorem typeHeader_le (depth : Nat) (tokens : List Token) :
    typeHeader depth tokens ≤ tokens.length := by
  induction tokens generalizing depth with
  | nil => exact Nat.le_refl _
  | cons token rest ih =>
      simp only [typeHeader, List.length_cons]
      split
      · omega
      · exact Nat.succ_le_succ (ih _)

/-- The header of a type is followed by a token that starts or closes a block or ends a
statement. -/
theorem typeHeader_boundary {depth : Nat} {tokens : List Token} {token : Token}
    (next : tokens[typeHeader depth tokens]? = some token) :
    isBoundary token = true := by
  induction tokens generalizing depth with
  | nil => cases next
  | cons first rest ih =>
      simp only [typeHeader] at next
      split at next
      · rename_i stops
        rw [Bool.and_eq_true] at stops
        cases next
        exact stops.2
      · exact ih next

theorem namespaceHeader_le (tokens : List Token) :
    namespaceHeader tokens ≤ tokens.length :=
  (List.takeWhile_prefix _).length_le

/-- The header of a namespace is followed by a token that starts or closes a block or
ends a statement. -/
theorem namespaceHeader_boundary {tokens : List Token} {token : Token}
    (next : tokens[namespaceHeader tokens]? = some token) :
    isBoundary token = true := by
  induction tokens with
  | nil => cases next
  | cons first rest ih =>
      by_cases stops : isBoundary first
      · simp only [namespaceHeader, List.takeWhile_cons, stops] at next
        cases next
        exact stops
      · simp only [namespaceHeader, List.takeWhile_cons, stops] at next
        exact ih next

theorem semicolon_le (tokens : List Token) : semicolon tokens ≤ tokens.length := by
  rcases semicolon_ends tokens with zero | ends
  · rw [zero]
    exact Nat.zero_le _
  · exact ends.le_length

theorem nested_le (opener closer : String) (depth : Nat) (tokens : List Token) :
    nested opener closer depth tokens ≤ tokens.length := by
  induction tokens generalizing depth with
  | nil => exact Nat.le_refl _
  | cons token rest ih =>
      simp only [nested, List.length_cons]
      split
      · exact Nat.succ_le_succ (ih _)
      split
      · split
        · omega
        · exact Nat.succ_le_succ (ih _)
      · exact Nat.succ_le_succ (ih _)

/-- No construct at the front of the tokens reaches past their end. -/
structure WithinTokens (tokens : List Token) : Prop where
  trailing : trailing tokens ≤ tokens.length
  nested : ∀ opener closer depth, nested opener closer depth tokens ≤ tokens.length
  semicolon : semicolon tokens ≤ tokens.length
  item : item tokens ≤ tokens.length
  typeHeader : ∀ depth, typeHeader depth tokens ≤ tokens.length
  namespaceHeader : namespaceHeader tokens ≤ tokens.length

theorem withinTokens (tokens : List Token) : WithinTokens tokens where
  trailing := trailing_le tokens
  nested opener closer depth := nested_le opener closer depth tokens
  semicolon := semicolon_le tokens
  item := (item_ends tokens).le_length
  typeHeader depth := typeHeader_le depth tokens
  namespaceHeader := namespaceHeader_le tokens

end Span

namespace Parser

/-- The kinds of bodies. -/
inductive Scope where
  /-- A file or a namespace, with braces around it or not. -/
  | items (braced : Bool)
  /-- A type. -/
  | members
  deriving DecidableEq, Repr

/-- Whether a body of this kind ends at a closing brace. -/
def Scope.isBraced : Scope → Bool
  | .items braced => braced
  | .members => true

/-- A body of this kind of which nothing has been read. -/
def Scope.start : Scope → Body
  | .items braced => .items braced []
  | .members => .members []

/-- The kind of a body. -/
def Body.scope : Body → Scope
  | .items braced _ => .items braced
  | .members _ => .members

/-- What the parser reads next in a body. -/
inductive Item where
  /-- A node without a body, made of the first `width` tokens. -/
  | leaf (kind : NodeKind) (head : List Token) (width : Nat)
  /-- A declaration whose body starts after the first `width` tokens. -/
  | block (kind : NodeKind) (head : List Token) (scope : Scope) (width : Nat)
  deriving DecidableEq, Repr

namespace Item

/-- A node made of the first `width` tokens, all of which belong to its head. -/
def whole (kind : NodeKind) (width : Nat) (tokens : List Token) : Item :=
  .leaf kind (Token.significant (tokens.take width)) width

/-- The namespace that starts with its keyword. -/
def ofNamespace (keyword : Token) (rest : List Token) : Item :=
  let width := Span.namespaceHeader rest + 1
  let tokens := keyword :: rest
  let head := Token.significant (tokens.take width)
  match tokens[width]? with
  | none => .leaf .namespaceDeclaration head width
  | some token =>
      if token.is openBrace then
        .block .namespaceDeclaration head (.items true) (width + 1)
      else if token.is ";" then
        .block .namespaceDeclaration head (.items false) (width + 1)
      else .leaf .namespaceDeclaration head width

/-- The type declaration at the front. -/
def ofType (keyword : TypeKeyword) (name : Text) (first : Token) (rest : List Token) :
    Item :=
  let kind := NodeKind.typeDeclaration keyword name
  let width := Span.typeHeader (Span.depthAfter 0 first) rest + 1
  let tokens := first :: rest
  let head := Token.significant (tokens.take width)
  match tokens[width]? with
  | none => .leaf kind head width
  | some token =>
      if token.is openBrace then
        if keyword = .enumType then
          let width := width + Span.nested openBrace closeBrace 0 (tokens.drop width)
          .leaf kind head (width + Span.semicolon (tokens.drop width))
        else .block kind head .members (width + 1)
      else if token.is ";" then .leaf kind head (width + 1)
      else .leaf kind head width

/-- What stands next in a body of the given kind. -/
def next (scope : Scope) (first : Token) (rest : List Token) : Item :=
  let tokens := first :: rest
  let ahead := Token.significant tokens
  match scope with
  | .members =>
      match Span.declaredType? ahead with
      | some (keyword, name) => ofType keyword name first rest
      | none => whole .member (Span.item tokens) tokens
  | .items _ =>
      if Span.isUsingDirective ahead then
        whole .usingDirective (Span.item tokens) tokens
      else if first.is "namespace" then ofNamespace first rest
      else if Span.isGlobalAttribute ahead then
        whole .other (Span.nested "[" "]" 0 tokens) tokens
      else
        match Span.declaredType? ahead with
        | some (keyword, name) => ofType keyword name first rest
        | none => whole .other (Span.item tokens) tokens

/-- The item lies within the tokens: a node without a body ends where an item can end,
and the token in front of a body opens it. -/
inductive Fits (tokens : List Token) : Item → Prop where
  | leaf {kind : NodeKind} {head : List Token} {width : Nat} (positive : 0 < width)
      (ends : Span.Ends tokens width) : Fits tokens (.leaf kind head width)
  | block {kind : NodeKind} {head : List Token} {scope : Scope} {width : Nat}
        {token : Token}
      (found : tokens[width + 1]? = some token)
      (opens : token.is (if scope.isBraced then openBrace else ";") = true) :
      Fits tokens (.block kind head scope (width + 2))

theorem closeBrace_isCloser (token : Token) (closing : token.is closeBrace = true) :
    Span.isCloser token = true := by
  simp [Span.isCloser, closing]

theorem bracket_isCloser (token : Token) (closing : token.is "]" = true) :
    Span.isCloser token = true := by
  simp [Span.isCloser, closing]

theorem semicolon_isCloser {token : Token} (final : token.is ";" = true) :
    Span.isCloser token = true := by
  simp [Span.isCloser, final]

theorem ofNamespace_fits (keyword : Token) (rest : List Token) :
    (ofNamespace keyword rest).Fits (keyword :: rest) := by
  have inside : Span.namespaceHeader rest + 1 ≤ (keyword :: rest).length :=
    Nat.succ_le_succ (Span.namespaceHeader_le rest)
  simp only [ofNamespace]
  cases found : (keyword :: rest)[Span.namespaceHeader rest + 1]? with
  | none => exact .leaf (Nat.succ_pos _) (.of_none inside found)
  | some token =>
      have boundary : Span.isBoundary token = true := by
        rw [List.getElem?_cons_succ] at found
        exact Span.namespaceHeader_boundary found
      dsimp only
      split
      · rename_i opens
        exact .block found opens
      split
      · rename_i ends
        exact .block found ends
      · rename_i noBlock noEnd
        exact .leaf (Nat.succ_pos _) (.of_boundary found boundary noBlock noEnd)

theorem ofType_fits (keyword : TypeKeyword) (name : Text) (first : Token)
    (rest : List Token) :
    (ofType keyword name first rest).Fits (first :: rest) := by
  have inside : Span.typeHeader (Span.depthAfter 0 first) rest + 1
      ≤ (first :: rest).length :=
    Nat.succ_le_succ (Span.typeHeader_le _ rest)
  simp only [ofType]
  cases found : (first :: rest)[Span.typeHeader (Span.depthAfter 0 first) rest
    + 1]? with
  | none => exact .leaf (Nat.succ_pos _) (.of_none inside found)
  | some token =>
      have boundary : Span.isBoundary token = true := by
        rw [List.getElem?_cons_succ] at found
        exact Span.typeHeader_boundary found
      dsimp only
      split
      · rename_i opens
        split
        · -- The block of an enum, with a semicolon after it if there is one.
          have block := Span.Ends.of_drop inside
            (Span.nested_ends openBrace closeBrace_isCloser 0 _)
          refine .leaf (by omega) ?_
          rcases Span.semicolon_ends ((first :: rest).drop _) with none | ends
          · rw [none]
            exact block
          · exact .of_drop block.le_length ends
        · exact .block found opens
      split
      · rename_i ends
        exact .leaf (Nat.succ_pos _) (.closer found (semicolon_isCloser ends))
      · rename_i noBlock noEnd
        exact .leaf (Nat.succ_pos _) (.of_boundary found boundary noBlock noEnd)

/-- The next item lies within the tokens. -/
theorem next_fits (scope : Scope) (first : Token) (rest : List Token) :
    (next scope first rest).Fits (first :: rest) := by
  have whole (kind : NodeKind) :
      (whole kind (Span.item (first :: rest)) (first :: rest)).Fits (first :: rest) :=
    .leaf (Span.item_pos first rest) (Span.item_ends _)
  have typed (otherwise : NodeKind) :
      (match Span.declaredType? (Token.significant (first :: rest)) with
        | some (keyword, name) => ofType keyword name first rest
        | none => Item.whole otherwise (Span.item (first :: rest)) (first :: rest)).Fits
          (first :: rest) := by
    cases Span.declaredType? (Token.significant (first :: rest)) with
    | none => exact whole otherwise
    | some declared => exact ofType_fits declared.1 declared.2 first rest
  cases scope with
  | members => exact typed .member
  | items braced =>
      simp only [next]
      split
      · exact whole .usingDirective
      split
      · exact ofNamespace_fits first rest
      split
      · exact .leaf (Span.nested_pos _ _ _ _ _)
          (Span.nested_ends "[" bracket_isCloser 0 _)
      · exact typed .other

/-- What the node of the item stands for. -/
def kind : Item → NodeKind
  | .leaf kind _ _ => kind
  | .block kind _ _ _ => kind

/-- What stands next is a type, a namespace, or a node all of whose tokens belong to its
head. -/
theorem next_cases (scope : Scope) (first : Token) (rest : List Token) :
    (∃ keyword name, next scope first rest = ofType keyword name first rest)
      ∨ (∃ braced, scope = .items braced
        ∧ next scope first rest = ofNamespace first rest)
      ∨ ∃ kind width, next scope first rest = whole kind width (first :: rest)
        ∧ kind ≠ .namespaceDeclaration
        ∧ (kind = .usingDirective →
          Span.isUsingDirective (Token.significant (first :: rest)) = true) := by
  have typed (otherwise : NodeKind) (notNamespace : otherwise ≠ .namespaceDeclaration)
      (notDirective : otherwise ≠ .usingDirective) :
      let item := match Span.declaredType? (Token.significant (first :: rest)) with
        | some (keyword, name) => ofType keyword name first rest
        | none => whole otherwise (Span.item (first :: rest)) (first :: rest)
      (∃ keyword name, item = ofType keyword name first rest)
        ∨ ∃ kind width, item = whole kind width (first :: rest)
        ∧ kind ≠ .namespaceDeclaration
          ∧ (kind = .usingDirective →
            Span.isUsingDirective (Token.significant (first :: rest)) = true) := by
    cases Span.declaredType? (Token.significant (first :: rest)) with
    | none =>
        exact .inr ⟨otherwise, _, rfl, notNamespace, fun is => absurd is notDirective⟩
    | some declared => exact .inl ⟨declared.1, declared.2, rfl⟩
  cases scope with
  | members => exact (typed .member nofun nofun).imp_right .inr
  | items braced =>
      simp only [next]
      split
      · rename_i directive
        exact .inr (.inr ⟨.usingDirective, _, rfl, nofun, fun _ => directive⟩)
      split
      · exact .inr (.inl ⟨braced, rfl, rfl⟩)
      split
      · exact .inr (.inr ⟨.other, _, rfl, nofun, nofun⟩)
      · exact (typed .other nofun nofun).imp_right .inr

theorem kind_ofType (keyword : TypeKeyword) (name : Text) (first : Token)
    (rest : List Token) :
    (ofType keyword name first rest).kind = .typeDeclaration keyword name := by
  simp only [ofType]
  cases (first :: rest)[Span.typeHeader (Span.depthAfter 0 first) rest + 1]? with
  | none => rfl
  | some token =>
      dsimp only
      split
      · split <;> rfl
      · split <;> rfl

theorem kind_ofNamespace (keyword : Token) (rest : List Token) :
    (ofNamespace keyword rest).kind = .namespaceDeclaration := by
  simp only [ofNamespace]
  cases (keyword :: rest)[Span.namespaceHeader rest + 1]? with
  | none => rfl
  | some token =>
      dsimp only
      split
      · rfl
      · split <;> rfl

theorem scope_ofType {keyword : TypeKeyword} {name : Text} {first : Token}
    {rest head : List Token} {kind : NodeKind} {inner : Scope} {width : Nat}
    (reads : ofType keyword name first rest = .block kind head inner width) :
    inner = .members := by
  simp only [ofType] at reads
  cases found : (first :: rest)[Span.typeHeader (Span.depthAfter 0 first) rest
    + 1]? with
  | none => simp [found] at reads
  | some token =>
      simp only [found] at reads
      split at reads
      · split at reads
        · cases reads
        · cases reads
          rfl
      · split at reads <;> cases reads

theorem kind_of_unbraced {scope inner : Scope} {first : Token} {rest head : List Token}
    {kind : NodeKind} {width : Nat}
    (reads : next scope first rest = .block kind head inner width)
    (unbraced : inner.isBraced = false) : kind = .namespaceDeclaration := by
  rcases next_cases scope first
    rest with ⟨keyword, name, is⟩ | ⟨braced, -, is⟩ | ⟨_, _, is, -⟩
  · rw [is] at reads
    rw [scope_ofType reads] at unbraced
    cases unbraced
  · rw [is] at reads
    have same := kind_ofNamespace first rest
    rwa [reads] at same
  · rw [is] at reads
    cases reads

theorem kind_next_members (first : Token) (rest : List Token) :
    (next .members first rest).kind ≠ .namespaceDeclaration := by
  rcases next_cases .members first
    rest with ⟨keyword, name, is⟩ | ⟨_, empty, -⟩ | ⟨kind, _, is, other, -⟩
  · rw [is, kind_ofType]
    nofun
  · cases empty
  · rw [is]
    exact other

theorem is_of_directive {scope : Scope} {first : Token} {rest : List Token}
    (starts : first.isTrivia = false)
    (is : (next scope first rest).kind = .usingDirective) :
    first.is "global" = true ∨ first.is "using" = true := by
  rcases next_cases scope first
    rest with ⟨keyword, name, reads⟩ | ⟨_, _, reads⟩ | ⟨_, _, reads, _, ahead⟩
  · rw [reads, kind_ofType] at is
    cases is
  · rw [reads, kind_ofNamespace] at is
    cases is
  · rw [reads] at is
    have directive := ahead is
    cases global : first.is "global" with
    | true => exact .inl rfl
    | false =>
        simp only [Span.isUsingDirective, Token.significant, List.filter_cons, starts,
          Bool.not_false, if_true, Span.skipWord, global, Bool.false_eq_true, if_false,
          Bool.and_eq_true] at directive
        exact .inr directive.1.1

theorem is_closeBrace_of_directive {scope : Scope} {first : Token} {rest : List Token}
    (starts : first.isTrivia = false)
    (is : (next scope first rest).kind = .usingDirective) :
    first.is closeBrace = false := by
  refine Bool.eq_false_iff.mpr fun closing => ?_
  simp only [Token.is, Bool.and_eq_true, beq_iff_eq] at closing
  have spelled (word : String) (other : utf8 closeBrace ≠ utf8 word) :
      first.is word = false := by
    simp [Token.is, closing.2, other]
  simpa [spelled "global" (by decide),
    spelled "using" (by decide)] using is_of_directive starts is

/-- The header of a declaration with a body ends with what opens the body. -/
theorem header_ends {scope inner : Scope} {first : Token}
    {header rest head : List Token} {kind : NodeKind}
    (reads : next scope first (header ++ rest)
      = .block kind head inner (header.length + 1)) :
    ∃ front last, first :: header = front ++ [last]
      ∧ (last.is openBrace = true ∨ last.is ";" = true) := by
  have fits := next_fits scope first (header ++ rest)
  rw [reads] at fits
  generalize size : header.length + 1 = width at fits
  cases fits with
  | @block _ _ _ before token found opens =>
      have within : (first :: header)[before + 1]? = some token := by
        rwa [← List.cons_append, List.getElem?_append_left (by simp; omega)] at found
      have final : (first :: header).getLast? = some token := by
        rw [List.getLast?_eq_getElem?, List.length_cons, size]
        exact within
      obtain ⟨front, ends⟩ := List.getLast?_eq_some_iff.mp final
      refine ⟨front, token, ends, ?_⟩
      split at opens
      · exact .inl opens
      · exact .inr opens

theorem kind_of_block {scope inner : Scope} {first : Token} {rest head : List Token}
    {kind : NodeKind} {width : Nat}
    (reads : next scope first rest = .block kind head inner width) :
    kind ≠ .usingDirective := by
  have same : (next scope first rest).kind = kind := by rw [reads]; rfl
  rcases next_cases scope first
    rest with ⟨keyword, name, is⟩ | ⟨braced, -, is⟩ | ⟨_, _, is, -⟩
  · rw [is, kind_ofType] at same
    rw [← same]
    nofun
  · rw [is, kind_ofNamespace] at same
    rw [← same]
    nofun
  · rw [is] at reads
    cases reads

end Item

/-- Read an item whose extent is known. -/
def Progress.take (progress : Progress) (leading : Text) (tokens : List Token) :
    Item → Progress × List Token
  | .leaf kind head width => progress.addLeaf kind leading head width tokens
  | .block kind head scope width =>
      progress.enter kind leading head scope.start width tokens

theorem Progress.readNamespace_eq (progress : Progress) (leading : Text)
    (keyword : Token) (rest : List Token) :
    progress.readNamespace leading keyword rest =
      progress.take leading (keyword :: rest) (Item.ofNamespace keyword rest) := by
  simp only [readNamespace, Item.ofNamespace]
  cases (keyword :: rest)[Span.namespaceHeader rest + 1]? with
  | none => rfl
  | some token =>
      simp only [apply_ite (progress.take leading (keyword :: rest))]
      rfl

theorem Progress.readType_eq (progress : Progress) (keyword : TypeKeyword)
    (name leading : Text) (first : Token) (rest : List Token) :
    progress.readType keyword name leading first rest =
      progress.take leading (first :: rest) (Item.ofType keyword name first rest) := by
  simp only [readType, Item.ofType]
  cases (first :: rest)[Span.typeHeader (Span.depthAfter 0 first) rest + 1]? with
  | none => rfl
  | some token =>
      simp only [apply_ite (progress.take leading (first :: rest))]
      rfl

/-- A step of the parser closes the innermost body or takes the next item. -/
theorem Progress.read_eq (progress : Progress) (leading : Text) (first : Token)
    (rest : List Token) :
    progress.read leading first rest =
      if progress.body.scope.isBraced && first.is closeBrace then
        progress.readClosing leading first rest
      else progress.take leading (first :: rest)
        (Item.next progress.body.scope first rest) := by
  have braced : progress.body.isBraced = progress.body.scope.isBraced := by
    cases progress.body <;> rfl
  simp only [read, braced]
  split
  · rfl
  have typed (otherwise : NodeKind) :
      (match Span.declaredType? (Token.significant (first :: rest)) with
        | some (keyword, name) => progress.readType keyword name leading first rest
        | none =>
            progress.addItem otherwise leading (Span.item (first :: rest))
              (first :: rest)) =
      progress.take leading (first :: rest)
        (match Span.declaredType? (Token.significant (first :: rest)) with
          | some (keyword, name) => Item.ofType keyword name first rest
          | none =>
              Item.whole otherwise (Span.item (first :: rest)) (first :: rest)) := by
    cases Span.declaredType? (Token.significant (first :: rest)) with
    | none => rfl
    | some declared =>
        exact readType_eq progress declared.1 declared.2 leading first rest
  cases progress.body with
  | members nodes => exact typed .member
  | items braced segments =>
      simp only [Body.scope, Item.next,
        apply_ite (progress.take leading (first :: rest))]
      rw [← typed .other, readNamespace_eq]
      rfl

end Parser

end Lineup
