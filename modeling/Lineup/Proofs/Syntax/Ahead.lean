import Lineup.Proofs.Syntax.Closed

/-!
# What an item sees of the tokens behind it

The kind of an item is decided by the tokens up to the first boundary, provided that its
attribute lists are closed there. So an item is read in the same way in front of all
tokens that it does not tell apart from those that follow it, and a declaration with a
body in front of every body.
-/

namespace Lineup

namespace Span

open Token (significant)

theorem skipWord_append {word : String} {tokens : List Token} (stops : Stops tokens)
    (apart : ∀ other ∈ [openBrace, ";", closeBrace], utf8 other ≠ utf8 word)
    (more : List Token) :
    skipWord word (tokens ++ more) = skipWord word tokens ++ more
      ∧ Stops (skipWord word tokens) := by
  cases tokens with
  | nil => exact absurd rfl stops.ne_nil
  | cons token tokens =>
      simp only [List.cons_append, skipWord]
      split
      · rename_i is
        refine ⟨rfl, stops.tail (Bool.eq_false_iff.mpr fun boundary => ?_)⟩
        rw [is_of_isBoundary boundary word apart] at is
        cases is
      · exact ⟨rfl, stops⟩

/-- What a using directive names ends in front of the last boundary, or there is a brace
in it. -/
theorem takeWhile_append_of_stops {tokens : List Token} (stops : Stops tokens)
    (more : List Token) :
    (tokens ++ more).takeWhile (fun token => !token.is ";")
      = tokens.takeWhile (fun token => !token.is ";")
      ∨ tokens.takeWhile (fun token => !token.is ";") = tokens
        ∧ (tokens.any fun token => token.is openBrace || token.is closeBrace)
          = true := by
  rw [List.takeWhile_append]
  split
  · rename_i whole
    have all := (List.takeWhile_prefix (fun token => !Token.is token ";")).eq_of_length
      whole
    refine .inr ⟨all, ?_⟩
    cases stops with
    | @intro front last boundary =>
        have member : last ∈ (front ++ [last]).takeWhile fun token =>
            !token.is ";" := by
          rw [all]
          simp
        have goesOn : last.is ";" = false := by
          simpa using List.mem_takeWhile_imp member
        have brace : (last.is openBrace || last.is closeBrace) = true := by
          simpa [isBoundary, goesOn] using boundary
        simp [brace]
  · exact .inl rfl

theorem isUsingDirective_append {tokens : List Token} (stops : Stops tokens)
    (more : List Token) :
    isUsingDirective (tokens ++ more) = isUsingDirective tokens := by
  obtain ⟨global, stopsGlobal⟩ :=
    skipWord_append stops (by decide : ∀ other ∈ _, _ ≠ utf8 "global") more
  rw [isUsingDirective, isUsingDirective, global]
  generalize skipWord "global" tokens = behind at stopsGlobal
  cases behind with
  | nil => exact absurd rfl stopsGlobal.ne_nil
  | cons word rest =>
      simp only [List.cons_append]
      cases keyword : word.is "using" with
      | false => rfl
      | true =>
          have inside : isBoundary word = false :=
            Bool.eq_false_iff.mpr fun boundary => by
            rw [is_of_isBoundary boundary "using" (by decide)] at keyword
            cases keyword
          obtain ⟨static, stopsStatic⟩ := skipWord_append (stopsGlobal.tail inside)
            (by decide : ∀ other ∈ _, _ ≠ utf8 "static") more
          rw [static]
          rcases takeWhile_append_of_stops stopsStatic more with same | ⟨whole, braced⟩
          · rw [same]
          · rw [List.takeWhile_append, whole, if_pos rfl, List.any_append, braced]
            rfl

/-- Whether an attribute list for the assembly stands next is decided in front of the
last boundary. -/
theorem isGlobalAttribute_append {tokens : List Token} (stops : Stops tokens)
    (more : List Token) :
    isGlobalAttribute (tokens ++ more) = isGlobalAttribute tokens := by
  have other (token : Token) (boundary : isBoundary token = true) (spelling : String)
      (member : spelling ∈ ["[", "assembly", "module"]) :
        token.is spelling = false := by
    refine is_of_isBoundary boundary spelling ?_
    revert spelling
    decide
  match tokens with
  | [] => exact absurd rfl stops.ne_nil
  | [opener] =>
      have boundary : isBoundary opener = true := by
        by_contra inside
        exact (stops.tail (by simpa using inside)).ne_nil rfl
      match more with
      | [] => rfl
      | [_] => rfl
      | _ :: _ :: _ => simp [isGlobalAttribute, other opener boundary "[" (by simp)]
  | [opener, target] =>
      match more with
      | [] => rfl
      | _ :: _ =>
          cases opens : isBoundary opener with
          | true => simp [isGlobalAttribute, other opener opens "[" (by simp)]
          | false =>
              have boundary : isBoundary target = true := by
                by_contra inside
                exact ((stops.tail opens).tail (by simpa using inside)).ne_nil rfl
              simp [isGlobalAttribute, other target boundary "assembly" (by simp),
                other target boundary "module" (by simp)]
  | _ :: _ :: _ :: _ => rfl

theorem namespaceHeader_akin {after others : List Token} (akin : Akin after others)
    {tokens : List Token} (inside : namespaceHeader (tokens ++ after) ≤ tokens.length) :
    namespaceHeader (tokens ++ others) = namespaceHeader (tokens ++ after) := by
  simp only [namespaceHeader, List.takeWhile_append] at inside ⊢
  split
  · rename_i whole
    rw [if_pos whole, List.length_append] at inside
    cases after with
    | nil => rw [akin.eq_nil]
    | cons token rest =>
        rw [List.takeWhile_cons] at inside
        split at inside
        · rw [List.length_cons] at inside
          omega
        · rename_i stops
          obtain ⟨behind, rfl⟩ := akin.exists_of_boundary (by simpa using stops)
          simp only [List.takeWhile_cons, if_neg stops]
  · rfl

/-- An item ends with a boundary, in front of a closing brace, or where the text
ends. -/
theorem item_bounded {first : Token} {tokens after : List Token}
    (ends : item (first :: (tokens ++ after)) = tokens.length + 1) :
    after = [] ∨ Stops (first :: tokens)
      ∨ ∃ token ∈ after.head?, token.is closeBrace = true := by
  have bounded {state : ItemState} {tokens : List Token}
      (ends : itemFrom state (tokens ++ after) = tokens.length) :
      after = [] ∨ Stops tokens
        ∨ ∃ token ∈ after.head?, token.is closeBrace = true := by
    induction tokens generalizing state with
    | nil =>
        cases after with
        | nil => exact .inl rfl
        | cons token rest =>
            have closes := outcome_endsAt state token (nextIs "=" rest)
            rw [List.nil_append, itemFrom_cons] at ends
            cases outcome : state.outcome token (nextIs "=" rest) with
            | before =>
                rw [outcome] at closes
                exact .inr (.inr ⟨token, rfl, closes⟩)
            | behind => simp [outcome, Outcome.width] at ends
            | goesOn next => simp [outcome, Outcome.width] at ends
    | cons token tokens ih =>
        rw [List.cons_append, itemFrom_cons] at ends
        have boundary := outcome_endsAt state token (nextIs "=" (tokens ++ after))
        cases outcome : state.outcome token (nextIs "=" (tokens ++ after)) with
        | before =>
            rw [outcome] at ends
            cases ends
        | behind =>
            rw [outcome] at ends boundary
            obtain rfl := List.eq_nil_of_length_eq_zero (Nat.succ.inj ends).symm
            exact .inr (.inl (.single boundary))
        | goesOn next =>
            rw [outcome] at ends
            exact (ih (Nat.succ.inj ends)).imp_right (.imp_left (·.cons token))
  rw [item_cons] at ends
  split at ends
  · rename_i closing
    obtain rfl := List.eq_nil_of_length_eq_zero (Nat.succ.inj ends).symm
    exact .inr (.inl (.single (by simp [isBoundary, closing])))
  · exact @bounded _ (first :: tokens) ends

theorem Stops.significant {tokens : List Token} (stops : Stops tokens) :
    Stops (Token.significant tokens) := by
  cases stops with
  | @intro front last boundary =>
      rw [Token.significant_append,
        Token.significant_cons (solid_of_isBoundary boundary)]
      exact .intro _ boundary

/-- Whether the attribute lists in front of a declaration are closed. Those for the
assembly or the module stand alone. -/
def closesAttributes (kind : NodeKind) (head : List Token) : Bool :=
  decide (kind = .other) && isGlobalAttribute head || !(skipAttributes 0 head).isEmpty

theorem skipAttributes_ne_nil {kind : NodeKind} {head : List Token}
    (closed : closesAttributes kind head = true)
    (declares : kind = .other → isGlobalAttribute head = false) :
    skipAttributes 0 head ≠ [] := by
  rw [closesAttributes, Bool.or_eq_true, Bool.and_eq_true, decide_eq_true_eq] at closed
  rcases closed with ⟨other, alone⟩ | closed
  · rw [declares other] at alone
    cases alone
  · simpa using closed

theorem is_of_isGlobalAttribute {first : Token} {ahead : List Token}
    (is : isGlobalAttribute (first :: ahead) = true) : first.is "[" = true := by
  rcases ahead with _ | ⟨target, _ | ⟨colon, rest⟩⟩
  · cases is
  · cases is
  · simp only [isGlobalAttribute, Bool.and_eq_true] at is
    exact is.1.1

theorem isGlobalAttribute_left {tokens : List Token}
    (is : isGlobalAttribute tokens = true) (more : List Token) :
    isGlobalAttribute (tokens ++ more) = true := by
  match tokens with
  | [] => cases is
  | [_] => cases is
  | [_, _] => cases is
  | _ :: _ :: _ :: _ => exact is

end Span

namespace Parser

open Lineup.Span (Akin Stops)
open Token (significant)

namespace Item

theorem whole_append (kind : NodeKind) {first : Token} {tokens : List Token}
    {width : Nat} (inside : width ≤ tokens.length + 1) (after others : List Token) :
    whole kind width (first :: (tokens ++ others))
      = whole kind width (first :: (tokens ++ after)) := by
  have own (others : List Token) :
      (first :: (tokens ++ others)).take width = (first :: tokens).take width := by
    rw [← List.cons_append, List.take_append_of_le_length inside]
  rw [whole, whole, own, own]

theorem namespaceHeader_lt_width (keyword : Token) (rest : List Token) :
    Span.namespaceHeader rest < (ofNamespace keyword rest).width := by
  simp only [ofNamespace]
  generalize Span.namespaceHeader rest = header
  cases (keyword :: rest)[header + 1]? with
  | none => exact Nat.lt_succ_self header
  | some token =>
      dsimp only
      split
      · exact Nat.lt_succ_of_lt (Nat.lt_succ_self header)
      split
      · exact Nat.lt_succ_of_lt (Nat.lt_succ_self header)
      · exact Nat.lt_succ_self header

theorem ofNamespace_append {after others : List Token} (akin : Akin after others)
    {keyword : Token} {tokens : List Token}
    (inside : (ofNamespace keyword (tokens ++ after)).width ≤ tokens.length + 1) :
    ofNamespace keyword (tokens ++ others) = ofNamespace keyword (tokens ++ after) := by
  have short := Nat.le_of_lt_succ
    (Nat.lt_of_lt_of_le (namespaceHeader_lt_width keyword (tokens ++ after)) inside)
  have found := getElem?_akin akin short fun token => Span.namespaceHeader_boundary
  simp only [ofNamespace, List.getElem?_cons_succ, Span.namespaceHeader_akin akin short,
    found]
  generalize Span.namespaceHeader (tokens ++ after) = header at short
  have head (others : List Token) : (keyword :: (tokens ++ others)).take (header + 1)
      = keyword :: tokens.take header := by
    rw [List.take_succ_cons, List.take_append_of_le_length short]
  simp only [head]

end Item

namespace Form

theorem declared_ne (otherwise : NodeKind) (found : Option (TypeKeyword × Text)) :
    declared otherwise found ≠ .ofNamespace
      ∧ declared otherwise found ≠ .ofAttributes := by
  cases found with
  | none =>
      constructor
      · intro same
        cases same
      · intro same
        cases same
  | some found =>
      constructor
      · intro same
        cases same
      · intro same
        cases same

/-- What stands next is decided in front of the last boundary, if the attribute lists
are closed. -/
theorem ahead_append (scope : Scope) (first : Token) {tokens : List Token}
    (stops : Stops tokens) (closed : Span.skipAttributes 0 tokens ≠ [])
    (more : List Token) :
    ahead scope first (tokens ++ more) = ahead scope first tokens := by
  simp only [ahead, Span.declaredType?_append stops closed,
    Span.isUsingDirective_append stops, Span.isGlobalAttribute_append stops]

/-- What stands next is decided by the tokens up to a boundary. -/
theorem ahead_of_boundary (scope : Scope) {first boundary : Token} {front : List Token}
    (is : Span.isBoundary boundary = true)
    (closed : Span.skipAttributes 0 (significant (first :: front)) ≠ [])
    (more others : List Token) :
    ahead scope first (significant (first :: (front ++ boundary :: others)))
      = ahead scope first (significant (first :: (front ++ boundary :: more))) := by
  have parted (others : List Token) :
      significant (first :: (front ++ boundary :: others))
      = significant (first :: front) ++ [boundary] ++ significant others := by
    rw [← List.cons_append, Token.significant_append,
      Token.significant_cons (Span.solid_of_isBoundary is), List.append_assoc]
    rfl
  have stops : Stops (significant (first :: front) ++ [boundary]) := .intro _ is
  have open_ : Span.skipAttributes 0 (significant (first :: front) ++ [boundary])
      ≠ [] := by
    rw [Span.skipAttributes_append closed]
    simp
  rw [parted, parted, ahead_append scope first stops open_,
    ahead_append scope first stops open_]

/-- An item of a given form that ends in front of tokens is the same in front of all
that is akin to them. -/
theorem item_append {after others : List Token} (akin : Akin after others) (form : Form)
    {first : Token} {tokens : List Token}
    (inside : (form.item first (tokens ++ after)).width ≤ tokens.length + 1) :
    form.item first (tokens ++ others) = form.item first (tokens ++ after) := by
  cases form with
  | ofType keyword name => exact Item.ofType_append akin inside
  | ofNamespace => exact Item.ofNamespace_append akin inside
  | ofAttributes =>
      have same := @Span.nested_akin _ _ akin _ _ _ (first :: tokens) inside
      simp only [List.cons_append] at same
      rw [item, item, same]
      exact Item.whole_append .other inside after others
  | ofItem kind =>
      rw [item, item, Span.item_append akin inside]
      exact Item.whole_append kind inside after others

end Form

namespace Item

/-- Nothing but the tokens of the item and those behind it decide what stands next. -/
theorem next_of_ahead {scope : Scope} {first : Token} {tokens after others : List Token}
    (akin : Akin after others)
    (same : Form.ahead scope first (significant (first :: (tokens ++ others)))
      = Form.ahead scope first (significant (first :: (tokens ++ after))))
    (inside : (next scope first (tokens ++ after)).width ≤ tokens.length + 1) :
    next scope first (tokens ++ others) = next scope first (tokens ++ after) := by
  rw [next_eq] at inside
  rw [next_eq, next_eq, same]
  exact Form.item_append akin _ inside

theorem ahead_namespace {scope : Scope} {first : Token} (solid : first.isTrivia = false)
    {rest : List Token}
    (is : Form.ahead scope first (significant (first :: rest)) = .ofNamespace)
    (others : List Token) :
    Form.ahead scope first (significant (first :: others)) = .ofNamespace := by
  cases scope with
  | members =>
      exact absurd is (Form.declared_ne _ _).1
  | items braced =>
      simp only [Form.ahead] at is ⊢
      split at is
      · cases is
      split at is
      · rename_i keyword
        have plain : Span.isUsingDirective (significant (first :: others)) = false := by
          rw [Token.significant_cons solid]
          simp [Span.isUsingDirective, Span.skipWord,
            Token.is_of_is keyword (by decide : _ ≠ utf8 "global"),
            Token.is_of_is keyword (by decide : _ ≠ utf8 "using")]
        rw [if_neg (by simp [plain]), if_pos keyword]
      split at is
      · cases is
      · exact absurd is (Form.declared_ne _ _).1

/-- The head of the node of the item. -/
def head : Item → List Token
  | .leaf _ head _ => head
  | .block _ head _ _ => head

theorem head_ofType (keyword : TypeKeyword) (name : Text) (first : Token)
    (rest : List Token) :
    (ofType keyword name first rest).head
      = significant (first
        :: rest.take (Span.typeHeader (Span.depthAfter 0 first) rest)) := by
  simp only [ofType]
  cases (first :: rest)[Span.typeHeader (Span.depthAfter 0 first) rest + 1]? with
  | none => rfl
  | some token =>
      dsimp only
      split
      · split <;> rfl
      · split <;> rfl

theorem ahead_of_getElem? (scope : Scope) {first boundary : Token}
    {tokens after others : List Token} {place : Nat} (inside : place ≤ tokens.length)
    (found : (tokens ++ after)[place]? = some boundary)
    (found' : (tokens ++ others)[place]? = some boundary)
    (is : Span.isBoundary boundary = true)
    (closed : Span.skipAttributes 0 (significant (first :: tokens.take place)) ≠ []) :
    Form.ahead scope first (significant (first :: (tokens ++ others)))
      = Form.ahead scope first (significant (first :: (tokens ++ after))) := by
  have parted {others : List Token}
      (found : (tokens ++ others)[place]? = some boundary) :
      tokens ++ others = tokens.take place
        ++ boundary :: (tokens ++ others).drop (place + 1) := by
    have front : (tokens ++ others).take place = tokens.take place :=
      List.take_append_of_le_length inside
    rw [← Span.Meets.drop_eq_cons found, ← front, List.take_append_drop]
  rw [parted found, parted found']
  exact Form.ahead_of_boundary scope is closed _ _

theorem ahead_header (scope : Scope) {keyword : TypeKeyword} {name : Text}
    {first boundary : Token} {tokens after others : List Token}
    (closed : Span.closesAttributes (ofType keyword name first (tokens ++ after)).kind
      (ofType keyword name first (tokens ++ after)).head = true)
    (short : Span.typeHeader (Span.depthAfter 0 first) (tokens ++ after)
      ≤ tokens.length)
    (found : (tokens ++ after)[Span.typeHeader (Span.depthAfter 0 first)
      (tokens ++ after)]? = some boundary)
    (found' : (tokens ++ others)[Span.typeHeader (Span.depthAfter 0 first)
      (tokens ++ after)]? = some boundary) :
    Form.ahead scope first (significant (first :: (tokens ++ others)))
      = Form.ahead scope first (significant (first :: (tokens ++ after))) := by
  apply ahead_of_getElem? scope short found found' (Span.typeHeader_boundary found)
  rw [kind_ofType, head_ofType, List.take_append_of_le_length short] at closed
  apply Span.skipAttributes_ne_nil closed
  intro other
  cases other

/-- What is neither a declaration nor an attribute list is decided up to its last
boundary. -/
theorem ahead_item (scope : Scope) {kind : NodeKind} {first token : Token}
    {tokens rest others : List Token}
    (form : Form.ahead scope first (significant (first :: (tokens ++ token :: rest)))
      = .ofItem kind)
    (ends : Span.item (first :: (tokens ++ token :: rest)) = tokens.length + 1)
    (closed : Span.closesAttributes kind (significant (first :: tokens)) = true)
    (akin : Akin (token :: rest) others) :
    Form.ahead scope first (significant (first :: (tokens ++ others)))
      = Form.ahead scope first (significant (first :: (tokens ++ token :: rest))) := by
  have parted (others : List Token) : significant (first :: (tokens ++ others))
      = significant (first :: tokens) ++ significant others := by
    rw [← List.cons_append, Token.significant_append]
  have outside : Span.skipAttributes 0 (significant (first :: tokens)) ≠ [] := by
    apply Span.skipAttributes_ne_nil closed
    rintro rfl
    refine Bool.eq_false_iff.mpr fun alone => ?_
    rw [parted] at form
    have alone := Span.isGlobalAttribute_left alone (significant (token :: rest))
    cases scope with
    | members =>
        simp only [Form.ahead] at form
        cases declared : Span.declaredType?
          (significant (first :: tokens) ++ significant (token :: rest)) with
        | none => rw [declared] at form; cases form
        | some found => rw [declared] at form; cases form
    | items braced =>
        simp only [Form.ahead, alone, if_true] at form
        split at form
        · cases form
        split at form
        · cases form
        · cases form
  rcases Span.item_bounded ends with empty | stops | ⟨brace, first, closing⟩
  · cases empty
  · rw [parted, parted, Form.ahead_append scope _ stops.significant outside,
      Form.ahead_append scope _ stops.significant outside]
  · obtain rfl := Option.some.inj first
    have boundary : Span.isBoundary token = true := by simp [Span.isBoundary, closing]
    obtain ⟨more, rfl⟩ := akin.exists_of_boundary boundary
    exact Form.ahead_of_boundary scope boundary outside _ _

theorem isGlobalAttribute_of_bracket {front more : List Token} {last : Token}
    (closing : last.is "]" = true) (is : Span.isGlobalAttribute (front ++ last :: more)
    = true) (others : List Token) :
    Span.isGlobalAttribute (front ++ last :: others) = true := by
  have other (spelling : String) (apart : utf8 "]" ≠ utf8 spelling) :
      last.is spelling = false :=
    Token.is_of_is closing apart
  match front with
  | [] =>
      match more with
      | [] => cases is
      | [_] => cases is
      | _ :: _ :: _ => simp [Span.isGlobalAttribute, other "[" (by decide)] at is
  | [_] =>
      match more with
      | [] => cases is
      | _ :: _ =>
          simp [Span.isGlobalAttribute, other "assembly" (by decide),
            other "module" (by decide)] at is
  | [_, _] => simp [Span.isGlobalAttribute, other ":" (by decide)] at is
  | _ :: _ :: _ :: _ => exact is

theorem ahead_attributes {scope : Scope} {first next : Token}
    (solid : first.isTrivia = false) {tokens more : List Token}
    (is : Form.ahead scope first (significant (first :: (tokens ++ next :: more)))
      = .ofAttributes)
    (ends : Span.nested "[" "]" 0 (first :: (tokens ++ next :: more))
      = tokens.length + 1)
    (others : List Token) :
    Form.ahead scope first (significant (first :: (tokens ++ others)))
      = .ofAttributes := by
  cases scope with
  | members =>
      exact absurd is (Form.declared_ne _ _).2
  | items braced =>
      have assembly : Span.isGlobalAttribute
          (significant (first :: (tokens ++ next :: more))) = true := by
        by_contra other
        simp only [Form.ahead, other, if_false] at is
        split at is
        · cases is
        split at is
        · cases is
        · exact absurd is (Form.declared_ne _ _).2
      obtain ⟨front, last, rest, parted, closing, size⟩ :=
        @Span.nested_last _ _ _ (first :: tokens) _ _ (Nat.le_of_eq ends)
      have last_ : rest = [] := by
        have sizes := congrArg List.length parted
        rw [List.cons_append, ends] at size
        simp only [List.length_cons, List.length_append] at sizes
        exact List.eq_nil_of_length_eq_zero (by omega)
      have whole (others : List Token) : significant (first :: (tokens ++ others))
          = significant front ++ last :: significant others := by
        have significantLast : last.isTrivia = false := by
          by_contra ignored
          rw [Token.is_trivia (by simpa using ignored)] at closing
          cases closing
        rw [← List.cons_append, parted, last_, List.append_assoc,
          Token.significant_append]
        exact congrArg _ (Token.significant_cons significantLast others)
      have opens : first.is "[" = true := by
        rw [Token.significant_cons solid] at assembly
        exact Span.is_of_isGlobalAttribute assembly
      have again : Span.isGlobalAttribute (significant (first :: (tokens ++ others)))
          = true := by
        rw [whole] at assembly ⊢
        exact isGlobalAttribute_of_bracket closing assembly _
      have plain : Span.isUsingDirective (significant (first :: (tokens ++ others)))
          = false := by
        rw [Token.significant_cons solid]
        simp [Span.isUsingDirective, Span.skipWord,
          Token.is_of_is opens (by decide : _ ≠ utf8 "global"),
          Token.is_of_is opens (by decide : _ ≠ utf8 "using")]
      simp [Form.ahead, plain, again,
        Token.is_of_is opens (by decide : _ ≠ utf8 "namespace")]

/-- A node without a body is read in the same way in front of all tokens that it does
not tell apart from those behind it. -/
theorem next_leaf {scope : Scope} {kind : NodeKind} {first : Token}
    {head tokens after others : List Token} (solid : first.isTrivia = false)
    (akin : Akin after others) (closed : Span.closesAttributes kind head = true)
    (reads : next scope first (tokens ++ after) = .leaf kind head (tokens.length + 1)) :
    next scope first (tokens ++ others) = .leaf kind head (tokens.length + 1) := by
  cases after with
  | nil => rwa [akin.eq_nil]
  | cons token rest =>
      rw [next_of_ahead akin ?_ (by rw [reads]; exact Nat.le_refl _), reads]
      have reads' := reads
      rw [next_eq] at reads'
      cases form : Form.ahead scope first
        (significant (first :: (tokens ++ token :: rest))) with
      | ofNamespace => exact ahead_namespace solid form _
      | ofAttributes =>
          rw [form] at reads'
          simp only [Form.item, whole, leaf.injEq] at reads'
          exact ahead_attributes solid form reads'.2.2 _
      | ofType keyword name =>
          rw [← form]
          rw [form, Form.item] at reads'
          have short := typeHeader_lt_width keyword name first (tokens ++ token :: rest)
          rw [reads'] at short
          have short : Span.typeHeader (Span.depthAfter 0 first)
              (tokens ++ token :: rest)
            ≤ tokens.length := Nat.le_of_lt_succ short
          have found := List.getElem?_eq_getElem (l := tokens ++ token :: rest)
            (i := Span.typeHeader (Span.depthAfter 0 first) (tokens ++ token :: rest))
            (by simp only [List.length_append, List.length_cons]; omega)
          exact ahead_header scope (by rwa [reads']) short found
            ((getElem?_akin akin short fun _ => Span.typeHeader_boundary).trans found)
      | ofItem kind' =>
          rw [← form]
          rw [form] at reads'
          simp only [Form.item, whole, leaf.injEq] at reads'
          obtain ⟨rfl, heads, ends⟩ := reads'
          rw [ends, List.take_succ_cons, List.take_left] at heads
          exact ahead_item scope form ends (by rwa [heads]) akin

theorem ofType_block {keyword : TypeKeyword} {name : Text} {kind : NodeKind}
    {inner : Scope} {first : Token} {head header after : List Token}
    (reads : ofType keyword name first (header ++ after)
      = .block kind head inner (header.length + 1)) :
    Span.typeHeader (Span.depthAfter 0 first) (header ++ after) < header.length
      ∧ ∀ others, ofType keyword name first (header ++ others)
        = .block kind head inner (header.length + 1) := by
  have short : Span.typeHeader (Span.depthAfter 0 first) (header ++ after)
      < header.length := by
    simp only [ofType] at reads
    split at reads
    · cases reads
    split at reads
    · split at reads
      · cases reads
      · simp only [block.injEq] at reads
        omega
    · split at reads
      · cases reads
      · cases reads
  refine ⟨short, fun others => ?_⟩
  rw [← reads]
  simp only [ofType, List.getElem?_cons_succ, Span.typeHeader_append short others,
    List.getElem?_append_left short, List.take_succ_cons,
    List.take_append_of_le_length (Nat.le_of_lt short)] at reads ⊢
  cases found :
    header[Span.typeHeader (Span.depthAfter 0 first) (header ++ after)]? with
  | none => rfl
  | some token =>
      simp only [found] at reads ⊢
      split
      · rename_i opens
        rw [if_pos opens] at reads
        split
        · rename_i enum
          rw [if_pos enum] at reads
          cases reads
        · rfl
      · rfl

theorem ofNamespace_block {kind : NodeKind} {inner : Scope} {keyword : Token}
    {head header after : List Token}
    (reads : ofNamespace keyword (header ++ after)
      = .block kind head inner (header.length + 1))
    (others : List Token) :
    ofNamespace keyword (header ++ others)
      = .block kind head inner (header.length + 1) := by
  have short : Span.namespaceHeader (header ++ after) < header.length := by
    simp only [ofNamespace] at reads
    split at reads
    · cases reads
    split at reads
    · simp only [block.injEq] at reads
      omega
    split at reads
    · simp only [block.injEq] at reads
      omega
    · cases reads
  have same : Span.namespaceHeader (header ++ others)
      = Span.namespaceHeader (header ++ after) := by
    simp only [Span.namespaceHeader, List.takeWhile_append] at short ⊢
    split at short
    · rw [List.length_append] at short
      omega
    · rename_i inside
      rw [if_neg inside, if_neg inside]
  rw [← reads]
  simp only [ofNamespace, List.getElem?_cons_succ, same,
    List.getElem?_append_left short, List.take_succ_cons,
    List.take_append_of_le_length (Nat.le_of_lt short)]

/-- A declaration with a body is read in the same way in front of every body. -/
theorem next_block {scope inner : Scope} {kind : NodeKind} {first : Token}
    {head header after : List Token} (solid : first.isTrivia = false)
    (closed : Span.closesAttributes kind head = true)
    (reads : next scope first (header ++ after)
      = .block kind head inner (header.length + 1))
    (others : List Token) :
    next scope first (header ++ others)
      = .block kind head inner (header.length + 1) := by
  have reads' := reads
  rw [next_eq] at reads'
  cases form : Form.ahead scope first (significant (first :: (header ++ after))) with
  | ofAttributes =>
      rw [form] at reads'
      cases reads'
  | ofItem kind' =>
      rw [form] at reads'
      cases reads'
  | ofNamespace =>
      rw [form, Form.item] at reads'
      rw [next_eq, ahead_namespace solid form, Form.item]
      exact ofNamespace_block reads' others
  | ofType keyword name =>
      rw [form, Form.item] at reads'
      obtain ⟨short, block⟩ := ofType_block reads'
      have found (others : List Token) :
          (header ++ others)[Span.typeHeader (Span.depthAfter 0 first)
          (header ++ after)]? = some header[Span.typeHeader (Span.depthAfter 0 first)
            (header ++ after)] := by
        rw [List.getElem?_append_left short, List.getElem?_eq_getElem short]
      have same := ahead_header scope (by rwa [reads']) (Nat.le_of_lt short)
        (found after) (found others)
      rw [next_eq, same, form]
      exact block others

end Item

end Parser

end Lineup
