import Lineup.Proofs.Syntax.Gist

/-!
# Items that do not depend on what follows

A member ends where it ends whatever stands behind it, as long as its brackets are
closed and what follows does not continue it: an equals sign or a semicolon would. The
extent of the member is found within its own tokens, and what it declares is read off
tokens in front of its first boundary.
-/

namespace Lineup

/-- A token that spells one thing does not spell another. -/
theorem Token.is_of_is {token : Token} {spelling other : String}
    (is : token.is spelling = true) (apart : utf8 spelling ≠ utf8 other) :
    token.is other = false := by
  simp only [Token.is, Bool.and_eq_true, beq_iff_eq] at is
  simp [Token.is, is.2, apart]

namespace Span

/-- No token follows that continues an item which could end. -/
def Clear (after : List Token) : Prop :=
  nextIs "=" after = false ∧ nextIs ";" after = false

/-- A token that neither continues an item nor ends one. -/
structure IsWord (token : Token) : Prop where
  solid : token.isTrivia = false
  boundary : isBoundary token = false
  equals : token.is "=" = false

theorem IsWord.clear {word : Token} (plain : IsWord word) (rest : List Token) :
    Clear (word :: rest) := by
  have final : word.is ";" = false := by
    have boundary := plain.boundary
    simp only [isBoundary, Bool.or_eq_false_iff] at boundary
    exact boundary.1.2
  constructor
  · simp [nextIs, plain.solid, plain.equals]
  · simp [nextIs, plain.solid, final]

theorem IsWord.closeBrace {word : Token} (plain : IsWord word) :
    word.is closeBrace = false := by
  have boundary := plain.boundary
  simp only [isBoundary, Bool.or_eq_false_iff] at boundary
  exact boundary.2

theorem nextIs_append {spelling : String} {after others : List Token}
    (same : nextIs spelling after = nextIs spelling others) (tokens : List Token) :
    nextIs spelling (tokens ++ after) = nextIs spelling (tokens ++ others) := by
  simp only [nextIs] at same
  simp only [nextIs, List.find?_append]
  cases tokens.find? fun token => !token.isTrivia with
  | none => exact same
  | some token => rfl

theorem semicolon_append {after others : List Token}
    (same : semicolon after = semicolon others) (tokens : List Token) :
    semicolon (tokens ++ after) = semicolon (tokens ++ others) := by
  induction tokens with
  | nil => exact same
  | cons token tokens ih => simp only [List.cons_append, semicolon, ih]

theorem semicolon_eq_zero {after : List Token} (clear : nextIs ";" after = false) :
    semicolon after = 0 := by
  induction after with
  | nil => rfl
  | cons token after ih =>
      simp only [semicolon]
      cases ignored : token.isTrivia with
      | true =>
          have later : nextIs ";" after = false := by
            simpa [nextIs, ignored] using clear
          rw [if_pos rfl, ih later]
      | false =>
          have other : token.is ";" = false := by simpa [nextIs, ignored] using clear
          rw [if_neg (by simp), if_neg (by simp [other])]

/-- A semicolon is sought in the same way in front of all that does not start with
one. -/
theorem Clear.semicolon_append {after others : List Token} (clear : Clear after)
    (clear' : Clear others) (tokens : List Token) :
    semicolon (tokens ++ after) = semicolon (tokens ++ others) := by
  apply Span.semicolon_append
  rw [semicolon_eq_zero clear.2, semicolon_eq_zero clear'.2]

/-- Tokens that an item in front of them does not tell apart: the same token comes
first, unless the first ones start with a token that is no boundary, and an equals sign
or a semicolon comes next in both or in neither. -/
structure Akin (after others : List Token) : Prop where
  first : after.head? = others.head? ∨ ∃ token ∈ after.head?, isBoundary token = false
  equals : nextIs "=" after = nextIs "=" others
  semicolon : semicolon after = semicolon others

namespace Akin

variable {after others : List Token}

/-- What stands in front of both adds nothing that tells them apart. -/
theorem prepend (akin : Akin after others) (tokens : List Token) :
    Akin (tokens ++ after) (tokens ++ others) where
  first := by
    cases tokens with
    | nil => exact akin.first
    | cons token tokens => exact .inl rfl
  equals := nextIs_append akin.equals tokens
  semicolon := semicolon_append akin.semicolon tokens

/-- Where a boundary comes first, it comes first in the others. -/
theorem exists_of_boundary {boundary : Token} {more : List Token}
    (akin : Akin (boundary :: more) others) (is : isBoundary boundary = true) :
    ∃ rest, others = boundary :: rest := by
  rcases akin.first with same | ⟨token, first, inside⟩
  · cases others with
    | nil => cases same
    | cons other others =>
        obtain rfl := Option.some.inj same
        exact ⟨others, rfl⟩
  · obtain rfl := Option.some.inj first
    rw [is] at inside
    cases inside

theorem eq_nil (akin : Akin [] others) : others = [] := by
  rcases akin.first with same | ⟨token, first, -⟩
  · exact List.head?_eq_none_iff.mp same.symm
  · cases first

end Akin

/-- A word is akin to all that does not continue an item. -/
theorem IsWord.akin {word : Token} (plain : IsWord word) (more : List Token)
    {after : List Token} (clear : Clear after) : Akin (word :: more) after where
  first := .inr ⟨word, rfl, plain.boundary⟩
  equals := (plain.clear more).1.trans clear.1.symm
  semicolon := (semicolon_eq_zero (plain.clear more).2).trans
    (semicolon_eq_zero clear.2).symm

/-- The tokens end with a token that starts or closes a block or ends a statement. -/
inductive Stops : List Token → Prop where
  | intro (front : List Token) {last : Token} (boundary : isBoundary last = true) :
      Stops (front ++ [last])

namespace Stops

theorem single {token : Token} (boundary : isBoundary token = true) : Stops [token] :=
  .intro [] boundary

theorem cons {tokens : List Token} (stops : Stops tokens) (token : Token) :
    Stops (token :: tokens) := by
  cases stops with
  | intro front boundary => exact .intro (token :: front) boundary

theorem ne_nil {tokens : List Token} (stops : Stops tokens) : tokens ≠ [] := by
  cases stops with
  | intro front => simp

/-- A part at the end stops where the whole does. -/
theorem suffix {tokens part : List Token} (stops : Stops tokens)
    (ending : part <:+ tokens) (present : part ≠ []) : Stops part := by
  cases stops with
  | @intro front last boundary =>
      obtain ⟨before, parted⟩ := ending
      obtain ⟨start, final, rfl⟩ := (List.eq_nil_or_concat' part).resolve_left present
      rw [← List.append_assoc] at parted
      obtain ⟨-, same⟩ := List.append_inj' parted rfl
      rw [(List.cons.inj same).1]
      exact .intro start boundary

theorem append {tokens : List Token} (stops : Stops tokens) (front : List Token) :
    Stops (front ++ tokens) := by
  cases stops with
  | intro before boundary =>
      rw [← List.append_assoc]
      exact .intro (front ++ before) boundary

/-- Behind a token that is no boundary, other tokens stop. -/
theorem tail {token : Token} {tokens : List Token} (stops : Stops (token :: tokens))
    (inside : isBoundary token = false) : Stops tokens := by
  refine stops.suffix (List.suffix_cons token tokens) ?_
  rintro rfl
  generalize all : [token] = whole at stops
  cases stops with
  | @intro front last boundary =>
      cases front with
      | nil =>
          rw [(List.cons.inj all).1, boundary] at inside
          cases inside
      | cons other front => simp at all

end Stops

theorem is_of_isBoundary {token : Token} (boundary : isBoundary token = true)
    (spelling : String)
    (apart : ∀ other ∈ [openBrace, ";", closeBrace], utf8 other ≠ utf8 spelling) :
    token.is spelling = false := by
  simp only [isBoundary, Bool.or_eq_true] at boundary
  rcases boundary with (is | is) | is
  · exact Token.is_of_is is (apart _ (by simp))
  · exact Token.is_of_is is (apart _ (by simp))
  · exact Token.is_of_is is (apart _ (by simp))

/-- An item ends in front of a closing brace, or behind a boundary. -/
def Outcome.EndsAt (token : Token) : Outcome → Prop
  | before => token.is closeBrace = true
  | behind => isBoundary token = true
  | goesOn _ => True

theorem outcome_endsAt (state : ItemState) (token : Token) (followed : Bool) :
    (state.outcome token followed).EndsAt token := by
  have goes (next : ItemState) : (Outcome.goesOn next).EndsAt token := trivial
  rw [ItemState.outcome]
  apply iteInduction
  · -- Inside of braces only a closing brace ends the item.
    intro _
    refine iteInduction (fun _ => goes _) fun _ => ?_
    refine iteInduction ?_ fun _ => goes _
    intro closing
    have boundary : isBoundary token = true := by simp [isBoundary, closing]
    exact iteInduction (fun _ => boundary) fun _ => goes _
  · intro _
    iterate 5 refine iteInduction (fun _ => goes _) fun _ => ?_
    refine iteInduction (fun closing => closing) fun _ => ?_
    refine iteInduction ?_ fun _ => iteInduction (fun _ => goes _) fun _ => goes _
    intro final
    rw [Bool.and_eq_true] at final
    have boundary : isBoundary token = true := by simp [isBoundary, final.1]
    exact boundary

theorem outcome_before {state : ItemState} {token : Token} {followed : Bool}
    (ends : state.outcome token followed = .before) (other : Bool) :
    state.outcome token other = .before := by
  have goes {next : ItemState} (ends : Outcome.goesOn next = .before) {goal : Prop} :
      goal := nomatch ends
  rw [ItemState.outcome] at ends ⊢
  by_cases inside : 0 < state.braces
  · rw [if_pos inside] at ends
    split at ends
    · exact goes ends
    split at ends
    · split at ends
      · cases ends
      · exact goes ends
    · exact goes ends
  · rw [if_neg inside] at ends ⊢
    exact ends

section Akin

variable {after others : List Token} (akin : Akin after others)

include akin

/-- An item that ends in front of tokens ends there in front of all that is akin to
them. -/
theorem itemFrom_append {state : ItemState} {tokens : List Token}
    (inside : itemFrom state (tokens ++ after) ≤ tokens.length) :
    itemFrom state (tokens ++ others) = itemFrom state (tokens ++ after) := by
  induction tokens generalizing state with
  | nil =>
      rw [List.nil_append] at inside
      rw [List.nil_append, List.nil_append]
      cases after with
      | nil => rw [akin.eq_nil]
      | cons token rest =>
          have ends := outcome_endsAt state token (nextIs "=" rest)
          rw [itemFrom_cons] at inside
          cases outcome : state.outcome token (nextIs "=" rest) with
          | before =>
              rw [outcome] at ends
              have closing : token.is closeBrace = true := ends
              obtain ⟨behind, rfl⟩ :=
                akin.exists_of_boundary (by simp [isBoundary, closing])
              rw [itemFrom_cons, itemFrom_cons, outcome, outcome_before outcome]
              rfl
          | behind => simp [outcome, Outcome.width] at inside
          | goesOn next => simp [outcome, Outcome.width] at inside
  | cons token tokens ih =>
      have followed := nextIs_append akin.equals tokens
      rw [List.cons_append, itemFrom_cons] at inside
      rw [List.cons_append, List.cons_append, itemFrom_cons, ← followed, itemFrom_cons]
      cases ends : state.outcome token (nextIs "=" (tokens ++ after)) with
      | before => rfl
      | behind => rfl
      | goesOn next =>
          rw [ends] at inside
          exact congrArg Nat.succ (ih (Nat.le_of_succ_le_succ inside))

theorem item_append {first : Token} {tokens : List Token}
    (inside : item (first :: (tokens ++ after)) ≤ tokens.length + 1) :
    item (first :: (tokens ++ others)) = item (first :: (tokens ++ after)) := by
  rw [item_cons] at inside
  rw [item_cons, item_cons]
  split
  · rfl
  · rename_i other
    rw [if_neg other] at inside
    have same : itemFrom {} ((first :: tokens) ++ others)
        = itemFrom {} ((first :: tokens) ++ after) :=
      itemFrom_append akin inside
    exact same

end Akin

section Extent

variable {word : Token} (plain : IsWord word) (more : List Token)

include plain

theorem itemFrom_pos (state : ItemState) : 0 < itemFrom state (word :: more) := by
  have ends := outcome_endsAt state word (nextIs "=" more)
  rw [itemFrom_cons]
  cases outcome : state.outcome word (nextIs "=" more) with
  | before =>
      rw [outcome, Outcome.EndsAt, plain.closeBrace] at ends
      cases ends
  | behind => exact Nat.one_pos
  | goesOn next => exact Nat.succ_pos _

theorem itemFrom_stops {state : ItemState} {tokens : List Token}
    (ends : itemFrom state (tokens ++ word :: more) = tokens.length) :
    Stops tokens := by
  induction tokens generalizing state with
  | nil => exact absurd ends (Nat.ne_of_gt (itemFrom_pos plain more state))
  | cons token tokens ih =>
      rw [List.cons_append, itemFrom_cons] at ends
      have boundary := outcome_endsAt state token (nextIs "=" (tokens ++ word :: more))
      cases outcome : state.outcome token (nextIs "=" (tokens ++ word :: more)) with
      | before =>
          rw [outcome] at ends
          cases ends
      | behind =>
          rw [outcome] at ends boundary
          obtain rfl := List.eq_nil_of_length_eq_zero (Nat.succ.inj ends).symm
          exact .single boundary
      | goesOn next =>
          rw [outcome] at ends
          exact (ih (Nat.succ.inj ends)).cons token

theorem item_stops {first : Token} {tokens : List Token}
    (ends : item (first :: (tokens ++ word :: more)) = tokens.length + 1) :
    Stops (first :: tokens) := by
  rw [item_cons] at ends
  split at ends
  · rename_i closing
    obtain rfl := List.eq_nil_of_length_eq_zero (Nat.succ.inj ends).symm
    exact .single (by simp [isBoundary, closing])
  · have same : itemFrom {} ((first :: tokens) ++ word :: more)
        = (first :: tokens).length := ends
    exact itemFrom_stops plain more same

/-- A semicolon in front of a word is the last of the tokens up to it. -/
theorem semicolon_stops {tokens : List Token}
    (ends : semicolon (tokens ++ word :: more) = tokens.length) :
    tokens = [] ∨ Stops tokens := by
  induction tokens with
  | nil => exact .inl rfl
  | cons token tokens ih =>
      right
      simp only [List.cons_append, semicolon, List.length_cons] at ends
      cases ignored : token.isTrivia with
      | true =>
          rw [ignored, if_pos rfl] at ends
          cases width : semicolon (tokens ++ word :: more) with
          | zero => simp [width] at ends
          | succ count =>
              rw [width] at ends ih
              cases ih (Nat.succ.inj ends) with
              | inr stops => exact stops.cons token
              | inl empty =>
                  rw [empty, List.nil_append,
                    semicolon_eq_zero (plain.clear more).2] at width
                  cases width
      | false =>
          rw [ignored, if_neg (by simp)] at ends
          split at ends
          · rename_i final
            obtain rfl := List.eq_nil_of_length_eq_zero (Nat.succ.inj ends).symm
            exact .single (by simp [isBoundary, final])
          · cases ends

end Extent

/-- A bracketed group that is closed does not depend on what follows. -/
theorem nested_append {opener closer : String} {depth : Nat}
    {tokens others : List Token} {next : Token}
    (inside : nested opener closer depth (tokens ++ next :: others) ≤ tokens.length)
    (after : List Token) : nested opener closer depth (tokens ++ after)
      = nested opener closer depth (tokens ++ next :: others) := by
  induction tokens generalizing depth with
  | nil =>
      exact absurd inside
        (Nat.not_le_of_gt (nested_pos opener closer depth next others))
  | cons token tokens ih =>
      have goesOn {depth : Nat}
          (inside : nested opener closer depth (tokens ++ next :: others) + 1
            ≤ (token :: tokens).length) :
          nested opener closer depth (tokens ++ after) + 1
            = nested opener closer depth (tokens ++ next :: others) + 1 :=
        congrArg Nat.succ (ih (Nat.le_of_succ_le_succ inside))
      simp only [List.cons_append, nested] at inside ⊢
      by_cases opens : token.is opener = true
      · simp only [if_pos opens] at inside ⊢
        exact goesOn inside
      simp only [if_neg opens] at inside ⊢
      by_cases closes : token.is closer = true
      · simp only [if_pos closes] at inside ⊢
        by_cases last : depth ≤ 1
        · simp only [if_pos last]
        · simp only [if_neg last] at inside ⊢
          exact goesOn inside
      · simp only [if_neg closes] at inside ⊢
        exact goesOn inside

/-- A bracketed group that something follows ends with its closer. -/
theorem nested_last {opener closer : String} {depth : Nat} {tokens others : List Token}
    {next : Token}
    (inside : nested opener closer depth (tokens ++ next :: others) ≤ tokens.length) :
    ∃ front last rest, tokens = front ++ last :: rest ∧ last.is closer = true
      ∧ nested opener closer depth (tokens ++ next :: others) = front.length + 1 := by
  induction tokens generalizing depth with
  | nil =>
      exact absurd inside
        (Nat.not_le_of_gt (nested_pos opener closer depth next others))
  | cons token tokens ih =>
      have goesOn {depth : Nat}
          (inside : nested opener closer depth (tokens ++ next :: others) + 1
            ≤ (token :: tokens).length) :
          ∃ front last rest, token :: tokens = front ++ last :: rest
            ∧ last.is closer = true
            ∧ nested opener closer depth (tokens ++ next :: others) + 1
              = front.length + 1 := by
        obtain ⟨front, last, rest, rfl, closes, width⟩ :=
          ih (Nat.le_of_succ_le_succ inside)
        exact ⟨token :: front, last, rest, rfl, closes, congrArg Nat.succ width⟩
      simp only [List.cons_append, nested] at inside ⊢
      by_cases opens : token.is opener = true
      · simp only [if_pos opens] at inside ⊢
        exact goesOn inside
      simp only [if_neg opens] at inside ⊢
      by_cases closes : token.is closer = true
      · simp only [if_pos closes] at inside ⊢
        by_cases last : depth ≤ 1
        · simp only [if_pos last]
          exact ⟨[], token, tokens, rfl, closes, rfl⟩
        · simp only [if_neg last] at inside ⊢
          exact goesOn inside
      · simp only [if_neg closes] at inside ⊢
        exact goesOn inside

/-- A header that ends within the tokens does not depend on what follows them. -/
theorem typeHeader_append {depth : Nat} {tokens more : List Token}
    (inside : typeHeader depth (tokens ++ more) < tokens.length) (after : List Token) :
    typeHeader depth (tokens ++ after) = typeHeader depth (tokens ++ more) := by
  induction tokens generalizing depth with
  | nil => cases inside
  | cons token tokens ih =>
      simp only [List.cons_append, typeHeader, List.length_cons] at inside ⊢
      split
      · rfl
      · rename_i goesOn
        rw [if_neg goesOn] at inside
        rw [ih (Nat.lt_of_succ_lt_succ inside)]

section Akin

variable {after others : List Token} (akin : Akin after others)

include akin

theorem nested_akin {opener closer : String} {depth : Nat} {tokens : List Token}
    (inside : nested opener closer depth (tokens ++ after) ≤ tokens.length) :
    nested opener closer depth (tokens ++ others)
      = nested opener closer depth (tokens ++ after) := by
  cases after with
  | nil => rw [akin.eq_nil]
  | cons next rest => exact nested_append inside others

theorem typeHeader_akin {depth : Nat} {tokens : List Token}
    (inside : typeHeader depth (tokens ++ after) ≤ tokens.length) :
    typeHeader depth (tokens ++ others) = typeHeader depth (tokens ++ after) := by
  rcases Nat.lt_or_eq_of_le inside with short | whole
  · exact typeHeader_append short others
  induction tokens generalizing depth with
  | nil =>
      rw [List.nil_append] at whole
      rw [List.nil_append, List.nil_append, whole]
      cases after with
      | nil =>
          rw [akin.eq_nil]
          rfl
      | cons token rest =>
          simp only [typeHeader, List.length_nil] at whole
          split at whole
          · rename_i stops
            obtain ⟨behind, rfl⟩ :=
              akin.exists_of_boundary (Bool.and_eq_true_iff.mp stops).2
            rw [typeHeader, if_pos stops]
            rfl
          · cases whole
  | cons token tokens ih =>
      simp only [List.cons_append, typeHeader, List.length_cons] at inside whole ⊢
      split
      · rfl
      · rename_i goesOn
        rw [if_neg goesOn] at inside whole
        rw [ih (Nat.le_of_succ_le_succ inside) (Nat.succ.inj whole)]

end Akin

theorem skipAttributes_append {depth : Nat} {tokens : List Token}
    (closed : skipAttributes depth tokens ≠ []) (more : List Token) :
    skipAttributes depth (tokens ++ more) = skipAttributes depth tokens ++ more := by
  induction tokens generalizing depth with
  | nil => exact absurd rfl closed
  | cons token tokens ih =>
      simp only [List.cons_append, skipAttributes] at closed ⊢
      split
      · rename_i opens
        rw [if_pos opens] at closed
        exact ih closed
      · rename_i notOpen
        rw [if_neg notOpen] at closed
        split
        · rfl
        · rename_i inside
          rw [if_neg inside] at closed
          split
          · rename_i closes
            rw [if_pos closes] at closed
            exact ih closed
          · rename_i notClose
            rw [if_neg notClose] at closed
            exact ih closed

theorem skipAttributes_suffix (depth : Nat) (tokens : List Token) :
    skipAttributes depth tokens <:+ tokens := by
  induction tokens generalizing depth with
  | nil => exact List.suffix_refl _
  | cons token tokens ih =>
      have later (depth : Nat) : skipAttributes depth tokens <:+ token :: tokens :=
        (ih depth).trans (List.suffix_cons token tokens)
      simp only [skipAttributes]
      split
      · exact later _
      split
      · exact List.suffix_refl _
      split
      · exact later _
      · exact later _

theorem isModifierToken_of_isBoundary {token : Token}
    (boundary : isBoundary token = true) :
    isModifierToken token = false := by
  simp only [isBoundary, Token.is, Bool.or_eq_true, Bool.and_eq_true,
    beq_iff_eq] at boundary
  simp only [isModifierToken]
  rcases boundary with (is | is) | is
  · rw [is.2]
    exact Bool.and_eq_false_imp.mpr fun _ => by decide
  · rw [is.2]
    exact Bool.and_eq_false_imp.mpr fun _ => by decide
  · rw [is.2]
    exact Bool.and_eq_false_imp.mpr fun _ => by decide

/-- What tokens declare does not depend on what follows them. -/
theorem declaredType?_append {tokens : List Token} (stops : Stops tokens)
    (closed : skipAttributes 0 tokens ≠ []) (more : List Token) :
    declaredType? (tokens ++ more) = declaredType? tokens := by
  have behind := stops.suffix (skipAttributes_suffix 0 tokens) closed
  rw [declaredType?, declaredType?, skipAttributes_append closed]
  generalize skipAttributes 0 tokens = others at behind
  have kept : (others.dropWhile isModifierToken) ≠ [] := by
    cases behind with
    | @intro front last boundary =>
        intro absent
        have modifier := List.dropWhile_eq_nil_iff.mp absent last (by simp)
        rw [isModifierToken_of_isBoundary boundary] at modifier
        cases modifier
  have stopsKept := behind.suffix (List.dropWhile_suffix isModifierToken) kept
  rw [List.dropWhile_append, if_neg (by simpa using kept)]
  generalize others.dropWhile isModifierToken = kept at stopsKept
  -- A keyword is no boundary, so the tokens that are looked at stand in front of the
  -- last one.
  have other (token : Token) (boundary : isBoundary token = true) (keyword : String)
      (member : keyword ∈ ["class", "struct", "interface", "enum", "record"]) :
      token.is keyword = false := by
    refine is_of_isBoundary boundary keyword ?_
    revert keyword
    decide
  cases kept with
  | nil => exact absurd rfl stopsKept.ne_nil
  | cons keyword rest =>
      cases rest with
      | nil =>
          have boundary : isBoundary keyword = true := by
            by_contra inside
            exact (stopsKept.tail (by simpa using inside)).ne_nil rfl
          have absent := other keyword boundary
          simp only [List.mem_cons, List.not_mem_nil, or_false, forall_eq_or_imp,
            forall_eq] at absent
          simp only [List.cons_append, absent, Bool.false_eq_true, if_false]
      | cons name rest =>
          cases rest with
          | cons next rest => rfl
          | nil =>
              -- Behind `record` two tokens are looked at, if the first one is a
              -- keyword.
              have boundary : isBoundary keyword = false → isBoundary name = true := by
                intro inside
                by_contra within
                exact ((stopsKept.tail inside).tail (by simpa using within)).ne_nil rfl
              by_cases record : keyword.is "record" = true
              · have inside : isBoundary keyword = false := by
                  refine Bool.eq_false_iff.mpr fun is => ?_
                  rw [other keyword is "record" (by simp)] at record
                  cases record
                have notClass := other name (boundary inside) "class" (by simp)
                have notStruct := other name (boundary inside) "struct" (by simp)
                simp only [List.cons_append, notClass, notStruct]
                rfl
              · simp only [List.cons_append, record]
                rfl

end Span

namespace Parser

open Lineup.Span (Clear IsWord Stops)

namespace Item

/-- The number of tokens of an item, up to the start of its body if it has one. -/
def width : Item → Nat
  | .leaf _ _ width => width
  | .block _ _ _ width => width

/-- A type is at least as long as its header. -/
theorem typeHeader_lt_width (keyword : TypeKeyword) (name : Text) (first : Token)
    (rest : List Token) :
    Span.typeHeader (Span.depthAfter 0 first) rest
      < (ofType keyword name first rest).width := by
  simp only [ofType]
  generalize Span.typeHeader (Span.depthAfter 0 first) rest = header
  cases (first :: rest)[header + 1]? with
  | none => exact Nat.lt_succ_self header
  | some token =>
      dsimp only
      split
      · split
        · simp only [width]
          omega
        · exact Nat.lt_succ_of_lt (Nat.lt_succ_self header)
      split
      · exact Nat.lt_succ_of_lt (Nat.lt_succ_self header)
      · exact Nat.lt_succ_self header

section Akin

variable {after others : List Token} (akin : Span.Akin after others)

include akin

/-- A boundary that stands within tokens, or right behind them, stands there in all that
is akin. -/
theorem getElem?_akin {tokens : List Token} {place : Nat}
    (inside : place ≤ tokens.length)
    (boundary : ∀ token, (tokens ++ after)[place]? = some token →
      Span.isBoundary token = true) :
    (tokens ++ others)[place]? = (tokens ++ after)[place]? := by
  rcases Nat.lt_or_eq_of_le inside with within | rfl
  · rw [List.getElem?_append_left within, List.getElem?_append_left within]
  · cases after with
    | nil => rw [akin.eq_nil]
    | cons token rest =>
        have behind (rest : List Token) : (tokens ++ token :: rest)[tokens.length]?
            = some token := by
          rw [List.getElem?_append_right (Nat.le_refl _), Nat.sub_self]
          rfl
        obtain ⟨more, rfl⟩ := akin.exists_of_boundary (boundary token (behind rest))
        rw [behind, behind]

/-- A type that ends in front of tokens is read in the same way in front of all that is
akin to them. -/
theorem ofType_append {keyword : TypeKeyword} {name : Text} {first : Token}
    {tokens : List Token}
    (inside : (ofType keyword name first (tokens ++ after)).width ≤ tokens.length + 1) :
    ofType keyword name first (tokens ++ others)
      = ofType keyword name first (tokens ++ after) := by
  have short := Nat.le_of_lt_succ
    (Nat.lt_of_lt_of_le
      (typeHeader_lt_width keyword name first (tokens ++ after)) inside)
  have found := getElem?_akin akin short fun token => Span.typeHeader_boundary
  simp only [ofType, List.getElem?_cons_succ, Span.typeHeader_akin akin short,
    found] at inside ⊢
  generalize Span.typeHeader (Span.depthAfter 0 first) (tokens ++ after)
      = header at short inside ⊢
  have head (others : List Token) : (first :: (tokens ++ others)).take (header + 1)
      = first :: tokens.take header := by
    rw [List.take_succ_cons, List.take_append_of_le_length short]
  have behind (others : List Token) : (first :: (tokens ++ others)).drop (header + 1)
      = tokens.drop header ++ others := by
    rw [List.drop_succ_cons, List.drop_append_of_le_length short]
  simp only [head, behind] at inside ⊢
  cases next : (tokens ++ after)[header]? with
  | none => rfl
  | some token =>
      simp only [next] at inside ⊢
      by_cases opens : token.is openBrace = true
      · simp only [if_pos opens] at inside ⊢
        by_cases enum : keyword = .enumType
        · -- The block of the enum ends within the type, and what follows adds no
          -- semicolon.
          simp only [if_pos enum, width] at inside ⊢
          have block : Span.nested openBrace closeBrace 0 (tokens.drop header ++ after)
              ≤ (tokens.drop header).length := by
            rw [List.length_drop]
            omega
          rw [Span.nested_akin akin block]
          generalize Span.nested openBrace closeBrace 0 (tokens.drop header ++ after)
              = width at block
          rw [List.length_drop] at block
          have final (others : List Token) :
              (first :: (tokens ++ others)).drop (header + 1 + width)
              = tokens.drop (header + width) ++ others := by
            rw [Nat.add_right_comm, List.drop_succ_cons,
              List.drop_append_of_le_length (by omega)]
          rw [final, final, (akin.prepend _).semicolon]
        · simp only [if_neg enum]
      · simp only [if_neg opens]

/-- A member is read in the same way in front of all that is akin to the tokens behind
it, if its attribute lists are closed. -/
theorem next_append {first : Token} {tokens : List Token}
    (stops : Stops (Token.significant (first :: tokens)))
    (closed : Span.skipAttributes 0 (Token.significant (first :: tokens)) ≠ [])
    (inside : (next .members first (tokens ++ after)).width ≤ tokens.length + 1) :
    next .members first (tokens ++ others) = next .members first (tokens ++ after) := by
  have ahead (others : List Token) :
      Span.declaredType? (Token.significant (first :: (tokens ++ others)))
      = Span.declaredType? (Token.significant (first :: tokens)) := by
    rw [← List.cons_append, Token.significant_append,
      Span.declaredType?_append stops closed]
  simp only [next, ahead] at inside ⊢
  cases declares : Span.declaredType? (Token.significant (first :: tokens)) with
  | some found =>
      simp only [declares] at inside ⊢
      exact ofType_append akin inside
  | none =>
      simp only [declares, whole, width] at inside ⊢
      rw [Span.item_append akin inside]
      have own (others : List Token) {width : Nat}
          (inside : width ≤ tokens.length + 1) :
          (first :: (tokens ++ others)).take width = (first :: tokens).take width := by
        rw [← List.cons_append, List.take_append_of_le_length inside]
      rw [own others inside, own after inside]

end Akin

variable {word : Token} (plain : IsWord word) (more : List Token)

include plain

theorem typeHeader_lt {keyword : TypeKeyword} {name : Text} {first : Token}
    {tokens : List Token}
    (inside : (ofType keyword name first (tokens ++ word :: more)).width
      ≤ tokens.length + 1) :
    Span.typeHeader (Span.depthAfter 0 first) (tokens ++ word :: more)
      < tokens.length := by
  have reached := Nat.le_of_lt_succ
    (Nat.lt_of_lt_of_le
      (typeHeader_lt_width keyword name first (tokens ++ word :: more)) inside)
  apply Nat.lt_of_le_of_ne reached
  intro last
  have found : (tokens ++ word :: more)[tokens.length]? = some word := by
    rw [List.getElem?_append_right (Nat.le_refl _), Nat.sub_self]
    rfl
  rw [← last] at found
  have boundary := Span.typeHeader_boundary found
  rw [plain.boundary] at boundary
  cases boundary

theorem ofType_stops {keyword : TypeKeyword} {name : Text} {first : Token}
    {tokens head : List Token} {kind : NodeKind}
    (reads : ofType keyword name first (tokens ++ word :: more)
      = .leaf kind head (tokens.length + 1)) :
    Stops (first :: tokens) := by
  apply Stops.cons
  have short := typeHeader_lt plain more (by rw [reads]; exact Nat.le_refl _)
  simp only [ofType, List.getElem?_cons_succ] at reads
  generalize Span.typeHeader (Span.depthAfter 0 first) (tokens ++ word :: more) = header
    at short reads
  have behind : (first :: (tokens ++ word :: more)).drop (header + 1)
      = tokens.drop header ++ word :: more := by
    rw [List.drop_succ_cons, List.drop_append_of_le_length (Nat.le_of_lt short)]
  simp only [List.getElem?_append_left short, behind] at reads
  obtain ⟨token, found⟩ : ∃ token, tokens[header]? = some token :=
    ⟨_, List.getElem?_eq_getElem short⟩
  simp only [found] at reads
  split at reads
  · split at reads
    · simp only [leaf.injEq] at reads
      have width := reads.2.2
      have block : Span.nested openBrace closeBrace 0
          (tokens.drop header ++ word :: more)
          ≤ (tokens.drop header).length := by
        rw [List.length_drop]
        omega
      obtain ⟨front, last, rest, parted, closing, size⟩ := Span.nested_last block
      have whole : tokens = tokens.take header ++ (front ++ last :: rest) := by
        rw [← parted, List.take_append_drop]
      have sizes : tokens.length = header + (front.length + (rest.length + 1)) := by
        have lengths := congrArg List.length whole
        rw [List.length_append, List.length_take,
          Nat.min_eq_left (Nat.le_of_lt short)] at lengths
        simpa using lengths
      have left : (first :: (tokens ++ word :: more)).drop
          (header + 1 + (front.length + 1))
          = rest ++ word :: more := by
        rw [← List.drop_drop, behind, parted, List.append_assoc, List.cons_append,
          List.drop_length_add_append]
        rfl
      rw [size, left] at width
      rw [whole]
      apply Stops.append
      have final : Span.semicolon (rest ++ word :: more) = rest.length := by omega
      cases Span.semicolon_stops plain more final with
      | inl empty =>
          rw [empty]
          exact .intro front (by simp [Span.isBoundary, closing])
      | inr stops => exact (stops.cons last).append front
    · cases reads
  split at reads
  · rename_i final
    simp only [leaf.injEq] at reads
    have last : tokens = tokens.take header ++ [token] := by
      have taken := List.take_add_one (l := tokens) (i := header)
      rw [found, Option.toList_some, List.take_of_length_le (by omega)] at taken
      exact taken
    rw [last]
    exact .intro _ (by simp [Span.isBoundary, final])
  · simp only [leaf.injEq] at reads
    omega

/-- A member without a body ends with a boundary in front of a word. -/
theorem next_stops {first : Token} {tokens head : List Token} {kind : NodeKind}
    (reads : next .members first (tokens ++ word :: more)
      = .leaf kind head (tokens.length + 1)) :
    Stops (first :: tokens) := by
  simp only [next] at reads
  split at reads
  · exact ofType_stops plain more reads
  · simp only [whole, leaf.injEq] at reads
    exact Span.item_stops plain more reads.2.2

end Item

end Parser

end Lineup
