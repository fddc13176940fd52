import Lineup.Proofs.Syntax.Form

/-!
# Passing over trivia

Trivia is passed over wherever the extent of a construct is sought. So the item that
stands next is the same, token by token, in every text that has the same significant
tokens ahead.
-/

namespace Lineup

namespace Token

/-- The significant tokens without their places. -/
def gist (tokens : List Token) : List Token :=
  (significant tokens).map bare

@[simp] theorem significant_nil : significant [] = [] := rfl

theorem significant_append (tokens others : List Token) :
    significant (tokens ++ others) = significant tokens ++ significant others :=
  List.filter_append ..

theorem significant_trivia {token : Token} (ignored : token.isTrivia = true)
    (rest : List Token) :
    significant (token :: rest) = significant rest := by
  simp [significant, ignored]

theorem significant_cons {token : Token} (solid : token.isTrivia = false)
    (rest : List Token) :
    significant (token :: rest) = token :: significant rest := by
  simp [significant, solid]

theorem significant_eq_nil {tokens : List Token}
    (trivia : ∀ token ∈ tokens, token.isTrivia = true) :
    significant tokens = [] := by
  simpa [significant] using trivia

theorem significant_eq_self {tokens : List Token}
    (solid : ∀ token ∈ tokens, token.isTrivia = false) :
    significant tokens = tokens := by
  simpa [significant] using solid

theorem solid_significant {tokens : List Token} :
    ∀ token ∈ significant tokens, token.isTrivia = false := by
  simp [significant]

@[simp] theorem gist_nil : gist [] = [] := rfl

@[simp] theorem gist_append (tokens others : List Token) :
    gist (tokens ++ others) = gist tokens ++ gist others := by
  rw [gist, significant_append, List.map_append, gist, gist]

theorem solid_gist {tokens : List Token} :
    ∀ token ∈ gist tokens, token.isTrivia = false := by
  intro token member
  obtain ⟨found, significant, rfl⟩ := List.mem_map.mp member
  exact solid_significant found significant

@[simp] theorem gist_gist (tokens : List Token) : gist (gist tokens) = gist tokens := by
  rw [gist, significant_eq_self solid_gist, gist, List.map_map]
  rfl

theorem gist_cons {token : Token} (solid : token.isTrivia = false) (rest : List Token) :
    gist (token :: rest) = token.bare :: gist rest := by
  rw [gist, significant_cons solid, List.map_cons, gist]

theorem gist_eq_nil {tokens : List Token}
    (trivia : ∀ token ∈ tokens, token.isTrivia = true) :
    gist tokens = [] := by
  rw [gist, significant_eq_nil trivia, List.map_nil]

theorem gist_eq_nil_iff {tokens : List Token} :
    gist tokens = [] ↔ ∀ token ∈ tokens, token.isTrivia = true := by
  rw [gist, List.map_eq_nil_iff]
  simp [significant]

theorem gist_dropWhile (tokens : List Token) :
    gist (tokens.dropWhile isTrivia) = gist tokens := by
  have trivia : gist (tokens.takeWhile isTrivia) = [] :=
    gist_eq_nil fun token member => List.mem_takeWhile_imp member
  have all := gist_append (tokens.takeWhile isTrivia) (tokens.dropWhile isTrivia)
  rwa [List.takeWhile_append_dropWhile, trivia, List.nil_append, eq_comm] at all

theorem exists_of_gist_cons {tokens more : List Token} {token : Token}
    (same : gist tokens = token :: more) :
    ∃ lead first rest, tokens = lead ++ first :: rest
      ∧ (∀ token ∈ lead, token.isTrivia = true) ∧ first.isTrivia = false
      ∧ first.bare = token ∧ gist rest = more := by
  rw [← gist_dropWhile] at same
  cases ahead : tokens.dropWhile isTrivia with
  | nil =>
      rw [ahead] at same
      cases same
  | cons first rest =>
      have solid : first.isTrivia = false := by
        have head := List.head?_dropWhile_not isTrivia tokens
        rwa [ahead] at head
      rw [ahead, gist_cons solid, List.cons.injEq] at same
      refine ⟨tokens.takeWhile isTrivia, first, rest, ?_, ?_, solid, same⟩
      · rw [← ahead, List.takeWhile_append_dropWhile]
      · intro token member
        exact List.mem_takeWhile_imp member

theorem is_trivia {token : Token} (ignored : token.isTrivia = true)
    (spelling : String) :
    token.is spelling = false := by
  simp [Token.is, ignored]

end Token

namespace Span

open Token (gist significant significant_cons significant_trivia is_trivia)

/-- A width meets another one when the same significant tokens are left behind both, the
other one being a number of significant tokens. -/
def Meets (tokens : List Token) (width other : Nat) : Prop :=
  significant (tokens.drop width) = (significant tokens).drop other

namespace Meets

variable {token : Token} {tokens rest : List Token} {width other : Nat}

theorem zero (tokens : List Token) : Meets tokens 0 0 := rfl

theorem trivia (meets : Meets rest width other) (ignored : token.isTrivia = true) :
    Meets (token :: rest) (width + 1) other := by
  rw [Meets, significant_trivia ignored, List.drop_succ_cons]
  exact meets

theorem cons (meets : Meets rest width other) (solid : token.isTrivia = false) :
    Meets (token :: rest) (width + 1) (other + 1) := by
  rw [Meets, significant_cons solid, List.drop_succ_cons, List.drop_succ_cons]
  exact meets

theorem add (meets : Meets tokens width other) {more others : Nat}
    (later : Meets (tokens.drop width) more others) :
    Meets tokens (width + more) (other + others) := by
  rw [Meets, ← List.drop_drop, ← List.drop_drop, ← meets]
  exact later

theorem taken (meets : Meets tokens width other) :
    significant (tokens.take width) = (significant tokens).take other := by
  have parted : significant tokens
      = significant (tokens.take width) ++ significant (tokens.drop width) := by
    rw [← Token.significant_append, List.take_append_drop]
  rw [meets] at parted
  exact List.append_cancel_right
    (parted.symm.trans (List.take_append_drop other _).symm)

theorem drop_eq_cons (found : tokens[width]? = some token) :
    tokens.drop width = token :: tokens.drop (width + 1) := by
  obtain ⟨inside, rfl⟩ := List.getElem?_eq_some_iff.mp found
  exact List.drop_eq_getElem_cons inside

theorem getElem? (meets : Meets tokens width other) (solid : token.isTrivia = false)
    (found : tokens[width]? = some token) :
    (significant tokens)[other]? = some token := by
  rw [Meets, drop_eq_cons found, significant_cons solid] at meets
  rw [← List.head?_drop, ← meets, List.head?_cons]

theorem succ (meets : Meets tokens width other) (solid : token.isTrivia = false)
    (found : tokens[width]? = some token) : Meets tokens (width + 1) (other + 1) := by
  apply meets.add
  rw [drop_eq_cons found]
  exact (zero _).cons solid

theorem none (meets : Meets tokens width other) (ends : tokens[width]? = none) :
    (significant tokens)[other]? = none := by
  rw [List.getElem?_eq_none_iff] at ends ⊢
  rw [Meets, List.drop_eq_nil_of_le ends, Token.significant_nil, eq_comm,
    List.drop_eq_nil_iff] at meets
  exact meets

end Meets

theorem nested_meets (opener closer : String) (depth : Nat) (tokens : List Token) :
    Meets tokens (nested opener closer depth tokens)
      (nested opener closer depth (significant tokens)) := by
  induction tokens generalizing depth with
  | nil => exact .zero []
  | cons token rest ih =>
      cases ignored : token.isTrivia with
      | true =>
          rw [significant_trivia ignored]
          simp only [nested, is_trivia ignored, Bool.false_eq_true, if_false]
          exact (ih depth).trivia ignored
      | false =>
          rw [significant_cons ignored]
          simp only [nested]
          split
          · exact (ih _).cons ignored
          split
          · split
            · exact (Meets.zero rest).cons ignored
            · exact (ih _).cons ignored
          · exact (ih _).cons ignored

theorem nextIs_significant (spelling : String) (tokens : List Token) :
    nextIs spelling (significant tokens) = nextIs spelling tokens := by
  simp [nextIs, significant]

theorem semicolon_meets (tokens : List Token) :
    Meets tokens (semicolon tokens) (semicolon (significant tokens)) := by
  induction tokens with
  | nil => exact .zero []
  | cons token rest ih =>
      cases ignored : token.isTrivia with
      | true =>
          rw [significant_trivia ignored]
          simp only [semicolon, ignored, if_true]
          cases width : semicolon rest with
          | zero =>
              rw [width] at ih
              rw [Meets, significant_trivia ignored, ← ih]
              rw [List.drop_zero, List.drop_zero, significant_trivia ignored]
          | succ width' =>
              rw [width] at ih
              exact ih.trivia ignored
      | false =>
          rw [significant_cons ignored]
          simp only [semicolon, ignored, Bool.false_eq_true, if_false]
          split
          · exact (Meets.zero rest).cons ignored
          · exact .zero _

/-- What a token does to an item whose end is sought. -/
inductive Outcome where
  /-- The item ends in front of the token. -/
  | before
  /-- The item ends behind the token. -/
  | behind
  | goesOn (next : ItemState)

/-- What a token does to an item; `followed` says whether an equals sign comes next. -/
def ItemState.outcome (state : ItemState) (token : Token) (followed : Bool) : Outcome :=
  if 0 < state.braces then
    if token.is openBrace then .goesOn { state with braces := state.braces + 1 }
    else if token.is closeBrace then
      if state.braces == 1 && state.isOutside && !state.assigned && !followed then
        .behind
      else .goesOn { state with braces := state.braces - 1 }
    else .goesOn state
  else if token.is "(" then .goesOn { state with parens := state.parens + 1 }
  else if token.is ")" then .goesOn { state with parens := state.parens - 1 }
  else if token.is "[" then .goesOn { state with brackets := state.brackets + 1 }
  else if token.is "]" then .goesOn { state with brackets := state.brackets - 1 }
  else if token.is openBrace then .goesOn { state with braces := 1 }
  else if token.is closeBrace then .before
  else if token.is ";" && state.isOutside then .behind
  else if (token.is "=" || token.is "=>") && state.isOutside then
    .goesOn { state with assigned := true }
  else .goesOn state

/-- The number of tokens up to the end of an item, from a token on, by what the token
does. -/
def Outcome.width (rest : List Token) : Outcome → Nat
  | before => 0
  | behind => 1
  | goesOn next => itemFrom next rest + 1

/-- The end of an item is found token by token. -/
theorem itemFrom_cons (state : ItemState) (token : Token) (rest : List Token) :
    itemFrom state (token :: rest)
      = (state.outcome token (nextIs "=" rest)).width rest := by
  simp only [ItemState.outcome, apply_ite (Outcome.width rest)]
  rfl

theorem outcome_trivia {token : Token} (ignored : token.isTrivia = true)
    (state : ItemState) (followed : Bool) :
    state.outcome token followed = .goesOn state := by
  simp only [ItemState.outcome, is_trivia ignored, Bool.false_eq_true, if_false,
    Bool.false_and, Bool.or_self, ite_self]

theorem itemFrom_meets (state : ItemState) (tokens : List Token) :
    Meets tokens (itemFrom state tokens) (itemFrom state (significant tokens)) := by
  induction tokens generalizing state with
  | nil => exact .zero []
  | cons token rest ih =>
      rw [itemFrom_cons]
      cases ignored : token.isTrivia with
      | true =>
          rw [significant_trivia ignored, outcome_trivia ignored]
          exact (ih state).trivia ignored
      | false =>
          rw [significant_cons ignored, itemFrom_cons, nextIs_significant]
          cases state.outcome token (nextIs "=" rest) with
          | before => exact .zero _
          | behind => exact (Meets.zero rest).cons ignored
          | goesOn next => exact (ih next).cons ignored

theorem item_cons (first : Token) (rest : List Token) :
    item (first :: rest)
      = if first.is closeBrace then 1 else itemFrom {} (first :: rest) := rfl

theorem item_meets {first : Token} (solid : first.isTrivia = false)
    (rest : List Token) :
    Meets (first :: rest) (item (first :: rest))
      (item (first :: significant rest)) := by
  have all := itemFrom_meets {} (first :: rest)
  rw [significant_cons solid] at all
  rw [item_cons, item_cons]
  split
  · exact (Meets.zero rest).cons solid
  · exact all

theorem typeHeader_meets (depth : Nat) (tokens : List Token) :
    Meets tokens (typeHeader depth tokens) (typeHeader depth (significant tokens)) := by
  induction tokens generalizing depth with
  | nil => exact .zero []
  | cons token rest ih =>
      cases ignored : token.isTrivia with
      | true =>
          rw [significant_trivia ignored]
          simp only [typeHeader, depthAfter, isBoundary, is_trivia ignored,
            Bool.or_self, Bool.false_eq_true, if_false, Bool.and_false]
          exact (ih depth).trivia ignored
      | false =>
          rw [significant_cons ignored]
          simp only [typeHeader]
          split
          · exact .zero _
          · exact (ih _).cons ignored

theorem namespaceHeader_meets (tokens : List Token) :
    Meets tokens (namespaceHeader tokens) (namespaceHeader (significant tokens)) := by
  induction tokens with
  | nil => exact .zero []
  | cons token rest ih =>
      simp only [namespaceHeader] at ih ⊢
      cases ignored : token.isTrivia with
      | true =>
          rw [significant_trivia ignored]
          simp only [isBoundary, is_trivia ignored, Bool.or_self, Bool.not_false,
            if_true, List.takeWhile_cons, List.length_cons] at ih ⊢
          exact ih.trivia ignored
      | false =>
          rw [significant_cons ignored, List.takeWhile_cons, List.takeWhile_cons]
          split
          · exact ih.cons ignored
          · exact .zero _

theorem solid_of_isBoundary {token : Token} (boundary : isBoundary token = true) :
    token.isTrivia = false := by
  simp only [isBoundary, Token.is, Bool.or_eq_true, Bool.and_eq_true,
    Bool.not_eq_true'] at boundary
  rcases boundary with (is | is) | is <;> exact is.1

theorem gist_trailing (tokens : List Token) :
    gist (tokens.drop (trailing tokens)) = gist tokens := by
  induction tokens with
  | nil => rfl
  | cons token rest ih =>
      rw [trailing]
      cases ignored : token.isTrivia with
      | false => simp
      | true =>
          have passed : gist (token :: rest) = gist rest := by
            rw [gist, gist, significant_trivia ignored]
          simp only [Bool.not_true, Bool.false_or]
          split
          · rfl
          split
          · exact passed.symm
          · rw [List.drop_succ_cons, ih, passed]

end Span

namespace Parser

open Token (gist significant)

namespace Item

/-- An item and the one that is left of it without trivia. -/
inductive Projects (tokens : List Token) : Item → Item → Prop where
  | leaf {kind : NodeKind} {head : List Token} {width other : Nat}
      (meets : Span.Meets tokens width other) :
      Projects tokens (.leaf kind head width) (.leaf kind head other)
  | block {kind : NodeKind} {head : List Token} {scope : Scope} {width other : Nat}
      (meets : Span.Meets tokens width other) :
      Projects tokens (.block kind head scope width) (.block kind head scope other)

section Projects

variable {first : Token} (solid : first.isTrivia = false) (rest : List Token)

include solid

theorem head_meets {width other : Nat}
    (meets : Span.Meets (first :: rest) width other) :
    significant ((first :: significant rest).take other)
      = significant ((first :: rest).take width) := by
  rw [meets.taken, Token.significant_cons solid]
  apply Token.significant_eq_self
  intro token member
  have among := List.mem_of_mem_take member
  rw [← Token.significant_cons solid] at among
  exact Token.solid_significant token among

theorem projects_whole (kind : NodeKind) {width other : Nat}
    (meets : Span.Meets (first :: rest) width other) :
    Projects (first :: rest) (whole kind width (first :: rest))
      (whole kind other (first :: significant rest)) := by
  rw [whole, whole, head_meets solid rest meets]
  exact .leaf meets

theorem projects_ofNamespace :
    Projects (first :: rest) (ofNamespace first rest)
      (ofNamespace first (significant rest)) := by
  have meets := (Span.namespaceHeader_meets rest).cons solid
  have all := Token.significant_cons solid rest
  simp only [ofNamespace, head_meets solid rest meets]
  cases found : (first :: rest)[Span.namespaceHeader rest + 1]? with
  | none =>
      rw [← all, meets.none found]
      exact .leaf meets
  | some token =>
      have boundary := Span.solid_of_isBoundary
        (Span.namespaceHeader_boundary (by simpa using found))
      rw [← all, meets.getElem? boundary found]
      dsimp only
      split
      · exact .block (meets.succ boundary found)
      split
      · exact .block (meets.succ boundary found)
      · exact .leaf meets

theorem projects_ofType (keyword : TypeKeyword) (name : Text) :
    Projects (first :: rest) (ofType keyword name first rest)
      (ofType keyword name first (significant rest)) := by
  have meets := (Span.typeHeader_meets (Span.depthAfter 0 first) rest).cons solid
  have all := Token.significant_cons solid rest
  simp only [ofType, head_meets solid rest meets]
  cases found : (first :: rest)[Span.typeHeader (Span.depthAfter 0 first) rest
    + 1]? with
  | none =>
      rw [← all, meets.none found]
      exact .leaf meets
  | some token =>
      have boundary := Span.solid_of_isBoundary
        (Span.typeHeader_boundary (by simpa using found))
      rw [← all, meets.getElem? boundary found]
      dsimp only
      split
      · split
        · -- The block of an enum, and a semicolon after it.
          have block := meets.add (Span.nested_meets openBrace closeBrace 0 _)
          rw [meets] at block
          have final := block.add (Span.semicolon_meets _)
          rw [block] at final
          exact .leaf final
        · exact .block (meets.succ boundary found)
      split
      · exact .leaf (meets.succ boundary found)
      · exact .leaf meets

/-- The next item is the same without the trivia behind its first token. -/
theorem projects_next (scope : Scope) :
    Projects (first :: rest) (next scope first rest)
      (next scope first (significant rest)) := by
  have all := Token.significant_cons solid rest
  have again : significant (first :: significant rest)
      = significant (first :: rest) := by
    rw [Token.significant_cons solid, all,
      Token.significant_eq_self Token.solid_significant]
  rw [next_eq, next_eq, again]
  cases Form.ahead scope first (significant (first :: rest)) with
  | ofType keyword name => exact projects_ofType solid rest keyword name
  | ofNamespace => exact projects_ofNamespace solid rest
  | ofAttributes =>
      have meets := Span.nested_meets "[" "]" 0 (first :: rest)
      rw [all] at meets
      exact projects_whole solid rest .other meets
  | ofItem kind => exact projects_whole solid rest kind (Span.item_meets solid rest)

end Projects

/-- Two items that differ in trivia and in the places of tokens only. Given are the
tokens that they are read from. -/
inductive Alike (tokens others : List Token) : Item → Item → Prop where
  | leaf {kind : NodeKind} {head head' : List Token} {width width' : Nat}
      (heads : head.map Token.bare = head'.map Token.bare)
      (own : gist (tokens.take width) = gist (others.take width'))
      (rest : gist (tokens.drop width) = gist (others.drop width')) :
      Alike tokens others (.leaf kind head width) (.leaf kind head' width')
  | block {kind : NodeKind} {head head' : List Token} {scope : Scope}
        {width width' : Nat}
      (heads : head.map Token.bare = head'.map Token.bare)
      (own : gist (tokens.take width) = gist (others.take width'))
      (rest : gist (tokens.drop width) = gist (others.drop width')) :
      Alike tokens others (.block kind head scope width)
        (.block kind head' scope width')

theorem gist_drop {tokens others : List Token} {width width' other : Nat}
    (same : gist tokens = gist others) (meets : Span.Meets tokens width other)
    (meets' : Span.Meets others width' other) :
    gist (tokens.drop width) = gist (others.drop width') := by
  rw [gist, gist, meets, meets', List.map_drop, List.map_drop]
  exact congrArg (List.drop other) same

theorem gist_take {tokens others : List Token} {width width' other : Nat}
    (same : gist tokens = gist others) (meets : Span.Meets tokens width other)
    (meets' : Span.Meets others width' other) :
    gist (tokens.take width) = gist (others.take width') := by
  rw [gist, gist, meets.taken, meets'.taken, List.map_take, List.map_take]
  exact congrArg (List.take other) same

/-- The semicolon behind a block depends on the significant tokens ahead only. -/
theorem gist_semicolon {tokens others : List Token} (same : gist tokens = gist others) :
    gist (tokens.take (Span.semicolon tokens))
      = gist (others.take (Span.semicolon others))
      ∧ gist (tokens.drop (Span.semicolon tokens))
        = gist (others.drop (Span.semicolon others)) := by
  have width : Span.semicolon (significant tokens)
      = Span.semicolon (significant others) := by
    rw [← Span.semicolon_bare, ← Span.semicolon_bare (significant others)]
    exact congrArg Span.semicolon same
  have meets := Span.semicolon_meets tokens
  have meets' := Span.semicolon_meets others
  rw [← width] at meets'
  exact ⟨gist_take same meets meets', gist_drop same meets meets'⟩

/-- The next item depends on the significant tokens ahead only. -/
theorem alike_next (scope : Scope) {first first' : Token} {rest rest' : List Token}
    (solid : first.isTrivia = false) (solid' : first'.isTrivia = false)
    (same : gist (first :: rest) = gist (first' :: rest')) :
    Alike (first :: rest) (first' :: rest') (next scope first rest)
      (next scope first' rest') := by
  have projects := projects_next solid rest scope
  have projects' := projects_next solid' rest' scope
  have faces : (first :: significant rest).map Token.bare
      = (first' :: significant rest').map Token.bare := by
    rwa [gist, gist, Token.significant_cons solid,
      Token.significant_cons solid'] at same
  have items := next_congr scope (Token.map_bare_iff.mp faces)
  generalize next scope first rest = item at projects
  generalize next scope first' rest' = item' at projects'
  generalize next scope first (significant rest) = left at projects items
  generalize next scope first' (significant rest') = right at projects' items
  cases projects with
  | leaf meets =>
      cases projects' with
      | block => cases items
      | leaf meets' =>
          simp only [Item.bare, leaf.injEq] at items
          obtain ⟨rfl, heads, rfl⟩ := items
          exact .leaf heads (gist_take same meets meets') (gist_drop same meets meets')
  | block meets =>
      cases projects' with
      | leaf => cases items
      | block meets' =>
          simp only [Item.bare, block.injEq] at items
          obtain ⟨rfl, heads, rfl, rfl⟩ := items
          exact .block heads (gist_take same meets meets') (gist_drop same meets meets')

end Item

end Parser

end Lineup
