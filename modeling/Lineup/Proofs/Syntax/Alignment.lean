import Lineup.Proofs.Syntax.Gist
import Lineup.Proofs.Syntax.RoundTrip

/-!
# The grammar is unambiguous

Significant tokens can be read as the nodes of a body in one way only: two readings of
the same significant tokens that both go on to the end of the body have the same extent,
and their nodes are made of the same tokens one by one.
-/

namespace Lineup

namespace Parser

open Token (gist)

/-- Nothing is left of a body: the text ends, or the brace that closes the body comes
next. -/
def Done (scope : Scope) (tokens : List Token) : Prop :=
  ∀ token more, gist tokens = token :: more →
    (scope.isBraced && token.is closeBrace) = true

theorem gist_trail {trail rest : List Token}
    (trails : Span.trailing (trail ++ rest) = trail.length) : gist trail = [] := by
  have same := Span.gist_trailing (trail ++ rest)
  rw [trails, List.drop_left, Token.gist_append] at same
  exact List.self_eq_append_left.mp same

theorem gist_lead {lead : List Token} (trivia : ∀ token ∈ lead, token.isTrivia = true)
    (rest : List Token) : gist (lead ++ rest) = gist rest := by
  rw [Token.gist_append, Token.gist_eq_nil trivia, List.nil_append]

namespace Closes

variable {scope : Scope} {closing closing' trail trail' rest rest' : List Token}
  {final final' : List Segment}

/-- A body is closed where nothing is left of it. -/
theorem done (closes : Closes scope closing trail rest final) :
    Done scope (closing ++ (trail ++ rest)) := by
  intro token more same
  cases closes with
  | @brace lead final trail rest brace braced trivia is ends trails =>
      have solid : brace.isTrivia = false :=
        Span.solid_of_isBoundary (by simp [Span.isBoundary, is])
      rw [List.append_assoc, gist_lead trivia, List.cons_append, Token.gist_cons solid,
        List.cons.injEq] at same
      rw [braced, ← same.1, Token.is_bare, is, Bool.and_self]
  | text braced trivia =>
      rw [List.append_nil, List.append_nil, Token.gist_eq_nil trivia] at same
      cases same
  | nothing plain trivia =>
      rw [List.nil_append, List.nil_append, Token.gist_eq_nil trivia] at same
      cases same

theorem trail_trivial (closes : Closes scope closing trail rest final) :
    gist trail = [] := by
  cases closes with
  | brace _ _ _ _ trails => exact gist_trail trails
  | text => rfl
  | nothing => rfl

/-- A body is closed by the same tokens whatever the trivia. -/
theorem unique (closes : Closes scope closing trail rest final)
    (closes' : Closes scope closing' trail' rest' final')
    (same : gist (closing ++ (trail ++ rest)) = gist (closing' ++ (trail' ++ rest'))) :
    gist (closing ++ trail) = gist (closing' ++ trail') ∧ gist rest = gist rest' := by
  cases closes with
  | @brace lead final trail rest brace braced trivia is ends trails =>
      have solid : brace.isTrivia = false :=
        Span.solid_of_isBoundary (by simp [Span.isBoundary, is])
      cases closes' with
      | @brace lead' final' trail' rest' brace' braced' trivia' is' ends' trails' =>
          have solid' : brace'.isTrivia = false :=
            Span.solid_of_isBoundary (by simp [Span.isBoundary, is'])
          simp only [List.append_assoc, List.cons_append, gist_lead trivia,
            gist_lead trivia', Token.gist_cons solid, Token.gist_cons solid',
            List.cons.injEq] at same ⊢
          have finals := Item.gist_semicolon same.2
          rw [ends, ends', List.take_left, List.take_left, List.drop_left,
            List.drop_left] at finals
          simp only [Token.gist_append, gist_trail trails, gist_trail trails',
            List.append_nil, List.nil_append] at finals ⊢
          exact ⟨⟨same.1, finals.1⟩, finals.2⟩
      | text braced' trivia' =>
          rw [List.append_nil, List.append_nil, Token.gist_eq_nil trivia',
            List.append_assoc, gist_lead trivia, List.cons_append,
            Token.gist_cons solid] at same
          cases same
      | nothing plain =>
          rw [plain] at braced
          cases braced
  | text braced trivia =>
      cases closes' with
      | @brace lead' final' trail' rest' brace' braced' trivia' is' =>
          have solid' : brace'.isTrivia = false :=
            Span.solid_of_isBoundary (by simp [Span.isBoundary, is'])
          rw [List.append_nil, List.append_nil, Token.gist_eq_nil trivia,
            List.append_assoc, gist_lead trivia', List.cons_append,
            Token.gist_cons solid'] at same
          cases same
      | text braced' trivia' =>
          rw [List.append_nil, List.append_nil, Token.gist_eq_nil trivia,
            Token.gist_eq_nil trivia']
          exact ⟨rfl, rfl⟩
      | nothing plain =>
          rw [plain] at braced
          cases braced
  | nothing plain trivia =>
      cases closes' with
      | brace braced' =>
          rw [plain] at braced'
          cases braced'
      | text braced' =>
          rw [plain] at braced'
          cases braced'
      | nothing plain' trivia' => exact ⟨rfl, same⟩

end Closes

/-- Two readings whose nodes are made of the same significant tokens, one by one. -/
inductive Aligned : List Node → List Token → List Node → List Token → Prop where
  | nil : Aligned [] [] [] []
  | cons {node node' : Node} {nodes nodes' : List Node}
        {own own' tokens tokens' : List Token}
      (print : node.print = Token.joined own) (print' : node'.print = Token.joined own')
      (same : gist own = gist own') (others : Aligned nodes tokens nodes' tokens') :
      Aligned (node :: nodes) (own ++ tokens) (node' :: nodes') (own' ++ tokens')

theorem Aligned.gist_eq {nodes nodes' : List Node} {tokens tokens' : List Token}
    (aligned : Aligned nodes tokens nodes' tokens') : gist tokens = gist tokens' := by
  induction aligned with
  | nil => rfl
  | cons _ _ same _ ih => rw [Token.gist_append, Token.gist_append, same, ih]

theorem Done.no_item {scope : Scope} {rest lead more : List Token} {first : Token}
    (done : Done scope rest) (trivia : ∀ token ∈ lead, token.isTrivia = true)
    (starts : first.isTrivia = false)
    (inside : (scope.isBraced && first.is closeBrace) = false)
    (same : gist rest = gist (lead ++ first :: more)) : False := by
  rw [gist_lead trivia, Token.gist_cons starts] at same
  have closing := done _ _ same
  rw [Token.is_bare, inside] at closing
  cases closing

theorem leaf_print (id : Nat) (kind : NodeKind) (first : Token)
    (head lead core trail : List Token) :
    (Node.mk { id, kind, leading := Token.joined lead,
               trailing := Token.joined trail, head }
      [.text (Token.joined (first :: core))]).print
        = Token.joined (lead ++ first :: (core ++ trail)) := by
  simp

theorem block_print (id : Nat) (kind : NodeKind) (first : Token)
    (head lead header opening trail : List Token) {scope : Scope}
    {body closing rest behind : List Token} {members : List Node} {final : List Segment}
    (within : Parsed scope members body rest)
    (closes : Closes scope closing trail behind final) :
    (Node.mk { id, kind, leading := Token.joined lead,
               trailing := Token.joined trail, head }
      (.text (Token.joined (first :: header) ++ Token.joined opening)
        :: (scope.body members).segments ++ final)).print
      = Token.joined (lead
        ++ first :: (header ++ (opening ++ (body ++ (closing ++ trail))))) := by
  simp [printAll_body, within.printAll, closes.printAll]

/-- The same item stands next behind trivia. -/
theorem alike_next (scope : Scope) {lead lead' rest rest' : List Token}
    {first first' : Token} (trivia : ∀ token ∈ lead, token.isTrivia = true)
    (starts : first.isTrivia = false) (trivia' : ∀ token ∈ lead', token.isTrivia = true)
    (starts' : first'.isTrivia = false)
    (same : gist (lead ++ first :: rest) = gist (lead' ++ first' :: rest')) :
    Item.Alike (first :: rest) (first' :: rest') (Item.next scope first rest)
      (Item.next scope first' rest') := by
  rw [gist_lead trivia, gist_lead trivia'] at same
  exact Item.alike_next scope starts starts' same

theorem Parsed.eq_nil {scope : Scope} {nodes : List Node}
    {tokens rest rest' : List Token} (parsed : Parsed scope nodes tokens rest)
    (done : Done scope rest') (same : gist rest' = gist (tokens ++ rest)) :
    nodes = [] := by
  cases parsed with
  | nil => rfl
  | leaf id trivia starts inside =>
      rw [List.append_assoc] at same
      exact (done.no_item trivia starts inside same).elim
  | block id trivia starts inside =>
      rw [List.append_assoc] at same
      exact (done.no_item trivia starts inside same).elim

/-- An item without a body that is the last one is found as the only node. -/
theorem Parsed.exists_leaf {scope : Scope} {nodes : List Node}
    {tokens rest core rest' head : List Token} {kind : NodeKind} {first : Token}
    (parsed : Parsed scope nodes tokens rest) (done : Done scope rest)
    (done' : Done scope rest') (starts : first.isTrivia = false)
    (inside : (scope.isBraced && first.is closeBrace) = false)
    (reads : Item.next scope first (core ++ rest') = .leaf kind head (core.length + 1))
    (same : gist (tokens ++ rest) = gist (first :: (core ++ rest'))) :
    ∃ node, nodes = [node] ∧ node.kind = kind
      ∧ node.head.map Token.bare = head.map Token.bare := by
  have noTrivia : ∀ token ∈ ([] : List Token), token.isTrivia = true := by simp
  cases parsed with
  | nil => exact (done.no_item noTrivia starts inside same).elim
  | @leaf _ id' kind' first' head' lead core' trail tokens _ nodes trivia starts'
        inside' reads' trails others =>
      simp only [List.append_assoc, List.cons_append] at same
      have alike := alike_next scope trivia starts' noTrivia starts same
      rw [reads, reads'] at alike
      cases alike with
      | leaf heads own behind =>
          simp only [List.drop_succ_cons, List.drop_left] at behind
          rw [Token.gist_append trail, gist_trail trails, List.nil_append] at behind
          obtain rfl := others.eq_nil done' behind.symm
          exact ⟨_, rfl, rfl, heads⟩
  | block id' trivia starts' inside' reads' =>
      simp only [List.append_assoc, List.cons_append] at same
      have alike := alike_next scope trivia starts' noTrivia starts same
      rw [reads, reads'] at alike
      cases alike

/-- Two readings of the same significant tokens to the end of a body are aligned. -/
theorem Parsed.aligned {scope : Scope} {nodes nodes' : List Node}
    {tokens tokens' rest rest' : List Token} (parsed : Parsed scope nodes tokens rest)
    (parsed' : Parsed scope nodes' tokens' rest')
    (same : gist (tokens ++ rest) = gist (tokens' ++ rest')) (done : Done scope rest)
    (done' : Done scope rest') :
    Aligned nodes tokens nodes' tokens' := by
  induction parsed generalizing nodes' tokens' rest' with
  | nil =>
      cases parsed' with
      | nil => exact .nil
      | leaf id trivia starts inside =>
          simp only [List.nil_append, List.append_assoc, List.cons_append] at same
          exact (done.no_item trivia starts inside same).elim
      | block id trivia starts inside =>
          simp only [List.nil_append, List.append_assoc, List.cons_append] at same
          exact (done.no_item trivia starts inside same).elim
  | @leaf scope id kind first head lead core trail tokens rest nodes trivia starts
        inside reads trails others ih =>
      simp only [List.append_assoc, List.cons_append] at same
      cases parsed' with
      | nil => exact (done'.no_item trivia starts inside same.symm).elim
      | @leaf _ id' kind' first' head' lead' core' trail' tokens' _ nodes' trivia'
            starts' inside' reads' trails' others' =>
          simp only [List.append_assoc, List.cons_append] at same
          have alike := alike_next scope trivia starts trivia' starts' same
          rw [reads, reads'] at alike
          cases alike with
          | leaf heads own behind =>
              simp only [List.take_succ_cons, List.take_left, List.drop_succ_cons,
                List.drop_left]
                at own behind
              rw [Token.gist_append trail, Token.gist_append trail', gist_trail trails,
                gist_trail trails'] at behind
              have owns : gist (lead ++ first :: (core ++ trail))
                  = gist (lead' ++ first' :: (core' ++ trail')) := by
                simp only [gist_lead trivia, gist_lead trivia', ← List.cons_append,
                  Token.gist_append (_ :: _), own, gist_trail trails,
                  gist_trail trails']
              have aligned := Aligned.cons
                (leaf_print id kind first head lead core trail)
                (leaf_print id' kind first' head' lead' core' trail') owns
                  (ih others' behind done done')
              simpa only [List.append_assoc, List.cons_append] using aligned
      | block id' trivia' starts' inside' reads' =>
          simp only [List.append_assoc, List.cons_append] at same
          have alike := alike_next scope trivia starts trivia' starts' same
          rw [reads, reads'] at alike
          cases alike
  | @block scope inner id kind first head lead header opening body closing trail tokens
        rest nodes members final trivia starts inside reads opens within closes others
        ihWithin ih =>
      simp only [List.append_assoc, List.cons_append] at same
      cases parsed' with
      | nil => exact (done'.no_item trivia starts inside same.symm).elim
      | leaf id' trivia' starts' inside' reads' =>
          simp only [List.append_assoc, List.cons_append] at same
          have alike := alike_next scope trivia starts trivia' starts' same
          rw [reads, reads'] at alike
          cases alike
      | @block _ inner' id' kind' first' head' lead' header' opening' body' closing'
            trail' tokens' _ nodes' members' final' trivia' starts' inside' reads'
            opens' within' closes' others' =>
          simp only [List.append_assoc, List.cons_append] at same
          have alike := alike_next scope trivia starts trivia' starts' same
          rw [reads, reads'] at alike
          cases alike with
          | block heads own behind =>
              simp only [List.take_succ_cons, List.take_left, List.drop_succ_cons,
                List.drop_left]
                at own behind
              rw [Token.gist_append opening, Token.gist_append opening',
                gist_trail opens, gist_trail opens', List.nil_append,
                List.nil_append] at behind
              have bodies := (ihWithin within' behind closes.done closes'.done).gist_eq
              rw [Token.gist_append body, Token.gist_append body', bodies,
                List.append_cancel_left_eq] at behind
              obtain ⟨closings, behind⟩ := closes.unique closes' behind
              have owns : gist (lead
                  ++ first :: (header ++ (opening ++ (body ++ (closing ++ trail)))))
                  = gist (lead' ++ first'
                    :: (header' ++ (opening' ++ (body' ++ (closing' ++ trail'))))) := by
                simp only [gist_lead trivia, gist_lead trivia', ← List.cons_append,
                  Token.gist_append (_ :: _), Token.gist_append opening,
                  Token.gist_append opening', Token.gist_append body,
                  Token.gist_append body', own, bodies, closings, gist_trail opens,
                  gist_trail opens']
              have aligned := Aligned.cons
                (block_print id kind first head lead header opening trail within closes)
                (block_print id' kind first' head' lead' header' opening' trail' within'
                  closes') owns
                (ih others' behind done done')
              simpa only [List.append_assoc, List.cons_append] using aligned

end Parser

end Lineup
