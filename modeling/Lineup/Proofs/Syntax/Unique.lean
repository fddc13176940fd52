import Lineup.Proofs.Syntax.Alignment
import Lineup.Proofs.Syntax.Numbering

/-!
# A text has one reading

Apart from the numbers of its nodes, a file is determined by its tokens, and the places
of the tokens do not matter. What a text says about its tree is therefore the tree
without numbers and places.
-/

namespace Lineup

/-- What a node carries, without its number and the places of its tokens. -/
def NodeInfo.unplaced (info : NodeInfo) : NodeInfo :=
  { info with id := 0, head := info.head.map Token.bare }

mutual

/-- The node without numbers and the places of tokens. -/
def Node.unplaced : Node → Node
  | .mk info segments => .mk info.unplaced (Segment.unplacedAll segments)

def Segment.unplaced : Segment → Segment
  | .text content => .text content
  | .node child => .node child.unplaced
  | .list kind items => .list kind (Node.unplacedAll items)

def Segment.unplacedAll : List Segment → List Segment
  | [] => []
  | segment :: segments => segment.unplaced :: Segment.unplacedAll segments

def Node.unplacedAll : List Node → List Node
  | [] => []
  | node :: nodes => node.unplaced :: Node.unplacedAll nodes

end

theorem Segment.unplacedAll_eq (segments : List Segment) :
    Segment.unplacedAll segments = segments.map Segment.unplaced := by
  induction segments with
  | nil => simp [Segment.unplacedAll]
  | cons segment segments ih => simp [Segment.unplacedAll, ih]

theorem Node.unplacedAll_eq (nodes : List Node) :
    Node.unplacedAll nodes = nodes.map Node.unplaced := by
  induction nodes with
  | nil => simp [Node.unplacedAll]
  | cons node nodes ih => simp [Node.unplacedAll, ih]

@[simp] theorem Node.unplaced_mk (info : NodeInfo) (segments : List Segment) :
    (Node.mk info segments).unplaced
      = .mk info.unplaced (segments.map Segment.unplaced) := by
  rw [Node.unplaced, Segment.unplacedAll_eq]

@[simp] theorem Segment.unplaced_text (content : Text) :
    (Segment.text content).unplaced = .text content := by
  rw [Segment.unplaced]

@[simp] theorem Segment.unplaced_node (child : Node) :
    (Segment.node child).unplaced = .node child.unplaced := by
  rw [Segment.unplaced]

@[simp] theorem Segment.unplaced_list (kind : ListKind) (items : List Node) :
    (Segment.list kind items).unplaced = .list kind (items.map Node.unplaced) := by
  rw [Segment.unplaced, Node.unplacedAll_eq]

@[simp] theorem Node.info_unplaced (node : Node) :
    node.unplaced.info = node.info.unplaced := by
  cases node with
  | mk info segments => rw [Node.unplaced_mk, Node.info, Node.info]

@[simp] theorem Node.segments_unplaced (node : Node) :
    node.unplaced.segments = node.segments.map Segment.unplaced := by
  cases node with
  | mk info segments => rw [Node.unplaced_mk, Node.segments, Node.segments]

@[simp] theorem Node.kind_unplaced (node : Node) : node.unplaced.kind = node.kind := by
  rw [Node.kind, Node.info_unplaced, Node.kind, NodeInfo.unplaced]

@[simp] theorem NodeInfo.unplaced_unplaced (info : NodeInfo) :
    info.unplaced.unplaced = info.unplaced := by
  simp only [NodeInfo.unplaced, List.map_map]
  rfl

@[simp] theorem Node.unplaced_unplaced (node : Node) :
    node.unplaced.unplaced = node.unplaced := by
  induction node using Node.induction with
  | step node ih =>
      cases node with
      | mk info segments =>
          rw [Node.unplaced_mk, Node.unplaced_mk, NodeInfo.unplaced_unplaced,
            List.map_map]
          congr 1
          apply List.map_congr_left
          intro segment member
          have within (child : Node) (present : child ∈ segment.children) :=
            ih child (List.mem_flatMap_of_mem member present)
          cases segment with
          | text content => rfl
          | node child => simpa using within child (List.mem_singleton_self child)
          | list kind items => simpa [Segment.children] using within

namespace Parser

theorem unplaced_consDirective (node : Node) (segments : List Segment) :
    (consDirective node segments).map Segment.unplaced
      = consDirective node.unplaced (segments.map Segment.unplaced) := by
  cases segments with
  | nil => simp [consDirective]
  | cons segment segments =>
      cases segment with
      | text content => simp [consDirective]
      | node child => simp [consDirective]
      | list kind items => cases kind <;> simp [consDirective]

theorem unplaced_gather (nodes : List Node) :
    (gather nodes).map Segment.unplaced = gather (nodes.map Node.unplaced) := by
  induction nodes with
  | nil => rfl
  | cons node nodes ih =>
      simp only [gather, List.map_cons, Node.kind_unplaced]
      split
      · rw [unplaced_consDirective, ih]
      · rw [List.map_cons, ih, Segment.unplaced_node]

theorem unplaced_body (scope : Scope) (nodes : List Node) :
    (scope.body nodes).segments.map Segment.unplaced
      = (scope.body (nodes.map Node.unplaced)).segments := by
  cases scope with
  | items braced =>
      rw [Scope.body_items, Scope.body_items]
      exact unplaced_gather nodes
  | members => simp [Scope.body_members, Body.segments]

open Token (bare)

@[simp] theorem trailing_bare (tokens : List Token) :
    Span.trailing (tokens.map bare) = Span.trailing tokens := by
  induction tokens with
  | nil => rfl
  | cons token tokens ih =>
      simp only [List.map_cons, Span.trailing, ih]
      rfl

@[simp] theorem joined_bare (tokens : List Token) :
    Token.joined (tokens.map bare) = Token.joined tokens := by
  induction tokens with
  | nil => rfl
  | cons token tokens ih =>
      rw [List.map_cons, Token.joined_cons, ih, Token.joined_cons]
      rfl

theorem forall_trivia_bare {tokens : List Token}
    (trivia : ∀ token ∈ tokens, token.isTrivia = true) :
    ∀ token ∈ tokens.map bare, token.isTrivia = true :=
  List.forall_mem_map.mpr trivia

theorem Closes.unplaced {scope : Scope} {closing trail rest : List Token}
    {final : List Segment} (closes : Closes scope closing trail rest final) :
    Closes scope (closing.map bare) (trail.map bare) (rest.map bare)
      (final.map Segment.unplaced) := by
  cases closes with
  | @brace lead final trail rest brace braced trivia closing ends trails =>
      have closed := @Closes.brace scope (lead.map bare) (final.map bare)
        (trail.map bare) (rest.map bare) brace.bare braced
        (forall_trivia_bare trivia) closing
        (by
          rw [← List.map_append, ← List.map_append, Span.semicolon_bare, ends,
            List.length_map]) (by
              rw [← List.map_append, trailing_bare, trails, List.length_map])
      rw [← List.map_cons, ← List.map_append, joined_bare] at closed
      simpa using closed
  | text braced trivia =>
      have closed : Closes scope _ [] [] _ := .text braced (forall_trivia_bare trivia)
      rw [joined_bare] at closed
      simpa using closed
  | nothing plain trivia => exact .nothing plain (forall_trivia_bare trivia)

/-- The places of tokens and the numbers of nodes do not matter for the grammar. -/
theorem Parsed.unplaced {scope : Scope} {nodes : List Node} {tokens rest : List Token}
    (parsed : Parsed scope nodes tokens rest) :
    Parsed scope (nodes.map Node.unplaced) (tokens.map bare) (rest.map bare) := by
  induction parsed with
  | nil => exact .nil
  | @leaf scope id kind first head lead core trail tokens rest nodes trivia starts
        inside reads trails others ih =>
      have next := Item.next_bare scope first (core ++ (trail ++ (tokens ++ rest)))
      rw [reads] at next
      simp only [List.map_append, Item.bare] at next
      rw [← List.length_map bare] at next
      have starts : first.bare.isTrivia = false := starts
      have leaf := Parsed.leaf 0 (forall_trivia_bare trivia) starts inside next
        (by
          rw [← List.map_append, ← List.map_append, trailing_bare, trails,
            List.length_map]) ih
      rw [← List.map_cons, joined_bare, joined_bare, joined_bare] at leaf
      simpa [NodeInfo.unplaced] using leaf
  | @block scope inner id kind first head lead header opening body closing trail tokens
        rest nodes members final trivia starts inside reads opens within closes others
        ihWithin ih =>
      have next := Item.next_bare scope first
        (header ++ (opening ++ (body ++ (closing ++ (trail ++ (tokens ++ rest))))))
      rw [reads] at next
      simp only [List.map_append, Item.bare] at next
      rw [← List.length_map bare] at next
      have closed := closes.unplaced
      simp only [List.map_append] at ihWithin closed
      have starts : first.bare.isTrivia = false := starts
      have block := Parsed.block 0 (forall_trivia_bare trivia) starts inside next
        (by simp only [← List.map_append, trailing_bare, opens, List.length_map])
          ihWithin closed ih
      rw [← List.map_cons, joined_bare, joined_bare, joined_bare, joined_bare,
        ← unplaced_body] at block
      simpa [NodeInfo.unplaced] using block

theorem lead_unique {lead lead' rest rest' : List Token} {first first' : Token}
    (trivia : ∀ token ∈ lead, token.isTrivia = true) (starts : first.isTrivia = false)
    (trivia' : ∀ token ∈ lead', token.isTrivia = true)
    (starts' : first'.isTrivia = false)
    (same : lead ++ first :: rest = lead' ++ first' :: rest') :
    lead = lead' ∧ first = first' ∧ rest = rest' := by
  induction lead generalizing lead' with
  | nil =>
      cases lead' with
      | nil =>
          simp only [List.nil_append, List.cons.injEq] at same
          exact ⟨rfl, same⟩
      | cons token lead' =>
          have ignored := trivia' token List.mem_cons_self
          rw [← (List.cons.inj same).1, starts] at ignored
          cases ignored
  | cons token lead ih =>
      cases lead' with
      | nil =>
          have ignored := trivia token List.mem_cons_self
          rw [(List.cons.inj same).1, starts'] at ignored
          cases ignored
      | cons token' lead' =>
          simp only [List.cons_append, List.cons.injEq] at same
          obtain ⟨leads, rest⟩ :=
            ih (fun token member => trivia token (List.mem_cons_of_mem _ member))
            (fun token member => trivia' token (List.mem_cons_of_mem _ member)) same.2
          exact ⟨by rw [same.1, leads], rest⟩

/-- A body is closed in one way. -/
theorem Closes.determined {scope : Scope}
    {closing closing' trail trail' rest rest' : List Token}
    {final final' : List Segment} (closes : Closes scope closing trail rest final)
    (closes' : Closes scope closing' trail' rest' final')
    (same : closing ++ (trail ++ rest) = closing' ++ (trail' ++ rest')) :
    closing = closing' ∧ trail = trail' ∧ rest = rest' ∧ final = final' := by
  have solid {brace : Token} (is : brace.is closeBrace = true) :
      brace.isTrivia = false :=
    Span.solid_of_isBoundary (by simp [Span.isBoundary, is])
  -- A closing brace is no trivia.
  have apart {lead rest others : List Token} {brace : Token}
      (is : brace.is closeBrace = true)
      (trivia : ∀ token ∈ others, token.isTrivia = true)
        (same : lead ++ brace :: rest = others) :
      False := by
    have ignored := trivia brace (by rw [← same]; simp)
    rw [solid is] at ignored
    cases ignored
  cases closes with
  | @brace lead final trail rest brace braced trivia is ends trails =>
      cases closes' with
      | @brace lead' final' trail' rest' brace' braced' trivia' is' ends' trails' =>
          simp only [List.append_assoc, List.cons_append] at same
          obtain ⟨rfl, rfl, behind⟩ :=
            lead_unique trivia (solid is) trivia' (solid is') same
          obtain ⟨rfl, after⟩ :=
            List.append_inj behind (by rw [← ends, ← ends', behind])
          obtain ⟨rfl, rfl⟩ :=
            List.append_inj after (by rw [← trails, ← trails', after])
          exact ⟨rfl, rfl, rfl, rfl⟩
      | text braced' trivia' =>
          simp only [List.append_assoc, List.cons_append, List.append_nil] at same
          exact (apart is trivia' same).elim
      | nothing plain =>
          rw [plain] at braced
          cases braced
  | text braced trivia =>
      cases closes' with
      | @brace lead' final' trail' rest' brace' braced' trivia' is' =>
          simp only [List.append_assoc, List.cons_append, List.append_nil] at same
          exact (apart is' trivia same.symm).elim
      | text braced' trivia' =>
          simp only [List.append_nil] at same
          subst same
          exact ⟨rfl, rfl, rfl, rfl⟩
      | nothing plain =>
          rw [plain] at braced
          cases braced
  | nothing plain trivia =>
      cases closes' with
      | brace braced' =>
          rw [plain] at braced'
          cases braced'
      | text braced' =>
          rw [plain] at braced'
          cases braced'
      | nothing plain' trivia' => exact ⟨rfl, rfl, same, rfl⟩

/-- Tokens are read in one way up to the end of a body, apart from the numbers of the
nodes. -/
theorem Parsed.determined {scope : Scope} {nodes nodes' : List Node}
    {tokens tokens' rest rest' : List Token} (parsed : Parsed scope nodes tokens rest)
    (parsed' : Parsed scope nodes' tokens' rest')
    (same : tokens ++ rest = tokens' ++ rest') (done : Done scope rest)
    (done' : Done scope rest') :
    nodes.map Node.unplaced = nodes'.map Node.unplaced ∧ tokens = tokens' := by
  induction parsed generalizing nodes' tokens' rest' with
  | nil =>
      cases parsed' with
      | nil => exact ⟨rfl, rfl⟩
      | leaf id trivia starts inside =>
          simp only [List.nil_append, List.append_assoc, List.cons_append] at same
          exact (done.no_item trivia starts inside (congrArg Token.gist same)).elim
      | block id trivia starts inside =>
          simp only [List.nil_append, List.append_assoc, List.cons_append] at same
          exact (done.no_item trivia starts inside (congrArg Token.gist same)).elim
  | @leaf scope id kind first head lead core trail tokens rest nodes trivia starts
        inside reads trails others ih =>
      simp only [List.append_assoc, List.cons_append] at same
      cases parsed' with
      | nil =>
          exact (done'.no_item trivia starts inside
            (congrArg Token.gist same.symm)).elim
      | @leaf _ id' kind' first' head' lead' core' trail' tokens' _ nodes' trivia'
            starts' inside' reads' trails' others' =>
          simp only [List.append_assoc, List.cons_append] at same
          obtain ⟨rfl, rfl, behind⟩ := lead_unique trivia starts trivia' starts' same
          rw [behind, reads', Item.leaf.injEq] at reads
          obtain ⟨rfl, rfl, size⟩ := reads
          obtain ⟨rfl, after⟩ := List.append_inj behind (Nat.succ.inj size).symm
          obtain ⟨rfl, later⟩ :=
            List.append_inj after (by rw [← trails, ← trails', after])
          obtain ⟨nodes, rfl⟩ := ih others' later done done'
          exact ⟨by simp [nodes, NodeInfo.unplaced], rfl⟩
      | block id' trivia' starts' inside' reads' =>
          simp only [List.append_assoc, List.cons_append] at same
          obtain ⟨rfl, rfl, behind⟩ := lead_unique trivia starts trivia' starts' same
          rw [behind, reads'] at reads
          cases reads
  | @block scope inner id kind first head lead header opening body closing trail tokens
        rest nodes members final trivia starts inside reads opens within closes others
        ihWithin ih =>
      simp only [List.append_assoc, List.cons_append] at same
      cases parsed' with
      | nil =>
          exact (done'.no_item trivia starts inside
            (congrArg Token.gist same.symm)).elim
      | leaf id' trivia' starts' inside' reads' =>
          simp only [List.append_assoc, List.cons_append] at same
          obtain ⟨rfl, rfl, behind⟩ := lead_unique trivia starts trivia' starts' same
          rw [behind, reads'] at reads
          cases reads
      | @block _ inner' id' kind' first' head' lead' header' opening' body' closing'
            trail' tokens' _ nodes' members' final' trivia' starts' inside' reads'
            opens' within' closes' others' =>
          simp only [List.append_assoc, List.cons_append] at same
          obtain ⟨rfl, rfl, behind⟩ := lead_unique trivia starts trivia' starts' same
          rw [behind, reads', Item.block.injEq] at reads
          obtain ⟨rfl, rfl, rfl, size⟩ := reads
          obtain ⟨rfl, after⟩ := List.append_inj behind (Nat.succ.inj size).symm
          obtain ⟨rfl, bodies⟩ :=
            List.append_inj after (by rw [← opens, ← opens', after])
          obtain ⟨members, rfl⟩ := ihWithin within' bodies closes.done closes'.done
          obtain ⟨rfl, rfl, later, rfl⟩ :=
            closes.determined closes' (List.append_cancel_left bodies)
          obtain ⟨nodes, rfl⟩ := ih others' later done done'
          refine ⟨?_, rfl⟩
          simp [nodes, NodeInfo.unplaced, unplaced_body, members]

/-- A file is determined by the kinds and texts of its tokens, apart from the numbers of
its nodes. -/
theorem File.determined {tokens others : List Token} {top top' : Node}
    (file : File tokens top) (file' : File others top')
    (same : tokens.map Token.face = others.map Token.face) :
    top.unplaced = top'.unplaced := by
  have same := Token.map_bare_iff.mpr same
  cases file with
  | @intro nodes tokens tail parsed trivia all =>
      cases file' with
      | @intro nodes' tokens' tail' parsed' trivia' all' =>
          rw [all, all', List.map_append, List.map_append] at same
          have done {tail : List Token}
              (trivia : ∀ token ∈ tail, token.isTrivia = true) :
              Done (.items false) (tail.map Token.bare) := by
            intro token more first
            rw [Token.gist_eq_nil (forall_trivia_bare trivia)] at first
            cases first
          obtain ⟨nodes, front⟩ :=
            parsed.unplaced.determined parsed'.unplaced same (done trivia)
            (done trivia')
          rw [front] at same
          have tails := congrArg Token.joined (List.append_cancel_left same)
          rw [joined_bare, joined_bare] at tails
          simp only [Node.unplaced_mk, NodeInfo.unplaced, List.map_append,
            unplaced_body, List.map_map, Function.comp_def, Node.unplaced_unplaced,
            tails] at nodes ⊢
          rw [nodes]

end Parser

end Lineup
