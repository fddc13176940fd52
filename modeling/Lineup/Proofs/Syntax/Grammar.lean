import Mathlib.Data.List.Induction
import Mathlib.Data.List.TakeWhile
import Lineup.Proofs.Syntax.Items
import Lineup.Proofs.Token.Lossless

/-!
# The grammar of syntax trees

The relation `Parsed` says which nodes a sequence of tokens spells as a whole, without
the stack and the counters of the parser: every node covers its leading trivia, its own
tokens and its trailing trivia, and a node with a body covers the nodes of the body in
between. The main result is that the parser builds such nodes from every source text.
-/

namespace Lineup

namespace Parser

/-- A body of the given kind with the given nodes. -/
def Scope.body (scope : Scope) (nodes : List Node) : Body :=
  nodes.foldl (fun body node => body.add node) scope.start

namespace Scope

@[simp] theorem body_nil (scope : Scope) : scope.body [] = scope.start := rfl

theorem body_append (scope : Scope) (nodes : List Node) (node : Node) :
    scope.body (nodes ++ [node]) = (scope.body nodes).add node := by
  simp [body]

theorem scope_add (body : Body) (node : Node) : (body.add node).scope = body.scope := by
  cases body with
  | members nodes => rfl
  | items braced segments =>
      simp only [Body.add]
      split
      · rfl
      · rfl

@[simp] theorem scope_body (scope : Scope) (nodes : List Node) :
    (scope.body nodes).scope = scope := by
  induction nodes using List.reverseRecOn with
  | nil => cases scope <;> rfl
  | append_singleton nodes node ih => rw [body_append, scope_add, ih]

@[simp] theorem isBraced_body (scope : Scope) (nodes : List Node) :
    (scope.body nodes).isBraced = scope.isBraced := by
  have same (body : Body) : body.isBraced = body.scope.isBraced := by cases body <;> rfl
  rw [same, scope_body]

end Scope

/-- The segments with a using directive in front. Directives that follow each other
share a list. -/
def consDirective (node : Node) : List Segment → List Segment
  | .list .directives items :: segments => .list .directives (node :: items) :: segments
  | segments => .list .directives [node] :: segments

/-- The segments of the nodes of a file or a namespace. -/
def gather : List Node → List Segment
  | [] => []
  | node :: nodes =>
      if node.kind = .usingDirective then consDirective node (gather nodes)
      else .node node :: gather nodes

theorem gather_other {node : Node} (other : node.kind ≠ .usingDirective)
    (nodes : List Node) :
    gather (node :: nodes) = .node node :: gather nodes :=
  if_neg other

theorem consDirective_addDirective (first last : Node) (segments : List Segment) :
    consDirective first (addDirective last segments)
      = addDirective last (consDirective first segments) := by
  cases segments with
  | nil => rfl
  | cons segment segments =>
      cases segment with
      | text content => rfl
      | node child => rfl
      | list kind items =>
          cases kind with
          | members => rfl
          | directives => cases segments <;> rfl

theorem consDirective_append (first last : Node) (segments : List Segment) :
    consDirective first (segments ++ [.node last])
      = consDirective first segments ++ [.node last] := by
  cases segments with
  | nil => rfl
  | cons segment segments =>
      cases segment with
      | text content => rfl
      | node child => rfl
      | list kind items => cases kind <;> rfl

theorem gather_append (nodes : List Node) (node : Node) :
    gather (nodes ++ [node]) =
      if node.kind = .usingDirective then addDirective node (gather nodes)
      else gather nodes ++ [.node node] := by
  induction nodes with
  | nil =>
      simp only [List.nil_append, gather]
      split <;> rfl
  | cons first nodes ih =>
      simp only [List.cons_append, gather, ih]
      split
      · split
        · exact consDirective_addDirective first node _
        · exact consDirective_append first node _
      · split
        · rfl
        · rfl

namespace Scope

theorem body_items (braced : Bool) (nodes : List Node) :
    (Scope.items braced).body nodes = .items braced (gather nodes) := by
  induction nodes using List.reverseRecOn with
  | nil => rfl
  | append_singleton nodes node ih =>
      rw [body_append, ih, gather_append, Body.add]
      split <;> rfl

theorem body_members (nodes : List Node) :
    Scope.members.body nodes = .members nodes := by
  induction nodes using List.reverseRecOn with
  | nil => rfl
  | append_singleton nodes node ih => rw [body_append, ih, Body.add]

end Scope

/-- How a body ends: with its brace, which takes a semicolon after it along; where the
text ends, with the trivia that is left; or, without braces, with nothing. Given are the
tokens that close it, the trailing trivia, the tokens behind that, and the segments for
the closing tokens. -/
inductive Closes (scope : Scope) :
    List Token → List Token → List Token → List Segment → Prop where
  | brace {lead final trail rest : List Token} {brace : Token}
        (braced : scope.isBraced = true)
      (trivia : ∀ token ∈ lead, token.isTrivia = true)
        (closing : brace.is closeBrace = true)
      (ends : Span.semicolon (final ++ (trail ++ rest)) = final.length)
      (trails : Span.trailing (trail ++ rest) = trail.length) :
      Closes scope (lead ++ brace :: final) trail rest
        [.text (Token.joined (lead ++ brace :: final))]
  | text {closing : List Token} (braced : scope.isBraced = true)
      (trivia : ∀ token ∈ closing, token.isTrivia = true) :
      Closes scope closing [] [] [.text (Token.joined closing)]
  | nothing {rest : List Token} (plain : scope.isBraced = false)
      (trivia : ∀ token ∈ rest, token.isTrivia = true) : Closes scope [] [] rest []

/-- The nodes that tokens spell in a body of the given kind, in front of the tokens
`rest`. -/
inductive Parsed : Scope → List Node → List Token → List Token → Prop where
  | nil {scope : Scope} {rest : List Token} : Parsed scope [] [] rest
  | leaf {scope : Scope} (id : Nat) {kind : NodeKind} {first : Token}
      {head lead core trail tokens rest : List Token} {nodes : List Node}
      (trivia : ∀ token ∈ lead, token.isTrivia = true) (starts : first.isTrivia = false)
      (inside : (scope.isBraced && first.is closeBrace) = false)
      (reads : Item.next scope first (core ++ (trail ++ (tokens ++ rest)))
        = .leaf kind head (core.length + 1))
      (trails : Span.trailing (trail ++ (tokens ++ rest)) = trail.length)
      (others : Parsed scope nodes tokens rest) :
      Parsed scope
        (.mk { id, kind, leading := Token.joined lead,
               trailing := Token.joined trail, head }
          [.text (Token.joined (first :: core))] :: nodes)
        (lead ++ first :: (core ++ (trail ++ tokens))) rest
  | block {scope inner : Scope} (id : Nat) {kind : NodeKind} {first : Token}
      {head lead header opening body closing trail tokens rest : List Token}
      {nodes members : List Node} {final : List Segment}
      (trivia : ∀ token ∈ lead, token.isTrivia = true) (starts : first.isTrivia = false)
      (inside : (scope.isBraced && first.is closeBrace) = false)
      (reads : Item.next scope first
          (header ++ (opening ++ (body ++ (closing ++ (trail ++ (tokens ++ rest))))))
        = .block kind head inner (header.length + 1))
      (opens : Span.trailing
        (opening ++ (body ++ (closing ++ (trail ++ (tokens ++ rest)))))
        = opening.length)
      (within : Parsed inner members body (closing ++ (trail ++ (tokens ++ rest))))
      (closes : Closes inner closing trail (tokens ++ rest) final)
      (others : Parsed scope nodes tokens rest) :
      Parsed scope
        (.mk { id, kind, leading := Token.joined lead,
               trailing := Token.joined trail, head }
          (.text (Token.joined (first :: header) ++ Token.joined opening)
            :: (inner.body members).segments ++ final) :: nodes)
        (lead ++ first :: (header
          ++ (opening ++ (body ++ (closing ++ (trail ++ tokens)))))) rest

theorem Parsed.append {scope : Scope} {nodes others : List Node}
    {tokens more rest : List Token} (parsed : Parsed scope nodes tokens (more ++ rest))
    (later : Parsed scope others more rest) :
    Parsed scope (nodes ++ others) (tokens ++ more) rest := by
  generalize behind : more ++ rest = after at parsed
  induction parsed with
  | nil => exact later
  | leaf id trivia starts inside reads trails _ ih =>
      subst behind
      simp only [← List.append_assoc _ more rest] at reads trails
      have joined := Parsed.leaf id trivia starts inside reads trails (ih later rfl)
      simpa only [List.append_assoc, List.cons_append] using joined
  | block id trivia starts inside reads opens within closes _ _ ih =>
      subst behind
      simp only [← List.append_assoc _ more rest] at reads opens within closes
      have joined := Parsed.block id trivia starts inside reads opens within closes
        (ih later rfl)
      simpa only [List.append_assoc, List.cons_append] using joined

/-- The bodies around the one being read. Each frame belongs to a declaration that
starts in the body outside of it; `after` are the tokens from the start of the innermost
body on. -/
inductive Stack (source : List Token) : List Frame → Scope → List Token → Prop where
  | file : Stack source [] (.items false) source
  | frame {frames : List Frame} {scope inner : Scope} {kind : NodeKind} {first : Token}
      {head lead header opening tokens after : List Token} {nodes : List Node}
      (outside : Stack source frames scope
        (tokens ++ (lead ++ first :: (header ++ (opening ++ after)))))
      (before : Parsed scope nodes tokens
        (lead ++ first :: (header ++ (opening ++ after))))
      (trivia : ∀ token ∈ lead, token.isTrivia = true) (starts : first.isTrivia = false)
      (inside : (scope.isBraced && first.is closeBrace) = false)
      (reads : Item.next scope first (header ++ (opening ++ after))
        = .block kind head inner (header.length + 1))
      (opens : Span.trailing (opening ++ after) = opening.length) :
      Stack source
        ({ kind, leading := Token.joined lead, head, outer := scope.body nodes,
           header := Token.joined (first :: header) ++ Token.joined opening } :: frames)
        inner after

/-- What the parser has read so far, and the tokens that remain. -/
inductive Reading (source : List Token) : Progress → List Token → Prop where
  | intro (next : Nat) {frames : List Frame} {scope : Scope} {nodes : List Node}
      {tokens remaining : List Token}
        (stack : Stack source frames scope (tokens ++ remaining))
      (parsed : Parsed scope nodes tokens remaining) :
      Reading source { next, body := scope.body nodes, frames } remaining

theorem trailing_split (tokens : List Token) : ∃ trail rest, tokens = trail ++ rest
    ∧ tokens.take (Span.trailing tokens) = trail
    ∧ tokens.drop (Span.trailing tokens) = rest
    ∧ Span.trailing (trail ++ rest) = trail.length := by
  refine ⟨_, _, (List.take_append_drop (Span.trailing tokens) tokens).symm, rfl,
    rfl, ?_⟩
  rw [List.take_append_drop, List.length_take,
    Nat.min_eq_left (Span.trailing_le tokens)]

theorem split_at {first : Token} {rest : List Token} {width : Nat}
    (inside : width + 1 ≤ (first :: rest).length) : ∃ core trail after,
      rest = core ++ (trail ++ after) ∧ core.length = width
      ∧ (first :: rest).take (width + 1) = first :: core
      ∧ ((first :: rest).drop (width + 1)).take
        (Span.trailing ((first :: rest).drop (width + 1)))
        = trail
      ∧ ((first :: rest).drop (width + 1)).drop
        (Span.trailing ((first :: rest).drop (width + 1)))
        = after
      ∧ Span.trailing (trail ++ after) = trail.length := by
  simp only [List.length_cons, Nat.add_le_add_iff_right] at inside
  refine ⟨rest.take width, (rest.drop width).take (Span.trailing (rest.drop width)),
    (rest.drop width).drop (Span.trailing (rest.drop width)), ?_, ?_, rfl, rfl, rfl, ?_⟩
  · rw [List.take_append_drop, List.take_append_drop]
  · rw [List.length_take, Nat.min_eq_left inside]
  · rw [List.take_append_drop, List.length_take, Nat.min_eq_left (Span.trailing_le _)]

/-- Taking an item adds its node to the innermost body, or starts a body of its own. -/
theorem Reading.take {source lead rest : List Token} {progress : Progress}
    {first : Token} (reading : Reading source progress (lead ++ first :: rest))
    (trivia : ∀ token ∈ lead, token.isTrivia = true) (starts : first.isTrivia = false)
    (inside : (progress.body.scope.isBraced && first.is closeBrace) = false) :
    let taken := progress.take (Token.joined lead) (first :: rest)
      (Item.next progress.body.scope first rest)
    Reading source taken.1 taken.2 := by
  cases reading with
  | @intro next frames scope nodes tokens remaining stack parsed =>
      simp only [Scope.scope_body] at inside ⊢
      have fits := Item.next_fits scope first rest
      cases reads : Item.next scope first rest with
      | leaf kind head width =>
          rw [reads] at fits
          cases fits with
          | leaf positive ends =>
              obtain ⟨width, rfl⟩ :=
                Nat.exists_eq_succ_of_ne_zero (Nat.ne_of_gt positive)
              obtain ⟨core, trail, after, rfl, rfl, taken, trailing, behind, trails⟩ :=
                split_at ends.le_length
              simp only [Progress.take, Progress.addLeaf, Progress.add, taken, trailing,
                behind, ← Scope.body_append]
              have node := Parsed.leaf next trivia starts inside reads trails .nil
              have all := Parsed.append (by simpa using parsed) node
              exact .intro (next + 1) (by simpa using stack) all
      | block kind head inner width =>
          rw [reads] at fits
          cases fits with
          | block found opens =>
              have present := (List.getElem?_eq_some_iff.mp found).1
              obtain ⟨header, opening, after, rfl, size, taken, trailing, behind,
                  trails⟩ :=
                split_at present
              simp only [Progress.take, Progress.enter, taken, trailing, behind]
              have body := Stack.frame stack parsed trivia starts inside
                (by rw [reads, size]) trails
              exact .intro next body .nil

/-- A closing brace finishes the innermost declaration. -/
theorem Reading.close {source lead rest : List Token} {progress : Progress}
    {brace : Token} (reading : Reading source progress (lead ++ brace :: rest))
    (trivia : ∀ token ∈ lead, token.isTrivia = true)
    (braced : progress.body.scope.isBraced = true)
    (closing : brace.is closeBrace = true) :
    let closed := progress.readClosing (Token.joined lead) brace rest
    Reading source closed.1 closed.2 := by
  cases reading with
  | @intro next frames inner members body remaining stack parsed =>
      rw [Scope.scope_body] at braced
      cases stack with
      | file => cases braced
      | @frame frames scope _ kind first head outerLead header opening tokens _ nodes
            outside before outerTrivia starts inside reads opens =>
          obtain ⟨final, rest, rfl, ends⟩ : ∃ final after, rest = final ++ after
              ∧ Span.semicolon (final ++ after) = final.length := by
            refine ⟨rest.take (Span.semicolon rest), rest.drop (Span.semicolon rest),
              (List.take_append_drop _ _).symm, ?_⟩
            rw [List.take_append_drop, List.length_take,
              Nat.min_eq_left (Span.semicolon_le rest)]
          obtain ⟨trail, after, rfl, taken, behind, trails⟩ := trailing_split rest
          simp only [Progress.readClosing, Progress.leave, Progress.add, ends,
            List.take_left, List.drop_left, taken, behind, ← Scope.body_append]
          have closes : Closes inner (lead ++ brace :: final) trail ([] ++ after) _ :=
            .brace braced trivia closing ends trails
          have node := Parsed.block next outerTrivia starts inside
            (by simpa using reads) (by simpa using opens)
              (by simpa using parsed) closes .nil
          have all := Parsed.append (by simpa using before) node
          have reading := Reading.intro (next + 1) (by simpa using outside) all
          simpa using reading

/-- The nodes of a whole file, with the trivia at its end. -/
inductive File (source : List Token) : Node → Prop where
  | intro {nodes : List Node} {tokens tail : List Token}
      (parsed : Parsed (.items false) nodes tokens tail)
      (trivia : ∀ token ∈ tail, token.isTrivia = true) (all : source = tokens ++ tail) :
      File source
        (.mk { id := 0, kind := .compilationUnit, leading := [], trailing := [],
               head := [] }
          (((Scope.items false).body nodes).segments
            ++ if (Token.joined tail).isEmpty then [] else [.text (Token.joined tail)]))

/-- At the end of the text all open declarations end. -/
theorem Reading.finish {source tail : List Token} {frames : List Frame} {scope : Scope}
    {nodes : List Node} {tokens : List Token} (next : Nat)
    (stack : Stack source frames scope (tokens ++ tail))
    (parsed : Parsed scope nodes tokens tail)
    (trivia : ∀ token ∈ tail, token.isTrivia = true) :
    File source (Progress.finish next (scope.body nodes)
      (Token.joined tail) frames) := by
  induction frames generalizing next scope nodes tokens tail with
  | nil =>
      generalize all : tokens ++ tail = after at stack
      cases stack with
      | file => exact .intro parsed trivia all.symm
  | cons frame frames ih =>
      cases stack with
      | @frame _ outer _ kind first head lead header opening outerTokens _ outerNodes
            outside before leading starts inside reads opens =>
          simp only [Progress.finish, Scope.isBraced_body, ← Scope.body_append]
          cases braced : scope.isBraced with
          | true =>
              have node := Parsed.block next leading starts inside
                (by simpa using reads) (by simpa using opens) (by simpa using parsed)
                (.text braced trivia) .nil
              have all := Parsed.append (by simpa using before) node
              exact ih (next + 1) (by simpa using outside) all (by simp)
          | false =>
              have node := Parsed.block next leading starts inside
                (by simpa using reads) (by simpa using opens) (by simpa using parsed)
                (.nothing braced trivia) .nil
              have all := Parsed.append (by simpa using before) node
              exact ih (next + 1) (by simpa using outside) all trivia

/-- Reading on to the end of the text builds a file. -/
theorem Reading.readAll {source remaining : List Token} {progress : Progress}
    (reading : Reading source progress remaining) :
    File source (progress.readAll remaining) := by
  fun_induction Progress.readAll progress remaining with
  | case1 progress tokens ahead =>
      cases reading with
      | intro next stack parsed =>
          exact finish next stack parsed (List.dropWhile_eq_nil_iff.mp ahead)
  | case2 progress tokens first rest ahead leading read ih =>
      have starts : first.isTrivia = false := by
        have head := List.head?_dropWhile_not Token.isTrivia tokens
        rwa [ahead] at head
      have trivia : ∀ token ∈ tokens.takeWhile Token.isTrivia, token.isTrivia = true :=
        fun token member => List.mem_takeWhile_imp member
      have all : tokens = tokens.takeWhile Token.isTrivia ++ first :: rest := by
        rw [← ahead, List.takeWhile_append_dropWhile]
      rw [all] at reading
      apply ih
      simp only [read, leading, Progress.read_eq]
      split
      · rename_i closing
        rw [Bool.and_eq_true] at closing
        exact reading.close trivia closing.1 closing.2
      · rename_i inside
        exact reading.take trivia starts (Bool.eq_false_iff.mpr inside)

/-- The parser builds a file from every source text. -/
theorem parse_file (source : Text) :
    File (Token.lex source) (Tree.parse source).top := by
  have start := Reading.intro 1 (Stack.file : Stack (Token.lex source) _ _ _) .nil
  exact start.readAll

end Parser

end Lineup
