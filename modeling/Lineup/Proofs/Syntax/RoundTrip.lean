import Lineup.Proofs.Syntax.Grammar

/-!
# Printing a parsed tree

Printing the tree of a source text gives back that text, byte for byte, whatever the
text is. The nodes of a body print as the tokens they cover, so no step of the parser
drops a token or keeps one twice. Every width the parser takes lies within the tokens it
looks at, and every token lies within the source text.
-/

namespace Lineup

@[simp] theorem Segment.printAll_nil :
    Segment.printAll [] = [] := by simp [Segment.printAll]

@[simp] theorem Segment.printAll_cons (segment : Segment) (segments : List Segment) :
    Segment.printAll (segment :: segments)
      = segment.print ++ Segment.printAll segments := by
  simp [Segment.printAll]

@[simp] theorem Segment.printAll_append (segments others : List Segment) :
    Segment.printAll (segments ++ others)
      = Segment.printAll segments ++ Segment.printAll others := by
  induction segments with
  | nil => simp
  | cons segment segments ih => simp [ih]

@[simp] theorem Node.printAll_nil : Node.printAll [] = [] := by simp [Node.printAll]

@[simp] theorem Node.printAll_cons (node : Node) (nodes : List Node) :
    Node.printAll (node :: nodes) = node.print ++ Node.printAll nodes := by
  simp [Node.printAll]

@[simp] theorem Node.printAll_append (nodes others : List Node) :
    Node.printAll (nodes ++ others) = Node.printAll nodes ++ Node.printAll others := by
  induction nodes with
  | nil => simp
  | cons node nodes ih => simp [ih]

@[simp] theorem Segment.print_text (content : Text) :
    (Segment.text content).print = content := by
  simp [Segment.print]

@[simp] theorem Segment.print_node (child : Node) :
    (Segment.node child).print = child.print := by
  simp [Segment.print]

@[simp] theorem Segment.print_list (kind : ListKind) (items : List Node) :
    (Segment.list kind items).print = Node.printAll items := by
  simp [Segment.print]

@[simp] theorem Node.print_mk (info : NodeInfo) (segments : List Segment) :
    (Node.mk info segments).print
      = info.leading ++ Segment.printAll segments ++ info.trailing := by
  simp [Node.print]

namespace Parser

theorem printAll_addDirective (node : Node) (segments : List Segment) :
    Segment.printAll (addDirective node segments)
      = Segment.printAll segments ++ node.print := by
  fun_induction addDirective node segments with
  | case1 => simp
  | case2 items => simp
  | case3 segment segments _ ih => simp [ih]

theorem printAll_add (body : Body) (node : Node) :
    Segment.printAll (body.add node).segments
      = Segment.printAll body.segments ++ node.print := by
  cases body with
  | members nodes => simp [Body.add, Body.segments]
  | items braced segments =>
      simp only [Body.add]
      split
      · simp only [Body.segments, printAll_addDirective]
      · simp [Body.segments]

/-- A body prints as its nodes, one after the other. -/
theorem printAll_body (scope : Scope) (nodes : List Node) :
    Segment.printAll (scope.body nodes).segments = Node.printAll nodes := by
  induction nodes using List.reverseRecOn with
  | nil => cases scope <;> simp [Scope.start, Body.segments]
  | append_singleton nodes node ih => simp [Scope.body_append, printAll_add, ih]

theorem Closes.printAll {scope : Scope} {closing trail rest : List Token}
    {final : List Segment} (closes : Closes scope closing trail rest final) :
    Segment.printAll final = Token.joined closing := by
  cases closes with
  | brace => simp
  | text => simp
  | nothing => rfl

/-- Parsed nodes print as the tokens they cover. -/
theorem Parsed.printAll {scope : Scope} {nodes : List Node} {tokens rest : List Token}
    (parsed : Parsed scope nodes tokens rest) :
    Node.printAll nodes = Token.joined tokens := by
  induction parsed with
  | nil => rfl
  | leaf id trivia starts inside reads trails others ih => simp [ih]
  | block id trivia starts inside reads opens within closes others ihWithin ih =>
      simp [ih, ihWithin, printAll_body, closes.printAll]

/-- A file prints as its tokens. -/
theorem File.print {source : List Token} {top : Node} (file : File source top) :
    top.print = Token.joined source := by
  cases file with
  | @intro nodes tokens tail parsed trivia all =>
      subst all
      have body := (printAll_body (.items false) nodes).trans parsed.printAll
      cases empty : (Token.joined tail).isEmpty with
      | true => simp [body, List.isEmpty_iff.mp empty]
      | false => simp [body]

end Parser

theorem Node.family_eq (node : Node) :
    node.family = node :: Segment.familyAll node.segments := by
  cases node with
  | mk info segments => simp [Node.family, Node.segments]

namespace Tree

theorem info_top_parse (source : Text) :
    (parse source).top.info
      = { id := 0, kind := .compilationUnit, leading := [], trailing := [],
          head := [] } := by
  generalize (parse source).top = top, Parser.parse_file source = file
  cases file with
  | intro => rfl

/-- The node that stands for a parsed tree is its top node. -/
theorem node?_root_parse (source : Text) :
    (parse source).node? (parse source).root = some (parse source).top := by
  have numbered : (parse source).top.id = 0 := by rw [Node.id, info_top_parse]
  have root : (parse source).root = 0 := rfl
  rw [node?, root, Node.family_eq]
  simp [numbered]

/-- Parsing is total and loses nothing: for every source text the tree has a root that
prints as the source text, every token is a slice of the source text, and every width
that the parser computes lies within the tokens. -/
theorem parse_lossless (source : Text) :
    (parse source).print? = some source
      ∧ (∀ token ∈ Token.lex source,
        token.stop ≤ source.length ∧ Token.textBetween source token token = token.text)
      ∧ ∀ tokens, Span.WithinTokens tokens := by
  refine ⟨?_, ?_, Span.withinTokens⟩
  · rw [print?, node?_root_parse, Option.map_some, (Parser.parse_file source).print,
      Token.joined_lex]
  · exact Token.lexFrom_slice true 0 [] source rfl

end Tree

end Lineup
