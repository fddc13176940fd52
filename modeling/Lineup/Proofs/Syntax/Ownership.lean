import Lineup.Proofs.Syntax.Form
import Lineup.Proofs.Syntax.Numbering

/-!
# Which nodes own lists

In a parsed file the lists of using directives belong to the file itself and to
namespaces, and the lists of members belong to types; using directives stand in the
ones, members and types in the others. No node below the file stands for a whole file.
-/

namespace Lineup

/-- Which nodes own lists of a kind. -/
def ListKind.OwnedBy : ListKind → NodeKind → Prop
  | directives, owner => owner = .compilationUnit ∨ owner = .namespaceDeclaration
  | members, owner => ∃ keyword name, owner = .typeDeclaration keyword name

/-- Which nodes stand in lists of a kind. -/
def ListKind.Accepts : ListKind → NodeKind → Prop
  | directives, item => item = .usingDirective
  | members, item =>
      item = .member ∨ ∃ keyword name, item = .typeDeclaration keyword name

/-- The lists of a node are ones that it may own, of items that may stand in them. -/
def Node.ListsWell (node : Node) : Prop :=
  ∀ kind items, .list kind items ∈ node.segments →
    kind.OwnedBy node.kind ∧ ∀ item ∈ items, kind.Accepts item.kind

namespace Parser

namespace Form

/-- What a node of the form stands for. -/
def kind : Form → NodeKind
  | ofType keyword name => .typeDeclaration keyword name
  | ofNamespace => .namespaceDeclaration
  | ofAttributes => .other
  | ofItem kind => kind

theorem kind_item (form : Form) (first : Token) (rest : List Token) :
    (form.item first rest).kind = form.kind := by
  cases form with
  | ofType keyword name => exact Item.kind_ofType keyword name first rest
  | ofNamespace => exact Item.kind_ofNamespace first rest
  | ofAttributes => rfl
  | ofItem kind => rfl

theorem kind_declared (otherwise : NodeKind) (declares : Option (TypeKeyword × Text)) :
    (declared otherwise declares).kind = otherwise
      ∨ ∃ keyword name,
        (declared otherwise declares).kind = .typeDeclaration keyword name := by
  cases declares with
  | none => exact .inl rfl
  | some found => exact .inr ⟨found.1, found.2, rfl⟩

end Form

/-- What may stand in a body: no whole file, and only members and types in the body of a
type. -/
def Scope.Allows (scope : Scope) (kind : NodeKind) : Prop :=
  kind ≠ .compilationUnit ∧ (scope = .members → ListKind.members.Accepts kind)

namespace Item

theorem allows_next (scope : Scope) (first : Token) (rest : List Token) :
    scope.Allows (next scope first rest).kind := by
  have typed (otherwise : NodeKind) (other : otherwise ≠ .compilationUnit)
      (declares : Option (TypeKeyword × Text)) :
      (Form.declared otherwise declares).kind ≠ .compilationUnit := by
    cases Form.kind_declared otherwise declares with
    | inl same => rwa [same]
    | inr declared =>
        obtain ⟨keyword, name, same⟩ := declared
        rw [same]
        exact NodeKind.noConfusion
  rw [next_eq, Form.kind_item]
  cases scope with
  | members =>
      constructor
      · exact typed .member NodeKind.noConfusion _
      · intro _
        exact Form.kind_declared .member _
  | items braced =>
      constructor
      · simp only [Form.ahead]
        split
        · exact NodeKind.noConfusion
        split
        · exact NodeKind.noConfusion
        split
        · exact NodeKind.noConfusion
        · exact typed .other NodeKind.noConfusion _
      · exact Scope.noConfusion

theorem scope_ofNamespace {keyword : Token} {rest head : List Token} {kind : NodeKind}
    {inner : Scope} {width : Nat}
    (reads : ofNamespace keyword rest = .block kind head inner width) :
    ∃ braced, inner = .items braced := by
  simp only [ofNamespace] at reads
  cases found : (keyword :: rest)[Span.namespaceHeader rest + 1]? with
  | none => simp [found] at reads
  | some token =>
      simp only [found] at reads
      split at reads
      · cases reads
        exact ⟨true, rfl⟩
      split at reads
      · cases reads
        exact ⟨false, rfl⟩
      · cases reads

theorem block_cases {scope inner : Scope} {first : Token} {rest head : List Token}
    {kind : NodeKind} {width : Nat}
    (reads : next scope first rest = .block kind head inner width) :
    (inner = .members ∧ ∃ keyword name, kind = .typeDeclaration keyword name)
      ∨ (∃ braced, inner = .items braced) ∧ kind = .namespaceDeclaration := by
  have same : (next scope first rest).kind = kind := by rw [reads]; rfl
  rcases next_cases scope first
    rest with ⟨keyword, name, is⟩ | ⟨braced, -, is⟩ | ⟨_, _, is, -⟩
  · rw [is, kind_ofType] at same
    rw [is] at reads
    exact .inl ⟨scope_ofType reads, keyword, name, same.symm⟩
  · rw [is, kind_ofNamespace] at same
    rw [is] at reads
    exact .inr ⟨scope_ofNamespace reads, same.symm⟩
  · rw [is] at reads
    cases reads

end Item

theorem children_body (scope : Scope) (nodes : List Node) :
    (scope.body nodes).segments.flatMap Segment.children = nodes := by
  induction nodes using List.reverseRecOn with
  | nil => cases scope <;> rfl
  | append_singleton nodes node ih => rw [Scope.body_append, children_add, ih]

/-- The nodes of a file are the children of its top node. -/
theorem children_file (info : NodeInfo) (nodes : List Node) (tail : Text) :
    (Node.mk info (((Scope.items false).body nodes).segments
      ++ if tail.isEmpty then [] else [.text tail])).children = nodes := by
  rw [Node.children, Node.segments, List.flatMap_append, children_body]
  split
  · exact List.append_nil nodes
  · exact List.append_nil nodes

theorem Closes.texts {scope : Scope} {closing trail rest : List Token}
    {final : List Segment} (closes : Closes scope closing trail rest final) :
    ∀ segment ∈ final, ∃ content, segment = .text content := by
  cases closes with
  | brace => simp
  | text => simp
  | nothing => simp

/-- The nodes directly below a declaration are those of its body. -/
theorem children_block {scope : Scope} {closing trail rest : List Token}
    {final : List Segment} (closes : Closes scope closing trail rest final)
    (info : NodeInfo) (header : Text) (nodes : List Node) :
    (Node.mk info (.text header :: (scope.body nodes).segments ++ final)).children
      = nodes := by
  have empty : final.flatMap Segment.children = [] := by
    rw [List.flatMap_eq_nil_iff]
    intro segment member
    obtain ⟨content, rfl⟩ := closes.texts segment member
    rfl
  simp [Node.children, Node.segments, Segment.children, children_body, empty]

/-- The lists of a file or a namespace hold using directives. -/
theorem list_gather {nodes : List Node} {kind : ListKind} {items : List Node}
    (member : .list kind items ∈ gather nodes) :
    kind = .directives ∧ ∀ item ∈ items, item.kind = .usingDirective := by
  induction nodes generalizing items with
  | nil => cases member
  | cons node nodes ih =>
      rw [gather] at member
      split at member
      · rename_i directive
        generalize gather nodes = segments at ih member
        fun_cases consDirective node segments with
        | case1 others segments =>
            rw [consDirective, List.mem_cons, Segment.list.injEq] at member
            cases member with
            | inl same =>
                obtain ⟨rfl, rfl⟩ := same
                refine ⟨rfl, List.forall_mem_cons.mpr ⟨directive, ?_⟩⟩
                exact (ih List.mem_cons_self).2
            | inr later => exact ih (List.mem_cons_of_mem _ later)
        | case2 segments other =>
            rw [consDirective, List.mem_cons, Segment.list.injEq] at member
            · cases member with
              | inl same =>
                  obtain ⟨rfl, rfl⟩ := same
                  exact ⟨rfl, by simpa using directive⟩
              | inr later => exact ih later
            · exact other
      · cases List.mem_cons.mp member with
        | inl same => cases same
        | inr later => exact ih later

theorem list_body {scope inner : Scope} {first : Token} {rest head : List Token}
    {kind : NodeKind} {width : Nat} {nodes : List Node}
    (reads : Item.next scope first rest = .block kind head inner width)
    (allowed : ∀ node ∈ nodes, inner.Allows node.kind) {listed : ListKind}
    {items : List Node} (member : .list listed items ∈ (inner.body nodes).segments) :
    listed.OwnedBy kind ∧ ∀ item ∈ items, listed.Accepts item.kind := by
  rcases Item.block_cases reads with ⟨rfl, typed⟩ | ⟨⟨braced, rfl⟩, same⟩
  · rw [Scope.body_members, Body.segments, List.mem_singleton,
      Segment.list.injEq] at member
    obtain ⟨rfl, rfl⟩ := member
    exact ⟨typed, fun item present => (allowed item present).2 rfl⟩
  · rw [Scope.body_items, Body.segments] at member
    obtain ⟨rfl, directives⟩ := list_gather member
    exact ⟨.inr same, directives⟩

/-- What holds of the nodes of a parsed body at any depth: none is a whole file, and
they own the lists that they may own. -/
structure Placeable (node : Node) : Prop where
  kind : node.kind ≠ .compilationUnit
  lists : node.ListsWell

theorem Parsed.placeable {scope : Scope} {nodes : List Node} {tokens rest : List Token}
    (parsed : Parsed scope nodes tokens rest) :
    (∀ node ∈ nodes, scope.Allows node.kind)
      ∧ ∀ node ∈ nodes.flatMap Node.family, Placeable node := by
  induction parsed with
  | nil => exact ⟨nofun, nofun⟩
  | @leaf scope _ kind first head lead core trail tokens rest nodes _ _ _ reads
    _ _ ih =>
      have allowed := Item.allows_next scope first (core ++ (trail ++ (tokens ++ rest)))
      rw [reads] at allowed
      refine ⟨List.forall_mem_cons.mpr ⟨allowed, ih.1⟩, ?_⟩
      rw [List.flatMap_cons, Node.family_children, List.cons_append,
        List.forall_mem_cons]
      refine ⟨⟨allowed.1, ?_⟩, ih.2⟩
      intro listed items member
      cases List.mem_singleton.mp member
  | @block scope inner _ kind first head lead header opening body closing trail tokens
        rest nodes members final _ _ _ reads _ _ closes _ ihWithin ih =>
      have allowed := Item.allows_next scope first
        (header ++ (opening ++ (body ++ (closing ++ (trail ++ (tokens ++ rest))))))
      rw [reads] at allowed
      refine ⟨List.forall_mem_cons.mpr ⟨allowed, ih.1⟩, ?_⟩
      rw [List.flatMap_cons, Node.family_children, List.cons_append,
        List.forall_mem_cons]
      constructor
      · refine ⟨allowed.1, ?_⟩
        intro listed items member
        simp only [Node.segments, List.cons_append, List.mem_cons, List.mem_append,
          reduceCtorEq, false_or] at member
        cases member with
        | inl within => exact list_body reads ihWithin.1 within
        | inr after =>
            obtain ⟨content, empty⟩ := closes.texts _ after
            cases empty
      · rw [children_block closes, List.forall_mem_append]
        exact ⟨ihWithin.2, ih.2⟩

end Parser

end Lineup
