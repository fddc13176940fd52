import Lineup.Proofs.Again.Keys
import Lineup.Proofs.Again.Nodes
import Lineup.Proofs.Arena
import Lineup.Proofs.Encoding
import Lineup.Proofs.Keys

/-!
# Texts that are put in order for good

Printing a rearranged tree gives a text, and what is put in order the second time is the
tree that is read from that text. When every list stands on lines of its own, this is
the rearranged tree again, apart from numbers and places. There is nothing to do for a
list of the one tree when there is nothing to do for the same list of the other.
-/

namespace Lineup

open Arrange (Listing)

@[simp] theorem Node.leading_unplaced (node : Node) :
    node.unplaced.leading = node.leading := by
  rw [Node.leading, Node.info_unplaced, Node.leading, NodeInfo.unplaced]

theorem Node.children_unplaced (node : Node) :
    node.unplaced.children = node.children.map Node.unplaced := by
  rw [Node.children, Node.segments_unplaced, Node.children]
  induction node.segments with
  | nil => rfl
  | cons segment segments ih => cases segment <;> simp [Segment.children, ih]

theorem Node.family_unplaced (node : Node) :
    node.unplaced.family = node.family.map Node.unplaced := by
  induction node using Node.induction with
  | step node ih =>
      rw [Node.family_children, Node.family_children node, Node.children_unplaced,
        List.map_cons, List.flatMap_map, List.map_flatMap, List.flatMap_congr ih]

/-- A list without the numbers of its items and the places of their tokens. -/
def Arrange.Listing.unplaced (listing : Listing) : Listing :=
  { listing with items := listing.items.map Node.unplaced }

theorem Node.listings_unplaced (node : Node) :
    node.unplaced.listings = node.listings.map Listing.unplaced := by
  rw [Node.listings, Node.segments_unplaced, Node.kind_unplaced, Node.listings]
  induction node.segments with
  | nil => rfl
  | cons segment segments ih =>
      cases segment <;> simp [Segment.listings, Listing.unplaced, ih]

theorem Node.flatMap_listings_unplaced (node : Node) :
    node.unplaced.family.flatMap Node.listings
      = (node.family.flatMap Node.listings).map Listing.unplaced := by
  rw [Node.family_unplaced, List.flatMap_map, List.map_flatMap]
  exact List.flatMap_congr fun node _ => node.listings_unplaced

theorem Member.classify_unplaced (fallback : AccessLevel) (node : Node) :
    Member.classify fallback node.unplaced = Member.classify fallback node := by
  apply Member.classify_congr fallback node.kind_unplaced
  rw [← Token.map_bare_iff, Node.head, Node.info_unplaced, NodeInfo.unplaced,
    List.map_map]
  rfl

/-- A using directive that says what its text says does so without its place. -/
theorem Directive.Speaks.classify_eq {source : Text} {node : Node}
    (speaks : Speaks source node) :
    classify source node = alone (Segment.printAll node.unplaced.segments) := by
  obtain ⟨text, segments, said⟩ := speaks
  simp [said, segments]

namespace Arrange

variable {options : Options} {source other : Text} {fallback : AccessLevel}
  {kind : ListKind}
variable {items others : List Node}

theorem map_lines_entriesFrom (position : Nat) (items : List Node) :
    (entriesFrom position items).map Entry.lines
      = (items.map Node.leading).map TriviaLine.split := by
  induction items generalizing position with
  | nil => rfl
  | cons item items ih => simp [entriesFrom, ih]

theorem map_lines_entries (leading : items.map Node.leading = others.map Node.leading) :
    (entries items).2.map Entry.lines = (entries others).2.map Entry.lines := by
  cases items with
  | nil =>
      cases others with
      | nil => rfl
      | cons other others => cases leading
  | cons item items =>
      cases others with
      | nil => cases leading
      | cons other others =>
          simp only [List.map_cons, List.cons.injEq] at leading
          simp only [entries, List.map_cons, map_lines_entriesFrom, leading]

theorem isReorderable_congr {entries others : List Entry}
    (lines : entries.map Entry.lines = others.map Entry.lines) :
    isReorderable entries = isReorderable others := by
  have all (entries : List Entry) : isReorderable entries
      = (entries.map Entry.lines).all fun lines => lines.all fun line =>
        !line.hasDirective := by
    rw [isReorderable, List.all_map]
    rfl
  rw [all, lines, ← all]

theorem tidy_iff (entries : List Entry) : Tidy entries
    ↔ (∀ lines ∈ (entries.map Entry.lines).head?, TriviaLine.Starts lines)
      ∧ ∀ lines ∈ entries.map Entry.lines, TriviaLine.Spaced lines := by
  cases entries with
  | nil => simp [Tidy]
  | cons entry entries => simp [Tidy]

/-- There is nothing to do for a list when there is nothing to do for another with the
same trivia, as long as the orders are the same. -/
theorem Rests.congr (leading : items.map Node.leading = others.map Node.leading)
    (ordered : InOrder options source fallback kind items →
      InOrder options other fallback kind others)
    (rests : Rests options source fallback kind items) :
    Rests options other fallback kind others := by
  have lines := map_lines_entries leading
  refine rests.imp ?_ (Or.imp ?_ (And.imp ordered ?_))
  · intro short
    have length := congrArg List.length leading
    rw [List.length_map, List.length_map] at length
    rwa [← length]
  · rw [isReorderable_congr lines]
    exact id
  · rw [tidy_iff, tidy_iff, lines]
    exact id

/-- The order of items is the same without numbers and places when directives say what
their texts say. -/
theorem InOrder.unplaced (same : items.map Node.unplaced = others.map Node.unplaced)
    (speak : kind = .directives → ∀ item ∈ items, Directive.Speaks source item)
    (speak' : kind = .directives → ∀ item ∈ others, Directive.Speaks other item)
    (ordered : InOrder options source fallback kind items) :
    InOrder options other fallback kind others := by
  cases kind with
  | directives =>
      have keys {source : Text} {items : List Node}
          (speak : ∀ item ∈ items, Directive.Speaks source item) :
          items.map (Directive.classify source)
            = (items.map Node.unplaced).map fun item =>
            Directive.alone (Segment.printAll item.segments) := by
        rw [List.map_map]
        exact List.map_congr_left fun item member => (speak item member).classify_eq
      rwa [InOrder, keys (speak' rfl), ← same, ← keys (speak rfl)]
  | members =>
      have keys (items : List Node) : items.map (Member.classify fallback)
          = (items.map Node.unplaced).map (Member.classify fallback) := by
        rw [List.map_map]
        exact List.map_congr_left fun item _ =>
          (Member.classify_unplaced fallback item).symm
      rwa [InOrder, keys, ← same, ← keys]

end Arrange

theorem Node.kind_of_mem_directives {nodes : List Node}
    (lists : ∀ owner ∈ nodes, owner.ListsWell) {listing : Listing}
    (member : listing ∈ nodes.flatMap Node.listings)
    (directives : listing.kind = .directives) :
    ∀ item ∈ listing.items, item.kind = .usingDirective := by
  obtain ⟨owner, among, owned⟩ := List.mem_flatMap.mp member
  obtain ⟨segment, present, held⟩ := List.mem_flatMap.mp owned
  cases segment with
  | text content => cases held
  | node child => cases held
  | list kind items =>
      obtain rfl := List.mem_singleton.mp held
      obtain rfl : kind = .directives := directives
      exact (lists owner among .directives items present).2

/-- Whether anything is to be done for the lists of a tree does not depend on numbers
and places, when its using directives say what their texts say. -/
theorem Node.Rest.unplaced {options : Options} {source other : Text} {node again : Node}
    (same : node.unplaced = again.unplaced)
    (speak : ∀ item ∈ node.family, item.kind = .usingDirective →
      Directive.Speaks source item)
    (speak' : ∀ item ∈ again.family, item.kind = .usingDirective →
      Directive.Speaks other item)
    (lists : ∀ owner ∈ node.family, owner.ListsWell)
    (lists' : ∀ owner ∈ again.family, owner.ListsWell)
    (rest : Node.Rest options source node.family) :
    Node.Rest options other again.family := by
  intro listing member
  have unplaced : listing.unplaced
      ∈ (node.family.flatMap Node.listings).map Listing.unplaced := by
    rw [← Node.flatMap_listings_unplaced, same, Node.flatMap_listings_unplaced]
    exact List.mem_map_of_mem member
  obtain ⟨earlier, was, like⟩ := List.mem_map.mp unplaced
  have rests := rest earlier was
  rw [Listing.unplaced, Listing.unplaced, Listing.mk.injEq] at like
  obtain ⟨owner, kind, items⟩ := like
  have leading : earlier.items.map Node.leading = listing.items.map Node.leading := by
    have leading := congrArg (List.map Node.leading) items
    simpa [Function.comp_def] using leading
  rw [Listing.Rests, owner, kind] at rests
  refine rests.congr leading (Arrange.InOrder.unplaced items ?_ ?_)
  · intro directives item listed
    exact speak item ((Node.listing_sublist node was).subset listed)
      (Node.kind_of_mem_directives lists was (kind.trans directives) item listed)
  · intro directives item listed
    exact speak' item ((Node.listing_sublist again member).subset listed)
      (Node.kind_of_mem_directives lists' member directives item listed)

/-- A using directive of a reorganized tree says what it said before. -/
theorem Node.Becomes.speaks {options : Options} {source : Text} {before after : Node}
    (becomes : Node.Becomes options source before after)
    (speaks : Directive.Speaks source before) :
    Directive.Speaks source after := by
  obtain ⟨text, segments, said⟩ := speaks
  have head : after.head = before.head := by
    rw [Arrange.Twin.head becomes, Node.head,
      (Node.reorganize_isInner options source).info, Node.head]
  refine ⟨text, ?_, ?_⟩
  · rw [Arrange.Twin.segments becomes]
    cases before with
    | mk info own =>
        obtain rfl : own = [.text text] := segments
        simp [Node.reorganize, Node.segments, Segment.reorganizeAll_fst,
          Segment.reorganize]
  · rw [← said, Directive.classify, head]
    rfl

/-- What holds of all nodes of a file and is kept when a node is reorganized holds of
all nodes of the reorganized file. -/
theorem Node.forall_mem_family_reorganize {options : Options} {source : Text}
    {node : Node} {P : Node → Prop}
    (keeps : ∀ before after, Node.Becomes options source before after → P before →
      P after)
    (each : ∀ before ∈ node.family, P before) :
    ∀ after ∈ (node.reorganize options source).1.family, P after := by
  intro after member
  obtain ⟨order, becomes, perm⟩ := Node.family_becomes options source node
  obtain ⟨before, was, became⟩ := exists_of_forall₂ becomes (perm.symm.subset member)
  exact keeps before after became (each before was)

namespace Tree

variable (options : Options) (source : Text)

theorem listsWell_parse : ∀ node ∈ (parse source).top.family, node.ListsWell := by
  intro node member
  exact (isArena_parse source).lists node ((nodes_perm _).symm.subset member)

theorem listsWell_reorganize_parse :
    ∀ node ∈ ((parse source).top.reorganize options source).1.family, node.ListsWell :=
  Node.forall_mem_family_reorganize (fun _ _ becomes => becomes.listsWell)
    (listsWell_parse source)

theorem speaks_reorganize_parse :
    ∀ node ∈ ((parse source).top.reorganize options source).1.family,
    node.kind = .usingDirective → Directive.Speaks source node := by
  refine Node.forall_mem_family_reorganize ?_ (Parser.parse_file source).speaks
  intro before after becomes speaks is
  rw [becomes.kind] at is
  exact becomes.speaks (speaks is)

end Tree

/-- When every list of a file stands on lines of its own, the new text is read as the
rearranged tree. -/
theorem unplaced_parse_reorganizeText {options : Options} {source : Text}
    (orderly : ∀ node ∈ (Tree.parse source).top.family,
      node.isOrderly options source = true) :
    (Tree.parse (reorganizeText options source).1).top.unplaced
      = ((Tree.parse source).top.reorganize options source).1.unplaced := by
  obtain ⟨new, file, run⟩ :=
    (Parser.parse_file source).reread orderly (Token.run_lexFrom true 0 source)
  have printed : Token.joined new = (reorganizeText options source).1 := by
    rw [← file.print]
    exact (Tree.print_reorganize_parse options source).symm
  have faces := run.map_face_lex
  rw [printed] at faces
  exact (Parser.parse_file _).determined file faces

/-- A file in which every list stands on lines of its own is put in order for good: the
new text is read as the rearranged tree, and nothing is to be done for it. -/
theorem reorganizeText_settled (options : Options) (source : Text)
    (orderly : ∀ node ∈ (Tree.parse source).top.family,
      node.isOrderly options source = true) :
    let out := (reorganizeText options source).1
    (Tree.parse out).top.unplaced
      = ((Tree.parse source).top.reorganize options source).1.unplaced
      ∧ (reorganizeText options out).1 = out
      ∧ (reorganizeText options out).2.isChanged = false := by
  intro out
  have same := unplaced_parse_reorganizeText orderly
  have unchanged : (reorganizeText options out).2.isChanged = false := by
    have rest : Node.Rest options source
        ((Tree.parse source).top.reorganize options source).1.family := by
      rw [← Node.isChanged_reorganize_iff, Node.reorganize_again]
      rfl
    exact (Node.isChanged_reorganize_iff options out (Tree.parse out).top).mpr
      (rest.unplaced same.symm (Tree.speaks_reorganize_parse options source)
        (Parser.parse_file out).speaks (Tree.listsWell_reorganize_parse options source)
        (Tree.listsWell_parse out))
  exact ⟨same, reorganizeText_of_unchanged unchanged, unchanged⟩

/-- Members and using directives on lines of their own, with comments and blank lines
between. -/
theorem reorganizeText_settled_lines :
    let source := utf8
      "using B;\nusing A;\n\nclass C \x7b\n int b;\n\n\n // n\n int a;\n\x7d\n"
    let out := (reorganizeText {} source).1
    (∀ node ∈ (Tree.parse source).top.family, node.isOrderly {} source = true)
      ∧ (reorganizeText {} source).2.isChanged = true
      ∧ (reorganizeText {} out).1 = out
      ∧ (reorganizeText {} out).2.isChanged = false := by
  intro source out
  have orderly : ∀ node ∈ (Tree.parse source).top.family,
      node.isOrderly {} source = true := by
    decide +kernel
  have changed : (reorganizeText {} source).2.isChanged = true := by decide +kernel
  exact ⟨orderly, changed, (reorganizeText_settled {} source orderly).2⟩

/-- The comment in front of the member that becomes the first one comes to stand on the
line of the opening brace and belongs to the brace then; the blank line behind it is
dropped the second time. -/
theorem reorganizeText_settled_comment :
    let source := utf8 "class C \x7b int b;\n // n\n\n int a;\n\x7d"
    let out := (reorganizeText {} source).1
    (∃ node ∈ (Tree.parse source).top.family, node.isOrderly {} source = false)
      ∧ (reorganizeText {} out).1 ≠ out
      ∧ (reorganizeText {} out).2.isChanged = true := by
  decide +kernel

end Lineup
