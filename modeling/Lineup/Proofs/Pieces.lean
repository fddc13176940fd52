import Lineup.Proofs.Rest
import Lineup.Proofs.Movable
import Lineup.Proofs.Token.Boundaries

/-!
# The pieces of a rearranged text

The new trivia of an item is made of lines from before and of line ends, so whatever
holds of lines, of line ends, and of what is put together of such texts holds of the new
trivia. In particular a well-formed text stays well formed when its lists are
rearranged.
-/

namespace Lineup

open Text (WellFormed)

/-- A property of texts that holds of line ends and of what is put together. -/
structure Text.Composes (property : Text → Prop) : Prop where
  lineEnd : ∀ text ∈ lineEnds, property text
  append : ∀ {text other}, property text → property other → property (text ++ other)

theorem Text.Composes.flatMap {α : Type} {property : Text → Prop}
    (composes : Composes property) {items : List α} {view : α → Text}
    (each : ∀ item ∈ items, property (view item)) :
    property (items.flatMap view) := by
  induction items with
  | nil => exact composes.lineEnd [] (by simp [lineEnds])
  | cons item items ih =>
      rw [List.forall_mem_cons] at each
      exact composes.append each.1 (ih each.2)

theorem wellFormed_composes : Text.Composes WellFormed where
  lineEnd text member := by
    simp only [lineEnds, List.mem_cons, List.not_mem_nil, or_false] at member
    rcases member with rfl | rfl | rfl | rfl
    · exact ⟨[], rfl⟩
    · exact ⟨['\n'], rfl⟩
    · exact ⟨['\r'], rfl⟩
    · exact ⟨['\r', '\n'], rfl⟩
  append := .append

/-- What holds of the tokens of lines holds of the lines. -/
theorem TriviaLine.Lines.composed {property : Text → Prop}
    (composes : Text.Composes property) {lines : List TriviaLine} {tokens : List Token}
    (made : Lines lines tokens) (each : ∀ token ∈ tokens, property token.text) :
    ∀ line ∈ lines, property line.text := by
  induction made with
  | nil => simp
  | last => exact List.forall_mem_singleton.mpr (composes.flatMap each)
  | cons _ _ _ _ ih =>
      rw [List.forall_mem_append, List.forall_mem_cons] at each
      rw [List.forall_mem_cons]
      exact ⟨composes.append (composes.flatMap each.1) each.2.1, ih each.2.2⟩

namespace Arrange

theorem line_of_entries {items : List Node} {line : TriviaLine}
    (member : line ∈ (entries items).1
      ∨ ∃ entry ∈ (entries items).2, line ∈ entry.lines) :
    ∃ item ∈ items, line ∈ TriviaLine.split item.leading := by
  cases items with
  | nil => simp [entries] at member
  | cons first rest =>
      have whole := TriviaLine.splitHeader_append (TriviaLine.split first.leading)
      rcases member with header | ⟨entry, member, within⟩
      · refine ⟨first, List.mem_cons_self, ?_⟩
        rw [← whole]
        exact List.mem_append_left _ header
      · cases List.mem_cons.mp member with
        | inl own =>
            refine ⟨first, List.mem_cons_self, ?_⟩
            rw [own] at within
            rw [← whole]
            exact List.mem_append_right _ within
        | inr later =>
            obtain ⟨place, item, found, lines⟩ := mem_entriesFrom later
            rw [lines] at within
            exact ⟨item, List.mem_cons_of_mem _ (List.mem_of_getElem? found), within⟩

variable (options : Options) (source : Text) (fallback : AccessLevel) (kind : ListKind)

/-- What holds of the lines in front of the items of a list holds of their new
trivia. -/
theorem leading_list {property : Text → Prop} (composes : Text.Composes property)
    {items : List Node}
    (each : ∀ item ∈ items,
      ∀ line ∈ TriviaLine.split item.leading, property line.text) :
    ∀ item ∈ (list options source fallback kind items).1, property item.leading := by
  intro item member
  by_cases stays : items.length < 2 ∨ isReorderable (entries items).2 = false
  · rw [list_fst, if_pos stays] at member
    rw [← TriviaLine.joined_split item.leading]
    exact composes.flatMap (each item member)
  · obtain ⟨place, placed⟩ := List.getElem?_of_mem member
    obtain ⟨entry, settled, leading, listed, rfl, changed, leads, -⟩ :=
      list_placed options source fallback kind stays placed
    have header : property (TriviaLine.joined (entries items).1) := by
      apply composes.flatMap
      intro line within
      obtain ⟨item, member, line⟩ := line_of_entries (.inl within)
      exact each item member _ line
    have own {lines : List TriviaLine} (among : ∀ line ∈ lines, line ∈ settled.lines) :
        property (TriviaLine.joined lines) := by
      apply composes.flatMap
      intro line within
      rw [changed.lines] at among
      obtain ⟨item, member, line⟩ :=
        line_of_entries (.inr ⟨entry, listed, among line within⟩)
      exact each item member _ line
    have collapsed : ∀ line ∈ TriviaLine.collapse settled.lines, line ∈ settled.lines :=
      fun _ => TriviaLine.mem_of_mem_collapseFrom
    rw [Node.leading, Node.info_withLeading]
    cases leads with
    | first =>
        apply composes.append header
        apply own
        intro line within
        exact collapsed line ((List.dropWhile_sublist _).subset within)
    | later place previous =>
        rw [laterLeading]
        split
        · exact composes.append (composes.lineEnd _ previous.lineEnd_mem)
            (own collapsed)
        · exact own collapsed

theorem trailing_list {items : List Node}
    (each : ∀ item ∈ items, WellFormed item.trailing) :
    ∀ item ∈ (list options source fallback kind items).1, WellFormed item.trailing := by
  intro item member
  by_cases stays : items.length < 2 ∨ isReorderable (entries items).2 = false
  · rw [list_fst, if_pos stays] at member
    exact each item member
  · obtain ⟨place, placed⟩ := List.getElem?_of_mem member
    obtain ⟨entry, settled, leading, listed, rfl, changed, -⟩ :=
      list_placed options source fallback kind stays placed
    obtain ⟨trailing, node, moves⟩ := changed.node
    have lineEnd := movedLineEnd_mem
      (order options source fallback kind (entries items).2)
    have moved (condition : Prop) [Decidable condition] :
        (if condition then
            movedLineEnd (order options source fallback kind (entries items).2)
          else []) ∈ lineEnds := by
      split
      · exact lineEnd
      · simp [lineEnds]
    have own : WellFormed entry.node.trailing := by
      apply each
      rw [← entries_nodes items]
      exact List.mem_map_of_mem listed
    have whole := own.append (wellFormed_composes.lineEnd _
      (moved (entry.position = items.length - 1 ∧ place ≠ items.length - 1)))
    rw [← moves] at whole
    have shown : (settled.node.withLeading leading).trailing = trailing := by
      simp [Node.trailing, node]
    rw [shown]
    exact (whole.split (wellFormed_composes.lineEnd _ (moved _)).startsAnew).1

end Arrange

mutual

/-- A property holds of all texts that a node is put together of. -/
def Node.Pieces (property : Text → Prop) : Node → Prop
  | .mk info segments =>
      property info.leading ∧ property info.trailing
        ∧ Segment.PiecesAll property segments

/-- A property holds of all texts that a segment is put together of. -/
def Segment.Pieces (property : Text → Prop) : Segment → Prop
  | .text content => property content
  | .node child => child.Pieces property
  | .list _ items => Node.PiecesAll property items

/-- A property holds of all texts that segments are put together of. -/
def Segment.PiecesAll (property : Text → Prop) : List Segment → Prop
  | [] => True
  | segment :: segments => segment.Pieces property ∧ Segment.PiecesAll property segments

/-- A property holds of all texts that nodes are put together of. -/
def Node.PiecesAll (property : Text → Prop) : List Node → Prop
  | [] => True
  | node :: nodes => node.Pieces property ∧ Node.PiecesAll property nodes

end

section Pieces

variable {property : Text → Prop}

theorem Node.piecesAll_iff (nodes : List Node) :
    Node.PiecesAll property nodes ↔ ∀ node ∈ nodes, node.Pieces property := by
  induction nodes with
  | nil => simp [Node.PiecesAll]
  | cons node nodes ih => rw [Node.PiecesAll, ih, List.forall_mem_cons]

theorem Segment.piecesAll_iff (segments : List Segment) :
    Segment.PiecesAll property segments
      ↔ ∀ segment ∈ segments, segment.Pieces property := by
  induction segments with
  | nil => simp [Segment.PiecesAll]
  | cons segment segments ih => rw [Segment.PiecesAll, ih, List.forall_mem_cons]

theorem Node.piecesAll_append (nodes others : List Node) :
    Node.PiecesAll property (nodes ++ others)
    ↔ Node.PiecesAll property nodes ∧ Node.PiecesAll property others := by
  rw [Node.piecesAll_iff, List.forall_mem_append, Node.piecesAll_iff,
    Node.piecesAll_iff]

theorem Segment.piecesAll_append (segments others : List Segment) :
    Segment.PiecesAll property (segments ++ others)
      ↔ Segment.PiecesAll property segments ∧ Segment.PiecesAll property others := by
  rw [Segment.piecesAll_iff, List.forall_mem_append, Segment.piecesAll_iff,
    Segment.piecesAll_iff]

theorem Node.pieces_iff (node : Node) : node.Pieces property
    ↔ property node.leading ∧ property node.trailing
      ∧ ∀ segment ∈ node.segments, segment.Pieces property := by
  cases node with
  | mk info segments => rw [Node.Pieces, Segment.piecesAll_iff]; rfl

end Pieces

mutual

theorem Node.print_composes {property : Text → Prop}
    (composes : Text.Composes property) :
    (node : Node) → node.Pieces property → property node.print
  | .mk info segments, pieces => by
      rw [Node.Pieces] at pieces
      rw [Node.print_mk]
      have inner := Segment.printAll_composes composes segments pieces.2.2
      exact composes.append (composes.append pieces.1 inner) pieces.2.1

theorem Segment.print_composes {property : Text → Prop}
    (composes : Text.Composes property) :
    (segment : Segment) → segment.Pieces property → property segment.print
  | .text content, pieces => by
      rwa [Segment.print_text]
  | .node child, pieces => by
      rw [Segment.print_node]
      exact Node.print_composes composes child pieces
  | .list kind items, pieces => by
      rw [Segment.print_list]
      exact Node.printAll_composes composes items pieces

theorem Segment.printAll_composes {property : Text → Prop}
    (composes : Text.Composes property) :
    (segments : List Segment) → Segment.PiecesAll property segments →
    property (Segment.printAll segments)
  | [], _ => by
      rw [Segment.printAll_nil]
      exact composes.lineEnd [] (by simp [lineEnds])
  | segment :: segments, pieces => by
      rw [Segment.PiecesAll] at pieces
      rw [Segment.printAll_cons]
      exact composes.append (Segment.print_composes composes segment pieces.1)
        (Segment.printAll_composes composes segments pieces.2)

theorem Node.printAll_composes {property : Text → Prop}
    (composes : Text.Composes property) :
    (nodes : List Node) → Node.PiecesAll property nodes → property (Node.printAll nodes)
  | [], _ => by
      rw [Node.printAll_nil]
      exact composes.lineEnd [] (by simp [lineEnds])
  | node :: nodes, pieces => by
      rw [Node.PiecesAll] at pieces
      rw [Node.printAll_cons]
      exact composes.append (Node.print_composes composes node pieces.1)
        (Node.printAll_composes composes nodes pieces.2)

end

namespace Arrange

/-- Rearranging a list keeps its pieces well formed. -/
theorem pieces_list (options : Options) (source : Text) (fallback : AccessLevel)
    (kind : ListKind) {items : List Node} (pieces : Node.PiecesAll WellFormed items) :
    Node.PiecesAll WellFormed (list options source fallback kind items).1 := by
  rw [Node.piecesAll_iff] at pieces ⊢
  intro item member
  rw [Node.pieces_iff]
  refine ⟨?_, ?_, ?_⟩
  · apply leading_list options source fallback kind wellFormed_composes _ item member
    intro item member
    apply (TriviaLine.lines_split item.leading).composed wellFormed_composes
    exact Token.wellFormed_lex ((Node.pieces_iff item).mp (pieces item member)).1
  · apply trailing_list options source fallback kind _ item member
    intro item member
    exact ((Node.pieces_iff item).mp (pieces item member)).2.1
  · obtain ⟨order, perm, twins⟩ := list_twin options source fallback kind items
    obtain ⟨other, among, twin⟩ := exists_of_forall₂ twins member
    rw [Twin.segments twin]
    exact ((Node.pieces_iff other).mp (pieces other (perm.mem_iff.mp among))).2.2

end Arrange

mutual

/-- Rearranging a node keeps its pieces well formed. -/
theorem Node.pieces_reorganize (options : Options) (source : Text) : (node : Node) →
    node.Pieces WellFormed → (node.reorganize options source).1.Pieces WellFormed
  | .mk info segments, pieces => by
      rw [Node.Pieces] at pieces
      rw [Node.reorganize, Node.Pieces]
      exact ⟨pieces.1, pieces.2.1,
        Segment.piecesAll_reorganize options source (AccessLevel.default info.kind)
          segments pieces.2.2⟩

theorem Segment.pieces_reorganize (options : Options) (source : Text)
    (fallback : AccessLevel) :
    (segment : Segment) → segment.Pieces WellFormed →
    (segment.reorganize options source fallback).1.Pieces WellFormed
  | .text content, pieces => by
      rwa [Segment.reorganize]
  | .node child, pieces => by
      rw [Segment.Pieces] at pieces
      rw [Segment.reorganize, Segment.Pieces]
      exact Node.pieces_reorganize options source child pieces
  | .list kind items, pieces => by
      rw [Segment.Pieces] at pieces
      rw [Segment.reorganize, Segment.Pieces]
      apply Arrange.pieces_list
      exact Node.piecesAll_reorganize options source items pieces

theorem Segment.piecesAll_reorganize (options : Options) (source : Text)
    (fallback : AccessLevel) :
    (segments : List Segment) → Segment.PiecesAll WellFormed segments →
    Segment.PiecesAll WellFormed
      (Segment.reorganizeAll options source fallback segments).1
  | [], pieces => by
      rwa [Segment.reorganizeAll]
  | segment :: segments, pieces => by
      rw [Segment.PiecesAll] at pieces
      rw [Segment.reorganizeAll, Segment.PiecesAll]
      exact ⟨Segment.pieces_reorganize options source fallback segment pieces.1,
        Segment.piecesAll_reorganize options source fallback segments pieces.2⟩

theorem Node.piecesAll_reorganize (options : Options) (source : Text) :
    (nodes : List Node) →
    Node.PiecesAll WellFormed nodes →
    Node.PiecesAll WellFormed (Node.reorganizeAll options source nodes).1
  | [], pieces => by
      rwa [Node.reorganizeAll]
  | node :: nodes, pieces => by
      rw [Node.PiecesAll] at pieces
      rw [Node.reorganizeAll, Node.PiecesAll]
      exact ⟨Node.pieces_reorganize options source node pieces.1,
        Node.piecesAll_reorganize options source nodes pieces.2⟩

end

namespace Parser

variable {property : Text → Prop}

theorem piecesAll_addDirective (node : Node) (segments : List Segment) :
    Segment.PiecesAll property (addDirective node segments)
      ↔ Segment.PiecesAll property segments ∧ node.Pieces property := by
  fun_induction addDirective node segments with
  | case1 => simp [Segment.PiecesAll, Segment.Pieces, Node.PiecesAll]
  | case2 items =>
      simp [Segment.PiecesAll, Segment.Pieces, Node.piecesAll_append, Node.PiecesAll]
  | case3 segment segments _ ih =>
      rw [Segment.PiecesAll, ih, Segment.PiecesAll, and_assoc]

theorem piecesAll_add (body : Body) (node : Node) :
    Segment.PiecesAll property (body.add node).segments
      ↔ Segment.PiecesAll property body.segments ∧ node.Pieces property := by
  cases body with
  | members nodes =>
      simp [Body.add, Body.segments, Segment.PiecesAll, Segment.Pieces,
        Node.piecesAll_append, Node.PiecesAll]
  | items braced segments =>
      simp only [Body.add]
      split
      · exact piecesAll_addDirective node segments
      · simp [Body.segments, Segment.piecesAll_append, Segment.PiecesAll,
          Segment.Pieces]

theorem piecesAll_body (scope : Scope) (nodes : List Node) :
    Segment.PiecesAll property (scope.body nodes).segments
      ↔ Node.PiecesAll property nodes := by
  induction nodes using List.reverseRecOn with
  | nil =>
      cases scope <;>
        simp [Scope.start, Body.segments, Segment.PiecesAll, Segment.Pieces,
          Node.PiecesAll]
  | append_singleton nodes node ih =>
      rw [Scope.body_append, piecesAll_add, ih, Node.piecesAll_append]
      simp [Node.PiecesAll]

theorem Closes.pieces (composes : Text.Composes property) {scope : Scope}
    {closing trail rest : List Token} {final : List Segment}
    (closes : Closes scope closing trail rest final)
    (each : ∀ token ∈ closing, property token.text) :
    Segment.PiecesAll property final := by
  cases closes with
  | brace => exact ⟨composes.flatMap each, trivial⟩
  | text => exact ⟨composes.flatMap each, trivial⟩
  | nothing => trivial

/-- What holds of the tokens of nodes holds of their pieces. -/
theorem Parsed.pieces (composes : Text.Composes property) {scope : Scope}
    {nodes : List Node} {tokens rest : List Token}
    (parsed : Parsed scope nodes tokens rest)
    (each : ∀ token ∈ tokens, property token.text) : Node.PiecesAll property nodes := by
  induction parsed with
  | nil => trivial
  | leaf id trivia starts inside reads trails others ih =>
      simp only [List.forall_mem_append, List.forall_mem_cons] at each
      obtain ⟨lead, first, core, trail, later⟩ := each
      rw [Node.PiecesAll, Node.Pieces]
      refine ⟨⟨composes.flatMap lead, composes.flatMap trail, ?_, trivial⟩, ih later⟩
      exact composes.flatMap (List.forall_mem_cons.mpr ⟨first, core⟩)
  | block id trivia starts inside reads opens within closes others ihWithin ih =>
      simp only [List.forall_mem_append, List.forall_mem_cons] at each
      obtain ⟨lead, first, header, opening, body, closing, trail, later⟩ := each
      rw [Node.PiecesAll, Node.Pieces, Segment.piecesAll_append, Segment.PiecesAll,
        piecesAll_body]
      refine ⟨⟨composes.flatMap lead, composes.flatMap trail, ⟨?_, ihWithin body⟩,
        closes.pieces composes closing⟩, ih later⟩
      exact composes.append
        (composes.flatMap (List.forall_mem_cons.mpr ⟨first, header⟩))
        (composes.flatMap opening)

theorem File.pieces (composes : Text.Composes property) {tokens : List Token}
    {top : Node} (file : File tokens top)
    (each : ∀ token ∈ tokens, property token.text) :
    top.Pieces property := by
  cases file with
  | intro parsed trivia all =>
      subst all
      rw [List.forall_mem_append] at each
      have bare : property [] := composes.lineEnd [] (by simp [lineEnds])
      rw [Node.Pieces, Segment.piecesAll_append, piecesAll_body]
      refine ⟨bare, bare, parsed.pieces composes each.1, ?_⟩
      split
      · trivial
      · exact ⟨composes.flatMap each.2, trivial⟩

end Parser

/-- A well-formed text stays well formed when it is put in order. -/
theorem wellFormed_reorganizeText (options : Options) {source : Text}
    (formed : WellFormed source) :
    WellFormed (reorganizeText options source).1 := by
  have pieces := (Parser.parse_file source).pieces wellFormed_composes
    (Token.wellFormed_lex formed)
  have printed : (reorganizeText options source).1
      = ((Tree.parse source).top.reorganize options source).1.print :=
    Tree.print_reorganize_parse options source
  rw [printed]
  exact Node.print_composes wellFormed_composes
    _ (Node.pieces_reorganize options source _ pieces)

end Lineup
