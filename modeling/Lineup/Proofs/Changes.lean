import Lineup.Proofs.Arena
import Lineup.Proofs.Encoding

/-!
# What is reported as changed

A tree is told by its table, in which every node stands without the nodes below it. A
file is reported as unchanged exactly when no entry of its table changes. So what is not
reported may be left as it is on the disk, byte by byte.
-/

namespace Lineup

/-! ## Tables -/

/-- What the table of a tree holds for a segment: nodes are told by their numbers. -/
inductive Cell where
  | text (content : Text)
  | node (number : Nat)
  | list (kind : ListKind) (numbers : List Nat)
  deriving DecidableEq, Repr

/-- What the table holds for a segment. -/
def Segment.cell : Segment → Cell
  | .text content => .text content
  | .node child => .node child.id
  | .list kind items => .list kind (items.map Node.id)

/-- What the table holds for a node: all its fields, but not the nodes below it. -/
def Node.row (node : Node) : NodeInfo × List Cell :=
  (node.info, node.segments.map Segment.cell)

/-- All fields of a tree, node by node. -/
def Tree.table (tree : Tree) : Text × Int × List (NodeInfo × List Cell) :=
  (tree.source, tree.root, tree.nodes.map Node.row)

/-- Two lists are the same when they have the same images, and what has the same image
is the same. -/
theorem eq_of_map_eq {α β : Type} {image : α → β} {values others : List α}
    (images : values.map image = others.map image)
    (same : ∀ value ∈ values, ∀ other ∈ others, image value = image other →
      value = other) :
    values = others := by
  induction values generalizing others with
  | nil => exact (List.map_eq_nil_iff.mp images.symm).symm
  | cons value values ih =>
      cases others with
      | nil => cases images
      | cons other others =>
          obtain ⟨first, rest⟩ := List.cons.inj images
          have later := ih rest fun inner member outer among =>
            same inner (List.mem_cons_of_mem _ member) outer
              (List.mem_cons_of_mem _ among)
          rw [same value List.mem_cons_self other List.mem_cons_self first, later]

/-- Segments are the same when the table holds the same for them, and their nodes of the
same numbers are the same. -/
theorem Segment.eq_of_cell {segment other : Segment} (cell : segment.cell = other.cell)
    (same : ∀ child ∈ segment.children, ∀ also ∈ other.children, child.id = also.id →
      child = also) :
    segment = other := by
  cases segment with
  | text content =>
      cases other with
      | text also =>
          cases cell
          rfl
      | node also => cases cell
      | list kind items => cases cell
  | node child =>
      cases other with
      | text content => cases cell
      | node also =>
          have number : child.id = also.id := Cell.node.inj cell
          rw [same child (List.mem_singleton_self child) also
            (List.mem_singleton_self also) number]
      | list kind items => cases cell
  | list kind items =>
      cases other with
      | text content => cases cell
      | node also => cases cell
      | list kind others =>
          obtain ⟨rfl, numbers⟩ := Cell.list.inj cell
          rw [eq_of_map_eq numbers same]

namespace Tree

variable {left right : Tree}

/-- Trees with the same rows have the same nodes at the same numbers. -/
theorem IsArena.eq_of_rows (first : left.IsArena) (second : right.IsArena)
    (rows : left.nodes.map Node.row = right.nodes.map Node.row) (node : Node) :
    node ∈ left.nodes → ∀ other ∈ right.nodes, node.id = other.id → node = other := by
  -- The nodes below a node are in the table as well, so the induction is on the tree.
  induction node using Node.induction with
  | step node ih =>
      intro member other among number
      have row : node.row = other.row := by
        have place := congrArg (·[node.id]?) rows
        simp only [List.getElem?_map] at place
        rw [getElem?_id first.numbers member, number,
          getElem?_id second.numbers among] at place
        exact Option.some.inj place
      obtain ⟨info, cells⟩ := Prod.mk.inj row
      have segments : node.segments = other.segments := by
        apply eq_of_map_eq cells
        intro segment present also within cell
        apply Segment.eq_of_cell cell
        intro child below under beneath
        have inner : child ∈ node.children :=
          List.mem_flatMap.mpr ⟨segment, present, below⟩
        have outer : under ∈ other.children :=
          List.mem_flatMap.mpr ⟨also, within, beneath⟩
        apply ih child inner
        · exact List.mem_of_getElem? (first.children node member child inner).1
        · exact List.mem_of_getElem? (second.children other among under outer).1
      cases node with
      | mk ownInfo ownSegments =>
          cases other with
          | mk otherInfo otherSegments =>
              cases info
              cases segments
              rfl

/-- A tree is told by its table. -/
theorem IsArena.ext (first : left.IsArena) (second : right.IsArena)
    (table : left.table = right.table) : left = right := by
  obtain ⟨source, rest⟩ := Prod.mk.inj table
  obtain ⟨root, rows⟩ := Prod.mk.inj rest
  have top : left.top = right.top := by
    apply first.eq_of_rows second rows
    · exact List.mem_of_getElem? first.top
    · exact List.mem_of_getElem? second.top
    · rw [first.id_top, second.id_top]
  cases left with
  | mk leftSource leftTop leftRoot =>
      cases right with
      | mk rightSource rightTop rightRoot =>
          cases source
          cases root
          cases top
          rfl

/-! ## The report -/

/-- A parsed file is printed as it was read. -/
theorem print?_parse (source : Text) : (parse source).print? = some source := by
  rw [print?, (isArena_parse source).node?_root, Option.map_some,
    (Parser.parse_file source).print, Token.joined_lex]

/-- A tree is reported as unchanged exactly when it stays the same. -/
theorem isChanged_reorganize_iff (options : Options) (tree : Tree) :
    (tree.reorganize options).2.isChanged = false
      ↔ (tree.reorganize options).1 = tree := by
  constructor
  · intro unchanged
    have rest := (Node.isChanged_reorganize_iff options tree.source tree.top).mp
      unchanged
    have top := Node.reorganize_of_rest options tree.source tree.top rest
    exact congrArg (fun top => { tree with top }) top
  · intro same
    -- A second pass reports no change, and it is the first one over again.
    have top : (tree.top.reorganize options tree.source).1 = tree.top :=
      congrArg Tree.top same
    have again := Node.reorganize_again options tree.source tree.top
    rw [top] at again
    exact congrArg (fun result => result.2.isChanged) again

/-- What is reported of a parsed file is exact: it is unchanged when the tree stays the
same, which is when every field of every node does. Then the text stays the same, and so
may a file that holds it. -/
theorem reorganize_parse_unchanged_iff (options : Options) (source : Text) :
    ∃ after report, (parse source).reorganize? options = some (after, report)
      ∧ (report.isChanged = false ↔ after = parse source)
      ∧ (after = parse source ↔ after.table = (parse source).table)
      ∧ (report.isChanged = false → after.print? = some source
        ∧ ∀ data, (Encoding.decode data).1 = source →
          reorganizeData options data = (data, report)) := by
  have unchanged_iff := isChanged_reorganize_iff options (parse source)
  have arena := isArena_parse source
  refine ⟨((parse source).reorganize options).1, ((parse source).reorganize options).2,
    reorganize?_parse options source, unchanged_iff, ?_, ?_⟩
  · constructor
    · exact congrArg table
    · exact (arena.reorganize options).ext arena
  · intro unchanged
    constructor
    · rw [unchanged_iff.mp unchanged]
      exact print?_parse source
    · intro data holds
      have report : (reorganizeText options source).2
          = ((parse source).reorganize options).2 := rfl
      simp only [reorganizeData, holds, report, unchanged, Bool.false_eq_true, if_false]

end Tree

end Lineup
