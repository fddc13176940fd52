import Lineup.Proofs.Placement
import Lineup.Proofs.Syntax.Ownership

/-!
# The table of the nodes

The nodes of a tree, in the order of their numbers, are a table in which a parent names
its children by their numbers. For a parsed file the table describes a tree: the file
itself has the number 0, every other node is named once, by the file or by a node with a
larger number, and only nodes of the right kinds own lists and stand in them. Putting
the file in order keeps all this. So a printer that follows the numbers from the root on
comes to every node once.
-/

namespace Lineup

/-- The table of the nodes of a tree describes a tree. -/
structure Tree.IsArena (tree : Tree) : Prop where
  root : tree.root = 0
  /-- Every node stands at the place that its number says. -/
  numbers : tree.nodes.map Node.id = List.range tree.nodes.length
  top : tree.nodes[0]? = some tree.top
  whole : ∀ node ∈ tree.nodes, node.kind = .compilationUnit ↔ node.id = 0
  children : ∀ node ∈ tree.nodes, ∀ child ∈ node.children,
    tree.nodes[child.id]? = some child ∧ child.id ≠ 0
  /-- Every node but the first is named once. -/
  once : ∀ number, 0 < number → number < tree.nodes.length →
    (tree.nodes.flatMap fun node => node.children.map Node.id).count number = 1
  parents : ∀ node ∈ tree.nodes, ∀ child ∈ node.children, node.id = 0
    ∨ child.id < node.id
  lists : ∀ node ∈ tree.nodes, node.ListsWell

/-- What is left to print: texts, and nodes that are told by their numbers. -/
inductive Pending where
  | text (content : Text)
  | node (number : Nat)

/-- What a segment leaves to print. -/
def Segment.pending : Segment → List Pending
  | .text content => [.text content]
  | .node child => [.node child.id]
  | .list _ items => items.map fun item => .node item.id

/-- Printing from the table: the numbers of the nodes that are visited on the way, and
the text that is printed. -/
inductive Tree.Prints (tree : Tree) : List Pending → List Nat → Text → Prop where
  | done : tree.Prints [] [] []
  | text {content out : Text} {pending : List Pending} {visited : List Nat}
      (later : tree.Prints pending visited out) :
      tree.Prints (.text content :: pending) visited (content ++ out)
  | node {number : Nat} {node : Node} {out : Text} {pending : List Pending}
        {visited : List Nat}
      (found : tree.nodes[number]? = some node)
      (later : tree.Prints (.text node.leading :: (node.segments.flatMap Segment.pending
        ++ .text node.trailing :: pending)) visited out) :
      tree.Prints (.node number :: pending) (number :: visited) out

mutual

theorem Node.update_id (number : Nat) : (node : Node) → node.update number id = node
  | .mk info segments => by
      rw [Node.update, Segment.updateAll_id number segments]
      exact ite_self _

theorem Segment.update_id (number : Nat) :
    (segment : Segment) → segment.update number id = segment
  | .text content => by rw [Segment.update]
  | .node child => by rw [Segment.update, Node.update_id number child]
  | .list kind items => by rw [Segment.update, Node.updateAll_id number items]

theorem Segment.updateAll_id (number : Nat) :
    (segments : List Segment) → Segment.updateAll number id segments = segments
  | [] => by rw [Segment.updateAll]
  | segment :: segments => by
      rw [Segment.updateAll, Segment.update_id number segment,
        Segment.updateAll_id number segments]

theorem Node.updateAll_id (number : Nat) :
    (nodes : List Node) → Node.updateAll number id nodes = nodes
  | [] => by rw [Node.updateAll]
  | node :: nodes => by
      rw [Node.updateAll, Node.update_id number node, Node.updateAll_id number nodes]

end

namespace Node

theorem flatMap_children_family (node : Node) :
    (node.family.flatMap Node.children).Perm (node.children.flatMap Node.family) := by
  induction node using Node.induction with
  | step node ih =>
      have parted : node.children.flatMap Node.family
          = node.children.flatMap fun child =>
            [child] ++ child.children.flatMap Node.family := by
        simp only [List.singleton_append, ← Node.family_children]
      rw [Node.family_children node, List.flatMap_cons, List.flatMap_assoc, parted]
      have below := List.Perm.flatMap_left node.children ih
      apply (below.append_left node.children).trans
      have both := List.flatMap_append_perm node.children (fun child => [child])
        fun child => child.children.flatMap Node.family
      rwa [List.flatMap_singleton'] at both

theorem mem_finished (node : Node) : node ∈ node.finished := by
  rw [Node.finished_children]
  exact List.mem_append_right _ (List.mem_singleton_self node)

theorem child_before {child other : Node} (below : child ∈ other.children)
    (node : Node) :
    other ∈ node.finished → [child, other].Sublist node.finished := by
  induction node using Node.induction with
  | step node ih =>
      intro member
      rw [Node.finished_children] at member ⊢
      cases List.mem_append.mp member with
      | inl earlier =>
          obtain ⟨inner, present, within⟩ := List.mem_flatMap.mp earlier
          have first := ih inner present within
          have part := List.sublist_flatten_of_mem
            (List.mem_map_of_mem (f := Node.finished) present)
          exact (first.trans part).trans (List.sublist_append_left _ _)
      | inr own =>
          obtain rfl := List.mem_singleton.mp own
          have before := List.mem_flatMap.mpr ⟨child, below, child.mem_finished⟩
          exact (List.singleton_sublist.mpr before).append (List.Sublist.refl [other])

end Node

namespace Tree

variable {tree : Tree}

theorem nodes_perm (tree : Tree) : tree.nodes.Perm tree.top.family := sortBy_perm _ _

theorem pairwise_nodes (tree : Tree) :
    (tree.nodes.map Node.id).Pairwise fun first second => first ≤ second := by
  have sorted : tree.nodes.Pairwise fun first second =>
      decide (first.id ≤ second.id) = true :=
    sortBy_pairwise (fun first second => by simpa using Nat.le_total first.id second.id)
      (fun first second third => by simpa using Nat.le_trans) _
  rw [List.pairwise_map]
  simpa using sorted

theorem numbers_of_perm {total : Nat}
    (perm : (tree.top.family.map Node.id).Perm (List.range total)) :
    tree.nodes.map Node.id = List.range tree.nodes.length := by
  have same := ((nodes_perm tree).map Node.id).trans perm
  have length : tree.nodes.length = total := by simpa using same.length_eq
  rw [length]
  have range : (List.range total).Pairwise fun first second => first ≤ second :=
    List.pairwise_lt_range.imp Nat.le_of_lt
  exact same.eq_of_pairwise (fun _ _ _ _ => Nat.le_antisymm) (pairwise_nodes tree) range

theorem getElem?_id (numbers : tree.nodes.map Node.id = List.range tree.nodes.length)
    {node : Node} (member : node ∈ tree.nodes) : tree.nodes[node.id]? = some node := by
  obtain ⟨place, inside, rfl⟩ := List.getElem_of_mem member
  have number := congrArg (·[place]?) numbers
  simp only [List.getElem?_map, List.getElem?_range inside,
    List.getElem?_eq_getElem inside, Option.map_some, Option.some.injEq] at number
  rw [number, List.getElem?_eq_getElem inside]

theorem IsArena.of_family {total : Nat} (root : tree.root = 0) (top : tree.top.id = 0)
    (perm : (tree.top.family.map Node.id).Perm (List.range total))
    (whole : ∀ node ∈ tree.top.family, node.kind = .compilationUnit ↔ node.id = 0)
    (parents : ∀ node ∈ tree.top.family, ∀ child ∈ node.children,
      node.id = 0 ∨ child.id < node.id)
    (lists : ∀ node ∈ tree.top.family, node.ListsWell) : tree.IsArena := by
  have numbers := numbers_of_perm perm
  have same := nodes_perm tree
  have below := tree.top.flatMap_children_family
  -- The numbers below the top node are those of the table without 0.
  have others : ((tree.top.children.flatMap Node.family).map Node.id).Perm
      (List.range' 1 (tree.nodes.length - 1)) := by
    have all := (same.map Node.id).symm
    rw [numbers, Node.family_children, List.map_cons, top] at all
    cases size : tree.nodes.length with
    | zero =>
        rw [size] at all
        simpa using all.length_eq
    | succ count =>
        rw [size, List.range_eq_range', List.range'_succ] at all
        exact all.cons_inv
  have among {node child : Node} (member : node ∈ tree.nodes)
      (under : child ∈ node.children) :
      child ∈ tree.top.children.flatMap Node.family :=
    below.subset (List.mem_flatMap.mpr ⟨node, same.subset member, under⟩)
  constructor
  · exact root
  · exact numbers
  · have first := getElem?_id numbers
      (same.symm.subset (Node.family_eq tree.top ▸ List.mem_cons_self))
    rwa [top] at first
  · intro node member
    exact whole node (same.subset member)
  · intro node member child under
    have inner := among member under
    constructor
    · apply getElem?_id numbers
      apply same.symm.subset
      rw [Node.family_children]
      exact List.mem_cons_of_mem _ inner
    · have number := others.subset (List.mem_map_of_mem (f := Node.id) inner)
      rw [List.mem_range'_1] at number
      omega
  · intro number positive inside
    have children : (tree.nodes.flatMap fun node => node.children.map Node.id).Perm
        (List.range' 1 (tree.nodes.length - 1)) := by
      rw [← List.map_flatMap]
      exact (((same.flatMap_right Node.children).trans below).map Node.id).trans others
    rw [children.count_eq]
    apply List.count_eq_one_of_mem List.nodup_range'
    rw [List.mem_range'_1]
    omega
  · intro node member
    exact parents node (same.subset member)
  · intro node member
    exact lists node (same.subset member)

end Tree

namespace Parser

/-- The nodes of a file: the file itself has the number 0 and owns lists of using
directives only, and the others are no whole files. -/
theorem File.family {source : List Token} {top : Node} (file : File source top) :
    top.id = 0 ∧ top.kind = .compilationUnit ∧ top.ListsWell
      ∧ ∀ node ∈ top.children.flatMap Node.family, Placeable node := by
  cases file with
  | @intro nodes tokens tail parsed trivia all =>
      refine ⟨rfl, rfl, ?_, ?_⟩
      · intro listed items member
        rw [Node.segments, Scope.body_items, Body.segments, List.mem_append] at member
        cases member with
        | inl within =>
            obtain ⟨rfl, directives⟩ := list_gather within
            exact ⟨.inl rfl, directives⟩
        | inr after => split at after <;> simp at after
      · rw [children_file]
        exact parsed.placeable.2

end Parser

namespace Tree

theorem child_lt_parse {source : Text} {node child : Node}
    (member : node ∈ (parse source).top.children.flatMap Node.family)
    (below : child ∈ node.children) : child.id < node.id := by
  obtain ⟨total, numbers⟩ := finished_parse source
  have ascending : (Segment.finishedAll (parse source).top.segments).Pairwise
      fun first second => first.id < second.id := by
    rw [← List.pairwise_map (f := Node.id), numbers]
    exact List.pairwise_lt_range'
  obtain ⟨eldest, present, within⟩ := List.mem_flatMap.mp member
  have before := Node.child_before below eldest
    (eldest.finished_perm.symm.subset within)
  rw [Segment.finishedAll_eq] at ascending
  have part := List.sublist_flatten_of_mem
    (List.mem_map_of_mem (f := Node.finished) present)
  have pair := ascending.sublist (before.trans part)
  exact List.rel_of_pairwise_cons pair (List.mem_singleton_self node)

/-- The table of a parsed file describes a tree. -/
theorem isArena_parse (source : Text) : (parse source).IsArena := by
  obtain ⟨top, whole, lists, placeable⟩ := (Parser.parse_file source).family
  obtain ⟨total, perm⟩ := numbers_parse source
  have distinct := nodup_numbers_parse source
  rw [Node.family_children, List.map_cons, List.nodup_cons] at distinct
  apply IsArena.of_family rfl top perm
  · rw [Node.family_children, List.forall_mem_cons]
    refine ⟨iff_of_true whole top, ?_⟩
    intro node member
    apply iff_of_false (placeable node member).kind
    intro zero
    rw [top, ← zero] at distinct
    exact distinct.1 (List.mem_map_of_mem member)
  · rw [Node.family_children, List.forall_mem_cons]
    refine ⟨fun child _ => .inl top, ?_⟩
    intro node member child below
    exact .inr (child_lt_parse member below)
  · rw [Node.family_children, List.forall_mem_cons]
    exact ⟨lists, fun node member => (placeable node member).lists⟩

end Tree

theorem Segment.Matches.children {before after : Segment}
    (same : Segment.Matches before after) :
    (after.children.map Node.id).Perm (before.children.map Node.id) := by
  cases same with
  | text content => exact .refl _
  | @node before after same =>
      have number : after.id = before.id := congrArg Prod.fst same
      rw [Segment.children, Segment.children, List.map_singleton, List.map_singleton,
        number]
  | list kind items => exact items.1

theorem Node.Matches.children {before after : Node} (same : Node.Matches before after) :
    (after.children.map Node.id).Perm (before.children.map Node.id) := by
  rw [Node.children, Node.children]
  generalize before.segments = segments, after.segments = others, same.segments = each
  induction each with
  | nil => exact .refl _
  | cons first _ ih =>
      rw [List.flatMap_cons, List.flatMap_cons, List.map_append, List.map_append]
      exact first.children.append ih

namespace Node.Becomes

variable {options : Options} {source : Text} {before after : Node}

theorem kind (becomes : Node.Becomes options source before after) :
    after.kind = before.kind := by
  rw [Arrange.Twin.kind becomes, Node.kind,
    (Node.reorganize_isInner options source).info, Node.kind]

theorem children (becomes : Node.Becomes options source before after) :
    (after.children.map Node.id).Perm (before.children.map Node.id) :=
  ((Node.reorganize_matches options source before).twin becomes).children

/-- Rearranged lists keep their owners and the kinds of their items. -/
theorem listsWell (becomes : Node.Becomes options source before after)
    (well : before.ListsWell) :
    after.ListsWell := by
  have inner := Node.reorganize_isInner options source
  intro listed items member
  rw [becomes.kind]
  rw [Arrange.Twin.segments becomes] at member
  cases before with
  | mk info segments =>
      rw [Node.reorganize, Node.segments, Segment.reorganizeAll_fst] at member
      obtain ⟨segment, present, same⟩ := List.mem_map.mp member
      cases segment with
      | text content => simp [Segment.reorganize] at same
      | node child => simp [Segment.reorganize] at same
      | list kind old =>
          simp only [Segment.reorganize, Node.reorganizeAll_fst,
            Segment.list.injEq] at same
          obtain ⟨rfl, rfl⟩ := same
          obtain ⟨owner, accepts⟩ := well kind old present
          refine ⟨owner, ?_⟩
          intro item among
          -- The item is one from before, up to the trivia around it.
          obtain ⟨order, perm, twins⟩ := Arrange.list_twin options source
            (AccessLevel.default info.kind) kind
              (old.map fun node => (node.reorganize options source).1)
          obtain ⟨settled, placed, twin⟩ := exists_of_forall₂ twins among
          obtain ⟨earlier, was, rfl⟩ := List.mem_map.mp (perm.subset placed)
          have same : item.kind = earlier.kind := by
            rw [twin.kind, Node.kind, inner.info, Node.kind]
          rw [same]
          exact accepts earlier was

end Node.Becomes

namespace Tree

variable {tree : Tree}

theorem IsArena.id_top (arena : tree.IsArena) : tree.top.id = 0 := by
  have zero := congrArg (·[0]?) arena.numbers
  have positive : 0 < tree.nodes.length := (List.getElem?_eq_some_iff.mp arena.top).1
  simpa [arena.top, List.getElem?_range positive] using zero

theorem IsArena.node?_root (arena : tree.IsArena) :
    tree.node? tree.root = some tree.top := by
  rw [node?, arena.root, Node.family_eq]
  simp [arena.id_top]

/-- Putting a tree in order keeps its table that of a tree. -/
theorem IsArena.reorganize (arena : tree.IsArena) (options : Options) :
    (tree.reorganize options).1.IsArena := by
  have same := nodes_perm tree
  obtain ⟨order, each, perm⟩ := Node.family_becomes options tree.source tree.top
  have from_ {node : Node} (member : node ∈ (tree.reorganize options).1.top.family) :
      ∃ old ∈ tree.nodes, Node.Becomes options tree.source old node := by
    obtain ⟨old, present, becomes⟩ := exists_of_forall₂ each (perm.symm.subset member)
    exact ⟨old, same.symm.subset present, becomes⟩
  apply IsArena.of_family
  · exact arena.root
  · rw [← arena.id_top]
    exact congrArg NodeInfo.id
      ((Node.reorganize_isInner options tree.source).info tree.top)
  · have numbers : order.map Node.id = tree.top.family.map Node.id :=
      map_eq_of_forall₂ (fun _ _ becomes => Node.Becomes.id becomes) each
    have kept := (perm.map Node.id).symm
    rw [numbers] at kept
    apply kept.trans
    rw [← arena.numbers]
    exact (same.map Node.id).symm
  · intro node member
    obtain ⟨old, present, becomes⟩ := from_ member
    rw [becomes.kind, becomes.id]
    exact arena.whole old present
  · intro node member child below
    obtain ⟨old, present, becomes⟩ := from_ member
    have number := becomes.children.subset (List.mem_map_of_mem (f := Node.id) below)
    obtain ⟨earlier, under, is⟩ := List.mem_map.mp number
    rw [becomes.id, ← is]
    exact arena.parents old present earlier under
  · intro node member
    obtain ⟨old, present, becomes⟩ := from_ member
    exact becomes.listsWell (arena.lists old present)

namespace Prints

variable {pending : List Pending} {visited : List Nat} {out : Text}

theorem nodes {nodes : List Node}
    (each : ∀ node ∈ nodes, ∀ pending visited out, tree.Prints pending visited out →
      tree.Prints (.node node.id :: pending) (node.family.map Node.id ++ visited)
        (node.print ++ out))
    (later : tree.Prints pending visited out) :
    tree.Prints (nodes.map (fun node => .node node.id) ++ pending)
      ((nodes.flatMap Node.family).map Node.id ++ visited)
        (Node.printAll nodes ++ out) := by
  induction nodes with
  | nil => simpa using later
  | cons node nodes ih =>
      obtain ⟨first, others⟩ := List.forall_mem_cons.mp each
      simpa using first _ _ _ (ih others)

theorem segments {segments : List Segment}
    (each : ∀ node ∈ segments.flatMap Segment.children, ∀ pending visited out,
      tree.Prints pending visited out → tree.Prints (.node node.id :: pending)
        (node.family.map Node.id ++ visited) (node.print ++ out))
    (later : tree.Prints pending visited out) :
    tree.Prints (segments.flatMap Segment.pending ++ pending)
      (((segments.flatMap Segment.children).flatMap Node.family).map Node.id ++ visited)
      (Segment.printAll segments ++ out) := by
  induction segments with
  | nil => simpa using later
  | cons segment segments ih =>
      rw [List.flatMap_cons, List.forall_mem_append] at each
      have rest := ih each.2
      cases segment with
      | text content => simpa [Segment.pending, Segment.children] using rest.text
      | node child =>
          simpa [Segment.pending, Segment.children] using
            each.1 child (List.mem_singleton_self child) _ _ _ rest
      | list kind items =>
          simpa [Segment.pending, Segment.children] using Prints.nodes each.1 rest

/-- Printing a node visits its family, each node once. -/
theorem family (found : ∀ node ∈ tree.top.family, tree.nodes[node.id]? = some node)
    (node : Node) :
    node.family ⊆ tree.top.family →
      ∀ pending visited out, tree.Prints pending visited out →
      tree.Prints (.node node.id :: pending) (node.family.map Node.id ++ visited)
        (node.print ++ out) := by
  induction node using Node.induction with
  | step node ih =>
      intro within pending visited out later
      rw [Node.family_children, List.cons_subset] at within
      have parts : tree.Prints (node.segments.flatMap Segment.pending
          ++ .text node.trailing :: pending) ((node.children.flatMap Node.family).map
            Node.id ++ visited)
          (Segment.printAll node.segments ++ (node.trailing ++ out)) := by
        apply Prints.segments _ later.text
        intro child below
        apply ih child below
        intro other member
        exact within.2 (List.mem_flatMap.mpr ⟨child, below, member⟩)
      have whole := Prints.node (found node within.1) parts.text
      rw [Node.family_children]
      cases node with
      | mk info segments =>
          simpa [Node.leading, Node.trailing, Node.segments, Node.info] using whole

end Prints

/-- A printer that follows the numbers from the root on prints the tree and visits every
node once. -/
theorem IsArena.prints (arena : tree.IsArena) : ∃ visited out, tree.print? = some out
    ∧ tree.Prints [.node 0] visited out
    ∧ visited.Perm (List.range tree.nodes.length) := by
  have same := nodes_perm tree
  have found : ∀ node ∈ tree.top.family, tree.nodes[node.id]? = some node := by
    intro node member
    exact getElem?_id arena.numbers (same.symm.subset member)
  have printed := Prints.family found tree.top (List.Subset.refl _) [] [] [] .done
  rw [arena.id_top, List.append_nil, List.append_nil] at printed
  refine ⟨_, _, ?_, printed, ?_⟩
  · rw [print?, arena.node?_root, Option.map_some]
  · rw [← arena.numbers]
    exact (same.map Node.id).symm

theorem clone_eq (tree : Tree) : tree.clone = tree := by
  rw [clone, update, Node.update_id]

/-- The nodes of every parsed file make a tree, copying it and putting it in order keep
it one, and printing it visits every node once. -/
theorem arena_parse (source : Text) : (parse source).IsArena
    ∧ (∀ tree : Tree, tree.IsArena → tree.clone.IsArena)
    ∧ (∀ (tree : Tree) (options : Options), tree.IsArena →
      ∃ after report, tree.reorganize? options = some (after, report) ∧ after.IsArena)
    ∧ ∀ tree : Tree, tree.IsArena → ∃ visited out, tree.print? = some out
      ∧ tree.Prints [.node 0] visited out
      ∧ visited.Perm (List.range tree.nodes.length) := by
  refine ⟨isArena_parse source, ?_, ?_, fun tree => IsArena.prints⟩
  · intro tree arena
    rw [clone_eq]
    exact arena
  · intro tree options arena
    have whole := (arena.whole tree.top (List.mem_of_getElem? arena.top)).mpr
      arena.id_top
    exact ⟨_, _, reorganize?_of_root arena.node?_root whole, arena.reorganize options⟩

end Tree

end Lineup
