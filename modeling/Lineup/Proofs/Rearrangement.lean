import Mathlib.Data.List.Nodup
import Lineup.Proofs.Arrange
import Lineup.Proofs.Syntax.Numbering

/-!
# What reorganizing a file leaves alone

Putting a file in order changes the order of list items and the trivia around them, and
nothing else. Node by node, the tree keeps kinds, heads, texts and children. In a list
that is sorted every item keeps its own lines of comments, the header of the list stays
in front, and at most one line end moves from the new last item to the old one.
-/

namespace Lineup

namespace Arrange

open TriviaLine (contents)

/-- What stays of an item that comes to stand at `place` of a list that is sorted. The
lines of its trivia are its own, up to blank lines, behind the header at the first
place; and its trailing trivia is its own, up to the line end that the item at the last
place gives to the one that was there. -/
structure Kept (header : List TriviaLine) (lineEnd : Text) (last place : Nat)
    (entry : Entry) (item : Node) : Prop where
  id : item.id = entry.node.id
  lines : ∃ own,
    TriviaLine.split item.leading = (if place = 0 then header else []) ++ own
    ∧ contents own = contents entry.lines
  trailing : item.trailing
    ++ (if place = last ∧ entry.position ≠ last then lineEnd else [])
    = entry.node.trailing
      ++ (if entry.position = last ∧ place ≠ last then lineEnd else [])

/-- The items `after` are those of a list in another order. -/
inductive Rearranged (items after : List Node) : Prop where
  | intro (order : List Entry) (lineEnd : Text) (perm : order.Perm (entries items).2)
      (ends : lineEnd ∈ lineEnds) (size : after.length = order.length)
      (kept : ∀ place entry item, order[place]? = some entry →
        after[place]? = some item →
        Kept (entries items).1 lineEnd (items.length - 1) place entry item)

/-- What a parent sees of an item. -/
def outline (node : Node) : Nat × Text × Text :=
  (node.id, node.leading, node.trailing)

/-- What becomes of the items of a list: they are rearranged when there are two of them
or more and no preprocessor line stands between them, and left as they are otherwise. -/
def Matches (before after : List Node) : Prop :=
  (after.map Node.id).Perm (before.map Node.id) ∧
    if 2 ≤ before.length ∧ isReorderable (entries before).2 = true then
      Rearranged before after
    else after.map outline = before.map outline

end Arrange

/-- What becomes of a segment. Children are told by their numbers, since they are nodes
of the tree themselves. -/
inductive Segment.Matches : Segment → Segment → Prop where
  | text (content : Text) : Segment.Matches (.text content) (.text content)
  | node {before after : Node} (same : Arrange.outline after = Arrange.outline before) :
      Segment.Matches (.node before) (.node after)
  | list (kind : ListKind) {before after : List Node}
        (items : Arrange.Matches before after) :
      Segment.Matches (.list kind before) (.list kind after)

/-- What becomes of a node, apart from the trivia around it, which its parent accounts
for. -/
structure Node.Matches (before after : Node) : Prop where
  id : after.id = before.id
  kind : after.kind = before.kind
  head : after.head = before.head
  segments : List.Forall₂ Segment.Matches before.segments after.segments

theorem forall₂_comp {α β γ : Type} {first : α → β → Prop} {second : β → γ → Prop}
    {both : α → γ → Prop}
    (comp : ∀ left middle right, first left middle → second middle right →
      both left right)
    {items : List α} {middle : List β} {others : List γ}
    (left : List.Forall₂ first items middle)
    (right : List.Forall₂ second middle others) :
    List.Forall₂ both items others := by
  induction left generalizing others with
  | nil =>
      cases right
      exact .nil
  | cons related _ ih =>
      cases right with
      | cons next rest => exact .cons (comp _ _ _ related next) (ih rest)

theorem exists_of_forall₂ {α β : Type} {related : α → β → Prop} {items : List α}
    {others : List β} (each : List.Forall₂ related items others) {other : β}
    (member : other ∈ others) :
    ∃ item ∈ items, related item other := by
  induction each with
  | nil => cases member
  | cons first _ ih =>
      cases List.mem_cons.mp member with
      | inl same => exact ⟨_, List.mem_cons_self, same ▸ first⟩
      | inr later =>
          obtain ⟨item, among, relates⟩ := ih later
          exact ⟨item, List.mem_cons_of_mem _ among, relates⟩

/-- Related lists agree in what the relation keeps. -/
theorem map_eq_of_forall₂ {α β γ : Type} {related : α → β → Prop} {view : α → γ}
    {other : β → γ} (same : ∀ left right, related left right → other right = view left)
    {items : List α} {others : List β} (all : List.Forall₂ related items others) :
    others.map other = items.map view := by
  induction all with
  | nil => rfl
  | cons first _ ih => rw [List.map_cons, List.map_cons, same _ _ first, ih]

namespace Arrange

/-- Two nodes that differ in the trivia around them at most. -/
structure Twin (left right : Node) : Prop where
  id : right.id = left.id
  kind : right.kind = left.kind
  head : right.head = left.head
  segments : right.segments = left.segments

theorem Twin.refl (node : Node) : Twin node node := ⟨rfl, rfl, rfl, rfl⟩

theorem padFrom_twin (separateMoved : Bool) (previous : Text) (place : Nat)
    (entries : List Entry) :
    List.Forall₂ Twin (entries.map Entry.node)
      (padFrom separateMoved previous place entries) := by
  induction entries generalizing previous place with
  | nil => exact .nil
  | cons entry entries ih =>
      refine .cons ?_ (ih _ _)
      constructor <;> simp [Node.id, Node.kind, Node.head]

theorem pad_twin (separateMoved : Bool) (header : List TriviaLine)
    (entries : List Entry) :
    List.Forall₂ Twin (entries.map Entry.node) (pad separateMoved header entries) := by
  cases entries with
  | nil => exact .nil
  | cons entry entries =>
      refine .cons ?_ (padFrom_twin _ _ _ _)
      constructor <;> simp [Node.id, Node.kind, Node.head]

theorem settle_twin (sorted : List Entry) :
    List.Forall₂ Twin (sorted.map Entry.node) ((settle sorted).map Entry.node) := by
  rcases settle_cases sorted with ⟨same, -⟩ | ⟨new, -, -, -, settled⟩
  · rw [same]
    exact List.forall₂_same.mpr fun node _ => .refl node
  · rw [settled, List.map_map, List.forall₂_map_left_iff, List.forall₂_map_right_iff]
    refine List.forall₂_same.mpr fun entry _ => ?_
    simp only [Function.comp_apply, Entry.handOver]
    split
    · constructor <;> simp [Node.id, Node.kind, Node.head]
    split
    · constructor <;> simp [Node.id, Node.kind, Node.head]
    · exact .refl _

theorem Twin.trans {left middle right : Node} (first : Twin left middle)
    (second : Twin middle right) : Twin left right :=
  ⟨second.id.trans first.id, second.kind.trans first.kind, second.head.trans first.head,
    second.segments.trans first.segments⟩

/-- The items of a list that is sorted are those of its entries in order, up to the
trivia around them. -/
theorem list_twin_order (options : Options) (source : Text) (fallback : AccessLevel)
    (kind : ListKind) {items : List Node}
    (sorts : ¬ (items.length < 2 ∨ isReorderable (entries items).2 = false)) :
    List.Forall₂ Twin ((order options source fallback kind (entries items).2).map
      Entry.node) (list options source fallback kind items).1 := by
  rw [list_fst, if_neg sorts]
  exact forall₂_comp (fun _ _ _ => .trans) (settle_twin _) (pad_twin _ _ _)

/-- The items of a rearranged list are those from before in another order, up to the
trivia around them. -/
theorem list_twin (options : Options) (source : Text) (fallback : AccessLevel)
    (kind : ListKind) (items : List Node) :
    ∃ order, order.Perm items
      ∧ List.Forall₂ Twin order (list options source fallback kind items).1 := by
  by_cases stays : items.length < 2 ∨ isReorderable (entries items).2 = false
  · rw [list_fst, if_pos stays]
    exact ⟨items, .refl _, List.forall₂_same.mpr fun node _ => .refl node⟩
  · have perm := (order_perm options source fallback kind (entries items).2).map
      Entry.node
    rw [entries_nodes] at perm
    exact ⟨_, perm, list_twin_order options source fallback kind stays⟩

end Arrange

theorem Node.familyAll_twin {nodes others : List Node}
    (twins : List.Forall₂ Arrange.Twin nodes others) :
    List.Forall₂ Arrange.Twin (Node.familyAll nodes) (Node.familyAll others) := by
  induction twins with
  | nil => exact .nil
  | cons twin _ ih =>
      rw [Node.familyAll_cons, Node.familyAll_cons, Node.family_eq, Node.family_eq,
        twin.segments]
      refine .cons twin (List.rel_append
        (List.forall₂_same.mpr fun node _ => .refl node) ih)

theorem Node.familyAll_perm {nodes others : List Node} (perm : nodes.Perm others) :
    (Node.familyAll nodes).Perm (Node.familyAll others) := by
  rw [Node.familyAll_eq, Node.familyAll_eq]
  exact perm.flatMap_right _

theorem Arrange.familyAll_list (options : Options) (source : Text)
    (fallback : AccessLevel) (kind : ListKind) (items : List Node) :
    ∃ order, List.Forall₂ Arrange.Twin (Node.familyAll items) order
      ∧ order.Perm (Node.familyAll (list options source fallback kind items).1) := by
  obtain ⟨order, perm, twins⟩ := list_twin options source fallback kind items
  exact List.perm_comp_forall₂ (Node.familyAll_perm perm.symm)
    (Node.familyAll_twin twins)

namespace Arrange

variable {change : Node → Node}

theorem map_outline (inner : IsInner change) (nodes : List Node) :
    (nodes.map change).map outline = nodes.map outline := by
  simp [outline, Node.id, Node.leading, Node.trailing, inner.info]

/-- The items of a rearranged list are a permutation of the items. -/
theorem list_ids (options : Options) (source : Text) (fallback : AccessLevel)
    (kind : ListKind) (items : List Node) :
    ((list options source fallback kind items).1.map Node.id).Perm
      (items.map Node.id) := by
  obtain ⟨order, perm, twins⟩ := list_twin options source fallback kind items
  rw [map_eq_of_forall₂ (fun _ _ twin => twin.id) twins]
  exact perm.map Node.id

/-- Where the items of a list that is sorted come from: the entry that comes to stand at
a place is settled there, and its item gets the trivia that belongs to the place. -/
theorem list_getElem? (options : Options) (source : Text) (fallback : AccessLevel)
    (kind : ListKind) {items : List Node}
    (sorts : ¬ (items.length < 2 ∨ isReorderable (entries items).2 = false))
    {place : Nat} {entry : Entry}
    (found : (order options source fallback kind (entries items).2)[place]?
      = some entry) :
    ∃ settled leading, (list options source fallback kind items).1[place]?
        = some (settled.node.withLeading leading)
      ∧ Settled (movedLineEnd (order options source fallback kind (entries items).2))
        (items.length - 1) place entry settled
      ∧ Leads (separates kind) (entries items).1 settled place leading
      ∧ ∃ tokens, TriviaLine.Lines settled.lines tokens := by
  rw [list_fst, if_neg sorts]
  have perm := order_perm options source fallback kind (entries items).2
  generalize order options source fallback kind (entries items).2 = sorted at perm found
  have positions := perm.map Entry.position
  rw [entries_positions] at positions
  have distinct : (sorted.map Entry.position).Nodup :=
    positions.nodup_iff.mpr List.nodup_range
  have size : sorted.length = items.length := by simpa using positions.length_eq
  obtain ⟨settled, at_, changed⟩ := settle_settled distinct found
  obtain ⟨leading, padded, leads⟩ := pad_getElem? at_
  obtain ⟨tokens, lines⟩ :=
    entries_lines items entry (perm.mem_iff.mp (List.mem_of_getElem? found))
  rw [size] at changed
  rw [← changed.lines] at lines
  exact ⟨settled, leading, padded, changed, leads, tokens, lines⟩

theorem list_length (options : Options) (source : Text) (fallback : AccessLevel)
    (kind : ListKind) (items : List Node) :
    (list options source fallback kind items).1.length = items.length := by
  have perm := list_ids options source fallback kind items
  simpa using perm.length_eq

/-- Every item of a sorted list comes from an entry. -/
theorem list_placed (options : Options) (source : Text) (fallback : AccessLevel)
    (kind : ListKind) {items : List Node}
    (sorts : ¬ (items.length < 2 ∨ isReorderable (entries items).2 = false))
    {place : Nat} {item : Node}
    (placed : (list options source fallback kind items).1[place]? = some item) :
    ∃ entry settled leading, entry ∈ (entries items).2
      ∧ item = settled.node.withLeading leading
      ∧ Settled (movedLineEnd (order options source fallback kind (entries items).2))
        (items.length - 1) place entry settled
      ∧ Leads (separates kind) (entries items).1 settled place leading
      ∧ ∃ tokens, TriviaLine.Lines settled.lines tokens := by
  have perm := order_perm options source fallback kind (entries items).2
  have inside : place
      < (order options source fallback kind (entries items).2).length := by
    rw [perm.length_eq, entries_length,
      ← list_length options source fallback kind items]
    exact (List.getElem?_eq_some_iff.mp placed).1
  obtain ⟨settled, leading, padded, changed, leads, lines⟩ :=
    list_getElem? options source fallback kind sorts (List.getElem?_eq_getElem inside)
  rw [padded] at placed
  exact ⟨_, settled, leading, perm.mem_iff.mp (List.getElem_mem inside),
    (Option.some.inj placed).symm, changed, leads, lines⟩

/-- A list that is sorted is rearranged. -/
theorem rearranged_list (options : Options) (source : Text) (fallback : AccessLevel)
    (kind : ListKind) {items : List Node} (inner : IsInner change)
    (sorts : ¬ (items.length < 2 ∨ isReorderable (entries items).2 = false)) :
    Rearranged items ((list options source fallback kind items).1.map change) := by
  have perm := order_perm options source fallback kind (entries items).2
  refine .intro _ _ perm
    (movedLineEnd_mem (order options source fallback kind (entries items).2)) ?_ ?_
  · rw [List.length_map, list_length, perm.length_eq, entries_length]
  · intro place entry item found placed
    obtain ⟨settled, leading, padded, changed, leads, tokens, lines⟩ :=
      list_getElem? options source fallback kind sorts found
    rw [List.getElem?_map, padded] at placed
    obtain rfl := Option.some.inj placed
    obtain ⟨trailing, node, ends⟩ := changed.node
    obtain ⟨own, parted, same, -⟩ := leads.split lines
    refine ⟨?_, ⟨own, ?_, same.trans (congrArg _ changed.lines)⟩, ?_⟩
    · simp [Node.id, inner.info, node]
    · simpa [Node.leading, inner.info] using parted
    · simpa [Node.trailing, inner.info, node] using ends

theorem list_matches (options : Options) (source : Text) (fallback : AccessLevel)
    (kind : ListKind) (items : List Node) (inner : IsInner change) :
    Matches items ((list options source fallback kind items).1.map change) := by
  refine ⟨?_, ?_⟩
  · have same : ((list options source fallback kind items).1.map change).map Node.id
        = (list options source fallback kind items).1.map Node.id := by
      simp [Node.id, inner.info]
    rw [same]
    exact list_ids options source fallback kind items
  · split
    · rename_i sorts
      refine rearranged_list options source fallback kind inner ?_
      simp only [sorts.2, not_or, Nat.not_lt]
      exact ⟨sorts.1, by simp⟩
    · rename_i stays
      rw [list_fst, if_pos, map_outline inner]
      rw [not_and_or] at stays
      exact stays.imp Nat.lt_of_not_le Bool.eq_false_iff.mpr

end Arrange

/-- Reorganizing a node is a change inside of it. -/
theorem Node.reorganize_isInner (options : Options) (source : Text) :
    Arrange.IsInner fun node => (node.reorganize options source).1 where
  info node := by
    cases node with
    | mk info segments => simp [Node.reorganize, Node.info]
  withLeading node leading := by
    cases node with
    | mk info segments => simp [Node.reorganize, Node.withLeading]
  withTrailing node trailing := by
    cases node with
    | mk info segments => simp [Node.reorganize, Node.withTrailing]

theorem Node.reorganizeAll_fst (options : Options) (source : Text) (nodes : List Node) :
    (Node.reorganizeAll options source nodes).1
      = nodes.map fun node => (node.reorganize options source).1 := by
  induction nodes with
  | nil => simp [Node.reorganizeAll]
  | cons node nodes ih => simp [Node.reorganizeAll, ih]

theorem Segment.reorganize_matches (options : Options) (source : Text)
    (fallback : AccessLevel) (segment : Segment) :
    Segment.Matches segment (segment.reorganize options source fallback).1 := by
  have inner := Node.reorganize_isInner options source
  cases segment with
  | text content =>
      simp only [Segment.reorganize]
      exact .text content
  | node child =>
      simp only [Segment.reorganize]
      refine .node ?_
      simp only [Arrange.outline, Node.id, Node.leading, Node.trailing,
        inner.info child]
  | list kind items =>
      simp only [Segment.reorganize, Node.reorganizeAll_fst, inner.list]
      exact .list kind (Arrange.list_matches options source fallback kind items inner)

theorem Segment.reorganizeAll_fst (options : Options) (source : Text)
    (fallback : AccessLevel) (segments : List Segment) :
    (Segment.reorganizeAll options source fallback segments).1
      = segments.map fun segment => (segment.reorganize options source fallback).1 := by
  induction segments with
  | nil => simp [Segment.reorganizeAll]
  | cons segment segments ih => simp [Segment.reorganizeAll, ih]

theorem Node.reorganize_matches (options : Options) (source : Text) (node : Node) :
    Node.Matches node (node.reorganize options source).1 := by
  cases node with
  | mk info segments =>
      simp only [Node.reorganize, Segment.reorganizeAll_fst]
      refine ⟨rfl, rfl, rfl, ?_⟩
      simp only [Node.segments, List.forall₂_map_right_iff]
      exact List.forall₂_same.mpr fun segment _ =>
        segment.reorganize_matches options source _

theorem Node.Matches.twin {before middle after : Node}
    (matching : Node.Matches before middle) (twin : Arrange.Twin middle after) :
    Node.Matches before after :=
  ⟨twin.id.trans matching.id, twin.kind.trans matching.kind,
    twin.head.trans matching.head, twin.segments ▸ matching.segments⟩

/-- Two forests whose nodes are related, in some order. -/
def Node.Related (related : Node → Node → Prop) (before after : List Node) : Prop :=
  ∃ order, List.Forall₂ related before order ∧ order.Perm after

theorem Node.Related.append {related : Node → Node → Prop}
    {before after before' after' : List Node}
    (first : Node.Related related before after)
    (second : Node.Related related before' after') :
    Node.Related related (before ++ before') (after ++ after') := by
  obtain ⟨order, matching, perm⟩ := first
  obtain ⟨order', matching', perm'⟩ := second
  exact ⟨order ++ order', List.rel_append matching matching', perm.append perm'⟩

/-- What a node of the tree becomes: itself, reorganized, with the trivia around it that
its parent gives it. -/
def Node.Becomes (options : Options) (source : Text) (before after : Node) : Prop :=
  Arrange.Twin (before.reorganize options source).1 after

mutual

/-- The nodes of a reorganized tree are those from before, each reorganized. -/
theorem Node.family_becomes (options : Options) (source : Text) : (node : Node) →
    Node.Related (Node.Becomes options source) node.family
      (node.reorganize options source).1.family
  | .mk info segments => by
      obtain ⟨order, becomes, perm⟩ :=
        Segment.familyAll_becomes options source (AccessLevel.default info.kind)
          segments
      refine ⟨((Node.mk info segments).reorganize options source).1 :: order,
        .cons (.refl _) becomes, ?_⟩
      simp only [Node.reorganize, Node.family]
      exact perm.cons _

theorem Segment.family_becomes (options : Options) (source : Text)
    (fallback : AccessLevel) :
    (segment : Segment) → Node.Related (Node.Becomes options source) segment.family
      (segment.reorganize options source fallback).1.family
  | .text content => by
      simp only [Segment.reorganize, Segment.family]
      exact ⟨[], .nil, .nil⟩
  | .node child => by
      simp only [Segment.reorganize, Segment.family]
      exact Node.family_becomes options source child
  | .list kind items => by
      obtain ⟨order, becomes, perm⟩ := Node.familyAll_becomes options source items
      obtain ⟨twins, twin, listed⟩ :=
        Arrange.familyAll_list options source fallback kind
        (Node.reorganizeAll options source items).1
      obtain ⟨middle, first, second⟩ := List.perm_comp_forall₂ perm twin
      simp only [Segment.reorganize, Segment.family]
      exact ⟨middle, forall₂_comp (fun _ _ _ => .trans) becomes first,
        second.trans listed⟩

theorem Segment.familyAll_becomes (options : Options) (source : Text)
    (fallback : AccessLevel) :
    (segments : List Segment) → Node.Related (Node.Becomes options source)
      (Segment.familyAll segments)
      (Segment.familyAll (Segment.reorganizeAll options source fallback segments).1)
  | [] => by
      simp only [Segment.reorganizeAll, Segment.familyAll]
      exact ⟨[], .nil, .nil⟩
  | segment :: segments => by
      simp only [Segment.reorganizeAll, Segment.familyAll]
      exact (Segment.family_becomes options source fallback segment).append
        (Segment.familyAll_becomes options source fallback segments)

theorem Node.familyAll_becomes (options : Options) (source : Text) :
    (nodes : List Node) →
    Node.Related (Node.Becomes options source) (Node.familyAll nodes)
      (Node.familyAll (Node.reorganizeAll options source nodes).1)
  | [] => by
      simp only [Node.reorganizeAll, Node.familyAll]
      exact ⟨[], .nil, .nil⟩
  | node :: nodes => by
      simp only [Node.reorganizeAll, Node.familyAll]
      exact (Node.family_becomes options source node).append
        (Node.familyAll_becomes options source nodes)

end

/-- The nodes of a reorganized tree match those from before. -/
theorem Node.family_reorganize (options : Options) (source : Text) (node : Node) :
    Node.Related Node.Matches node.family
      (node.reorganize options source).1.family := by
  obtain ⟨order, becomes, perm⟩ := Node.family_becomes options source node
  refine ⟨order, becomes.imp fun before after twin => ?_, perm⟩
  exact (Node.reorganize_matches options source before).twin twin

/-- Nodes with distinct numbers have one order by their numbers only. -/
theorem Node.sortBy_id_eq {nodes others : List Node} (perm : nodes.Perm others)
    (distinct : (nodes.map Node.id).Nodup) :
    sortBy (fun first second => first.id ≤ second.id) nodes
      = sortBy (fun first second => first.id ≤ second.id) others := by
  have ordered (nodes : List Node) :
      (sortBy (fun first second : Node => first.id ≤ second.id) nodes).Pairwise
        fun first second => first.id ≤ second.id := by
    have sorted :
        (sortBy (fun first second : Node => first.id ≤ second.id) nodes).Pairwise
        fun first second => decide (first.id ≤ second.id) = true :=
      sortBy_pairwise
        (fun first second => by simpa using Nat.le_total first.id second.id)
        (fun first second third => by simpa using Nat.le_trans) nodes
    simpa using sorted
  have sorted := sortBy_perm (fun first second : Node => first.id ≤ second.id) nodes
  have others_sorted :=
    sortBy_perm (fun first second : Node => first.id ≤ second.id) others
  refine List.Perm.eq_of_pairwise (fun first second member member' le ge => ?_)
    (ordered nodes) (ordered others) (sorted.trans (perm.trans others_sorted.symm))
  exact List.inj_on_of_nodup_map distinct (sorted.mem_iff.mp member)
    (perm.mem_iff.mpr (others_sorted.mem_iff.mp member')) (Nat.le_antisymm le ge)

theorem Node.Matches.map_id {before after : List Node}
    (matching : List.Forall₂ Node.Matches before after) :
    after.map Node.id = before.map Node.id :=
  map_eq_of_forall₂ (fun _ _ each => each.id) matching

namespace Tree

/-- A tree that stands for a whole file is not refused. -/
theorem reorganize?_of_root {options : Options} {tree : Tree} {root : Node}
    (found : tree.node? tree.root = some root) (whole : root.kind = .compilationUnit) :
    tree.reorganize? options = some (tree.reorganize options) := by
  simp only [reorganize?, found, whole, if_true, reorganize]

theorem reorganize?_parse (options : Options) (source : Text) :
    (parse source).reorganize? options = some ((parse source).reorganize options) := by
  apply reorganize?_of_root (node?_root_parse source)
  rw [Node.kind, info_top_parse]

/-- The root of a reorganized file is its top node. -/
theorem node?_root_reorganize_parse (options : Options) (source : Text) :
    ((parse source).reorganize options).1.node? (parse source).root
      = some ((parse source).top.reorganize options source).1 := by
  have info := (Node.reorganize_isInner options source).info (parse source).top
  have numbered : ((parse source).top.reorganize options source).1.id = 0 := by
    rw [Node.id, info, info_top_parse]
  have top : ((parse source).reorganize options).1.top
      = ((parse source).top.reorganize options source).1 := rfl
  have root : (parse source).root = 0 := rfl
  rw [node?, root, top, Node.family_eq]
  simp [numbered]

/-- A rearranged file prints as its top node. -/
theorem print_reorganize_parse (options : Options) (source : Text) :
    ((parse source).reorganize options).1.print
      = ((parse source).top.reorganize options source).1.print := by
  rw [print, print?]
  exact congrArg (fun node => (Option.map Node.print node).getD [])
    (node?_root_reorganize_parse options source)

/-- Reorganizing a parsed file succeeds and keeps its nodes one by one, up to the order
of list items and the trivia around them. -/
theorem reorganize_parse_matches (options : Options) (source : Text) :
    ∃ after report, (parse source).reorganize? options = some (after, report)
      ∧ List.Forall₂ Node.Matches (parse source).nodes after.nodes
      ∧ after.root = (parse source).root ∧ after.source = source
      ∧ Arrange.outline after.top = Arrange.outline (parse source).top := by
  refine ⟨_, _, reorganize?_parse options source, ?_, rfl, rfl, ?_⟩
  · obtain ⟨order, matching, perm⟩ :=
      Node.family_reorganize options (parse source).source (parse source).top
    have distinct : (order.map Node.id).Nodup := by
      rw [Node.Matches.map_id matching]
      exact nodup_numbers_parse source
    simp only [nodes, ← Node.sortBy_id_eq perm distinct]
    refine forall₂_sortBy (fun left right left' right' first second => ?_) matching
    rw [first.id, second.id]
  · have same := (Node.reorganize_isInner options (parse source).source).info
      (parse source).top
    simp only [Arrange.outline, Node.id, Node.leading, Node.trailing, same]

end Tree

end Lineup
