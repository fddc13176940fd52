import Lineup.Proofs.FixedPoint
import Lineup.Proofs.Movable

/-!
# Where the items of a list come to stand

Every list of a file, at any depth, is either put in order or left alone. It is put in
order when it has two items or more and no preprocessor line stands between them: then
its items are sorted, and items that tie keep their order. The report counts the lists
that preprocessor lines kept as they are, and the places of the others where another
item stands than before.
-/

namespace Lineup

namespace Arrange

/-- No preprocessor line stands in the trivia. -/
def IsPlain (trivia : Text) : Prop :=
  ∀ token ∈ Token.lex trivia, token.kind ≠ .directive

instance (trivia : Text) : Decidable (IsPlain trivia) :=
  inferInstanceAs (Decidable (∀ token ∈ Token.lex trivia, token.kind ≠ .directive))

/-- The trivia of the first item of a list without the header of the list. -/
def behindHeader (leading : Text) : Text :=
  TriviaLine.joined (TriviaLine.splitHeader (TriviaLine.split leading)).2

/-- No preprocessor line stands between the header of a list and its last item. -/
def Unobstructed : List Node → Prop
  | [] => True
  | first :: rest =>
      IsPlain (behindHeader first.leading) ∧ ∀ item ∈ rest, IsPlain item.leading

instance : (items : List Node) → Decidable (Unobstructed items)
  | [] => inferInstanceAs (Decidable True)
  | first :: rest => inferInstanceAs
      (Decidable (IsPlain (behindHeader first.leading)
        ∧ ∀ item ∈ rest, IsPlain item.leading))

/-- Two items of a list tie in its order. -/
def Ties (options : Options) (source : Text) (fallback : AccessLevel) (kind : ListKind)
    (left right : Node) : Prop :=
  match kind with
  | .directives => options.directives.compare (Directive.classify source left)
      (Directive.classify source right) = .eq
  | .members => options.members.compare (Member.classify fallback left)
      (Member.classify fallback right) = .eq

/-- The items of a list after it was sorted: the same ones, in order, where ties keep
their order. -/
structure Sorted (options : Options) (source : Text) (fallback : AccessLevel)
    (kind : ListKind) (before after : List Node) : Prop where
  permuted : (after.map Node.id).Perm (before.map Node.id)
  ordered : InOrder options source fallback kind after
  stable : ∀ first second, [first, second].Sublist before →
    Ties options source fallback kind first second →
    [first.id, second.id].Sublist (after.map Node.id)

/-- The number of places where another item stands than before. -/
def displaced (before after : List Node) : Nat :=
  (List.zip before after).countP fun pair => pair.1.id != pair.2.id

theorem hasDirective_split_iff (trivia : Text) :
    (∀ line ∈ TriviaLine.split trivia, line.hasDirective = false) ↔ IsPlain trivia :=
  (TriviaLine.lines_split trivia).hasDirective_iff

theorem hasDirective_behindHeader_iff (leading : Text) :
    (∀ line ∈ (TriviaLine.splitHeader (TriviaLine.split leading)).2,
      line.hasDirective = false)
      ↔ IsPlain (behindHeader leading) := by
  rw [← hasDirective_split_iff, behindHeader]
  obtain ⟨tokens, made⟩ := (TriviaLine.lines_split leading).suffix
    ⟨(TriviaLine.splitHeader _).1, TriviaLine.splitHeader_append _⟩
  rw [made.split_joined]

theorem hasDirective_entriesFrom_iff (position : Nat) (items : List Node) :
    (∀ entry ∈ entriesFrom position items, ∀ line ∈ entry.lines,
      line.hasDirective = false)
      ↔ ∀ item ∈ items, IsPlain item.leading := by
  induction items generalizing position with
  | nil => simp [entriesFrom]
  | cons item items ih =>
      rw [entriesFrom, List.forall_mem_cons, List.forall_mem_cons, ih,
        hasDirective_split_iff]

theorem isReorderable_entries_iff (items : List Node) :
    isReorderable (entries items).2 = true ↔ Unobstructed items := by
  rw [isReorderable_iff]
  cases items with
  | nil => simp [entries, Unobstructed]
  | cons first rest =>
      rw [entries, List.forall_mem_cons, hasDirective_entriesFrom_iff, Unobstructed]
      exact and_congr_left fun _ => hasDirective_behindHeader_iff first.leading

theorem pair_sublist_sortEntries {κ : Type} (key : Node → κ) {cmp : κ → κ → Ordering}
    {entries : List Entry} {first second : Entry}
    (before : [first, second].Sublist entries)
    (ties : cmp (key first.node) (key second.node) = .eq) :
    [first, second].Sublist (sortEntries key cmp entries) := by
  have keyed := before.map fun entry => (key entry.node, entry)
  have precedes : (cmp (key first.node) (key second.node) != .gt) = true := by
    simp [ties]
  exact (pair_sublist_sortBy keyed precedes).map Prod.snd

variable (options : Options) (source : Text) (fallback : AccessLevel) (kind : ListKind)

theorem pair_sublist_order {entries : List Entry} {first second : Entry}
    (before : [first, second].Sublist entries)
    (ties : Ties options source fallback kind first.node second.node) :
    [first, second].Sublist (order options source fallback kind entries) := by
  cases kind with
  | directives => exact pair_sublist_sortEntries _ before ties
  | members => exact pair_sublist_sortEntries _ before ties

/-- The items that a sorted list shows, place by place. -/
theorem list_map_id {items : List Node}
    (sorts : ¬ (items.length < 2 ∨ isReorderable (entries items).2 = false)) :
    (list options source fallback kind items).1.map Node.id
      = (order options source fallback kind (entries items).2).map fun entry =>
        entry.node.id := by
  have twins := list_twin_order options source fallback kind sorts
  rw [map_eq_of_forall₂ (fun _ _ twin => twin.id) twins, List.map_map]
  rfl

theorem sorted_list {items : List Node}
    (sorts : ¬ (items.length < 2 ∨ isReorderable (entries items).2 = false)) :
    Sorted options source fallback kind items
      (list options source fallback kind items).1 := by
  constructor
  · exact list_ids options source fallback kind items
  · exact inOrder_list options source fallback kind sorts
  · intro first second before ties
    rw [← entries_nodes items] at before
    obtain ⟨pair, within, same⟩ := List.sublist_map_iff.mp before
    rw [list_map_id options source fallback kind sorts]
    match pair, same with
    | [left, right], same =>
        simp only [List.map_cons, List.map_nil, List.cons.injEq, and_true] at same
        rw [same.1, same.2] at ties ⊢
        have after := pair_sublist_order options source fallback kind within ties
        exact after.map fun entry => entry.node.id

/-- An entry is an item together with its place. -/
theorem getElem?_position {items : List Node} {entry : Entry}
    (member : entry ∈ (entries items).2) :
    items[entry.position]? = some entry.node := by
  obtain ⟨place, inside, rfl⟩ := List.getElem_of_mem member
  have position := congrArg (·[place]?) (entries_positions items)
  have node := congrArg (·[place]?) (entries_nodes items)
  rw [entries_length] at inside
  simp only [List.getElem?_map, List.getElem?_range inside] at position node
  rw [List.getElem?_eq_getElem (by rwa [entries_length]),
    Option.map_some] at position node
  rw [Option.some.inj position, node]

/-- An item is found at one place only. -/
theorem position_eq {items : List Node} (distinct : (items.map Node.id).Nodup)
    {entry : Entry} (member : entry ∈ (entries items).2) {position : Nat} {old : Node}
    (stood : items[position]? = some old) (same : entry.node.id = old.id) :
    entry.position = position := by
  have found := getElem?_position member
  have inside := (List.getElem?_eq_some_iff.mp found).1
  apply (List.getElem?_inj (by rwa [List.length_map]) distinct).mp
  rw [List.getElem?_map, List.getElem?_map, found, stood, Option.map_some, same,
    Option.map_some]

theorem countMoved_eq_displaced {items : List Node} {sorted : List Entry} {place : Nat}
    (length : sorted.length = items.length)
    (same : ∀ step entry item, sorted[step]? = some entry → items[step]? = some item →
      (entry.position = place + step ↔ entry.node.id = item.id)) :
    countMoved place sorted = displaced items (sorted.map Entry.node) := by
  induction sorted generalizing items place with
  | nil => simp [countMoved, displaced]
  | cons entry sorted ih =>
      cases items with
      | nil => cases length
      | cons item items =>
          have first : entry.position = place ↔ entry.node.id = item.id :=
            same 0 entry item rfl rfl
          have later : countMoved (place + 1) sorted
              = displaced items (sorted.map Entry.node) := by
            apply ih (Nat.succ.inj length)
            intro step other node found placed
            rw [Nat.add_assoc, Nat.add_comm 1]
            exact same (step + 1) other node found placed
          rw [countMoved, later, displaced, displaced, List.map_cons,
            List.zip_cons_cons, List.countP_cons, Nat.add_comm]
          simp [first, eq_comm (a := item.id)]

theorem displaced_self (items : List Node) : displaced items items = 0 := by
  induction items with
  | nil => rfl
  | cons item items ih =>
      rw [displaced] at ih
      rw [displaced, List.zip_cons_cons, List.countP_cons, ih]
      simp

theorem displaced_congr (before : List Node) {after others : List Node}
    (same : after.map Node.id = others.map Node.id) :
    displaced before after = displaced before others := by
  have ids (after : List Node) : displaced before after
      = (before.zip (after.map Node.id)).countP fun pair => pair.1.id != pair.2 := by
    rw [displaced, List.zip_map_right, List.countP_map]
    rfl
  rw [ids, ids, same]

end Arrange

/-- The number of items that were moved in the lists of a kind. -/
def Report.moved (report : Report) : ListKind → Nat
  | .directives => report.movedDirectives
  | .members => report.movedMembers

namespace Arrange

variable (options : Options) (source : Text) (fallback : AccessLevel) (kind : ListKind)

theorem countMoved_order {items : List Node} (distinct : (items.map Node.id).Nodup) :
    countMoved 0 (order options source fallback kind (entries items).2)
      = displaced items ((order options source fallback kind (entries items).2).map
        Entry.node) := by
  have perm := order_perm options source fallback kind (entries items).2
  apply countMoved_eq_displaced
  · rw [perm.length_eq, entries_length]
  · intro step entry item found placed
    have member := perm.mem_iff.mp (List.mem_of_getElem? found)
    rw [Nat.zero_add]
    constructor
    · intro same
      have at_ := getElem?_position member
      rw [same, placed] at at_
      rw [Option.some.inj at_]
    · exact position_eq distinct member placed

/-- What is reported as moved in a list are the places where another item stands than
before. -/
theorem moved_list {items : List Node} (distinct : (items.map Node.id).Nodup)
    (asked : ListKind) :
    (list options source fallback kind items).2.moved asked
      = if kind = asked then
          displaced items (list options source fallback kind items).1
        else 0 := by
  by_cases stays : items.length < 2 ∨ isReorderable (entries items).2 = false
  · have zero : (list options source fallback kind items).2.moved asked = 0 := by
      rw [list]
      split
      · cases asked <;> rfl
      · rename_i long
        cases asked <;> simp [stays.resolve_left long, Report.moved]
    rw [zero, list_fst, if_pos stays, displaced_self, ite_self]
  · have counted := countMoved_order options source fallback kind distinct
    have ids := list_map_id options source fallback kind stays
    have shown : ((order options source fallback kind (entries items).2).map
        Entry.node).map Node.id
        = (order options source fallback kind (entries items).2).map fun entry =>
          entry.node.id :=
      List.map_map
    rw [displaced_congr items (ids.trans shown.symm), ← counted]
    rw [not_or, Bool.not_eq_false] at stays
    cases kind with
    | directives => cases asked <;> simp [list, stays, order, Report.moved, arrange]
    | members => cases asked <;> simp [list, stays, order, Report.moved, arrange]

end Arrange

namespace Arrange.Listing

/-- A list is to be put in order: it has two items or more, and nothing stands between
them. -/
def Sorts (listing : Listing) : Prop :=
  2 ≤ listing.items.length ∧ Unobstructed listing.items

instance (listing : Listing) : Decidable listing.Sorts :=
  inferInstanceAs (Decidable (2 ≤ listing.items.length ∧ Unobstructed listing.items))

/-- A list is passed over: it has two items or more, but preprocessor lines stand
between them. -/
def IsPassed (listing : Listing) : Prop :=
  2 ≤ listing.items.length ∧ ¬ Unobstructed listing.items

instance (listing : Listing) : Decidable listing.IsPassed :=
  inferInstanceAs (Decidable (2 ≤ listing.items.length ∧ ¬ Unobstructed listing.items))

/-- A list before and after its tree was put in order: it is sorted, or its items and
the trivia around them are left alone. -/
structure Placed (options : Options) (source : Text) (before after : Listing) :
    Prop where
  owner : after.owner = before.owner
  kind : after.kind = before.kind
  items : if before.Sorts then
      Sorted options source (AccessLevel.default before.owner) before.kind before.items
        after.items
    else after.items.map outline = before.items.map outline

/-- The number of places of the lists of a kind where another item stands than
before. -/
def displaced (asked : ListKind) (before after : List Listing) : Nat :=
  (List.zipWith (fun old new =>
      if old.kind = asked then Arrange.displaced old.items new.items else 0)
    before after).sum

theorem sorts_iff (listing : Listing) : listing.Sorts
    ↔ ¬ (listing.items.length < 2
      ∨ isReorderable (entries listing.items).2 = false) := by
  rw [Sorts, ← isReorderable_entries_iff, not_or, Nat.not_lt, Bool.not_eq_false]

end Arrange.Listing

namespace Arrange

/-- What becomes of the items of a sorted list inside of them does not matter. -/
theorem Sorted.map {options : Options} {source : Text} {fallback : AccessLevel}
    {kind : ListKind} {before after : List Node} {change : Node → Node}
    (inner : IsInner change)
    (sorted : Sorted options source fallback kind before after) :
    Sorted options source fallback kind before (after.map change) := by
  have ids : (after.map change).map Node.id = after.map Node.id := by
    simp [Node.id, inner.info]
  constructor
  · rw [ids]
    exact sorted.permuted
  · apply InOrder.of_heads options source fallback kind _ sorted.ordered
    rw [List.forall₂_map_right_iff, List.forall₂_same]
    intro node _
    simp [Node.kind, Node.head, inner.info]
  · rw [ids]
    exact sorted.stable

namespace Listing.Becomes

variable {options : Options} {source : Text} {before after : Listing}

theorem placed (becomes : Listing.Becomes options source before after) :
    Listing.Placed options source before after := by
  have inner := Node.reorganize_isInner options source
  refine ⟨becomes.owner, becomes.kind, ?_⟩
  rw [becomes.items, arrange]
  split
  · rename_i sorts
    exact (sorted_list _ _ _ _ (before.sorts_iff.mp sorts)).map inner
  · rename_i stays
    rw [list_fst, if_pos (not_not.mp (mt before.sorts_iff.mpr stays)),
      map_outline inner]

theorem displaced_items (becomes : Listing.Becomes options source before after) :
    Arrange.displaced before.items after.items
      = Arrange.displaced before.items (before.arrange options source).1 := by
  apply displaced_congr
  rw [becomes.items]
  simp [Node.id, (Node.reorganize_isInner options source).info]

end Listing.Becomes

/-- What is reported as moved in several lists are the places where another item
stands. -/
theorem Listing.sum_moved {options : Options} {source : Text} (asked : ListKind)
    {before after : List Listing}
    (becomes : List.Forall₂ (Listing.Becomes options source) before after)
    (distinct : ∀ listing ∈ before, (listing.items.map Node.id).Nodup) :
    (before.map fun listing => (listing.arrange options source).2.moved asked).sum
      = Listing.displaced asked before after := by
  induction becomes with
  | nil => rfl
  | @cons listing other listings others first _ ih =>
      rw [List.forall_mem_cons] at distinct
      have own : (listing.arrange options source).2.moved asked
          = if listing.kind = asked then
              Arrange.displaced listing.items other.items
            else 0 := by
        rw [first.displaced_items]
        exact moved_list options source _ _ distinct.1 asked
      rw [List.map_cons, List.sum_cons, ih distinct.2, own]
      rfl

end Arrange

open Arrange (Listing)

theorem Node.sublist_familyAll (nodes : List Node) :
    nodes.Sublist (Node.familyAll nodes) := by
  induction nodes with
  | nil => exact List.Sublist.refl _
  | cons node nodes ih =>
      rw [Node.familyAll_cons, Node.family_eq]
      exact (ih.trans (List.sublist_append_right _ _)).cons_cons node

theorem Segment.sublist_familyAll {owner : NodeKind} {segments : List Segment}
    {listing : Listing} (member : listing ∈ segments.flatMap (Segment.listings owner)) :
    listing.items.Sublist (Segment.familyAll segments) := by
  induction segments with
  | nil => cases member
  | cons segment segments ih =>
      rw [Segment.familyAll_cons]
      rw [List.flatMap_cons, List.mem_append] at member
      cases member with
      | inr later => exact (ih later).trans (List.sublist_append_right _ _)
      | inl first =>
          cases segment with
          | text content => cases first
          | node child => cases first
          | list kind items =>
              rw [Segment.listings, List.mem_singleton] at first
              rw [first, Segment.family_list]
              exact (Node.sublist_familyAll items).trans (List.sublist_append_left _ _)

mutual

/-- The items of a list of a tree are among the nodes of the tree, each once. -/
theorem Node.listing_sublist {listing : Listing} : (node : Node) →
    listing ∈ node.family.flatMap Node.listings → listing.items.Sublist node.family
  | .mk info segments => by
      intro member
      rw [Node.family_mk, List.flatMap_cons, List.mem_append] at member
      rw [Node.family_mk]
      apply List.Sublist.cons
      cases member with
      | inl own => exact Segment.sublist_familyAll own
      | inr below => exact Segment.listing_sublist segments below

theorem Segment.listing_sublist {listing : Listing} : (segments : List Segment) →
    listing ∈ (Segment.familyAll segments).flatMap Node.listings →
    listing.items.Sublist (Segment.familyAll segments)
  | [] => by
      intro member
      simp at member
  | .text content :: segments => by
      rw [Segment.familyAll_cons, Segment.family_text]
      exact Segment.listing_sublist segments
  | .node child :: segments => by
      intro member
      rw [Segment.familyAll_cons, Segment.family_node, List.flatMap_append,
        List.mem_append] at member
      rw [Segment.familyAll_cons, Segment.family_node]
      cases member with
      | inl within =>
          exact (child.listing_sublist within).trans (List.sublist_append_left _ _)
      | inr later =>
          exact (Segment.listing_sublist segments later).trans
            (List.sublist_append_right _ _)
  | .list kind items :: segments => by
      intro member
      rw [Segment.familyAll_cons, Segment.family_list, List.flatMap_append,
        List.mem_append] at member
      rw [Segment.familyAll_cons, Segment.family_list]
      cases member with
      | inl within =>
          exact (Node.listing_sublistAll items within).trans
            (List.sublist_append_left _ _)
      | inr later =>
          exact (Segment.listing_sublist segments later).trans
            (List.sublist_append_right _ _)

theorem Node.listing_sublistAll {listing : Listing} : (nodes : List Node) →
    listing ∈ (Node.familyAll nodes).flatMap Node.listings →
    listing.items.Sublist (Node.familyAll nodes)
  | [] => by
      intro member
      simp at member
  | node :: nodes => by
      intro member
      rw [Node.familyAll_cons, List.flatMap_append, List.mem_append] at member
      rw [Node.familyAll_cons]
      cases member with
      | inl within =>
          exact (node.listing_sublist within).trans (List.sublist_append_left _ _)
      | inr later =>
          exact (Node.listing_sublistAll nodes later).trans
            (List.sublist_append_right _ _)

end

theorem Node.Related.sortBy_id {related : Node → Node → Prop} {before after : List Node}
    (ids : ∀ node other, related node other → other.id = node.id)
    (relation : Node.Related related before after)
    (distinct : (before.map Node.id).Nodup) :
    List.Forall₂ related (sortBy (fun first second => first.id ≤ second.id) before)
      (sortBy (fun first second => first.id ≤ second.id) after) := by
  obtain ⟨order, each, perm⟩ := relation
  rw [← map_eq_of_forall₂ ids each] at distinct
  rw [← Node.sortBy_id_eq perm distinct]
  apply forall₂_sortBy _ each
  intro left right left' right' first second
  rw [ids _ _ first, ids _ _ second]

theorem Node.Becomes.id {options : Options} {source : Text} {before after : Node}
    (becomes : Node.Becomes options source before after) : after.id = before.id := by
  rw [Arrange.Twin.id becomes, Node.id, (Node.reorganize_isInner options source).info,
    Node.id]

namespace Tree

/-- The nodes of a reorganized file are those of the file, each reorganized. -/
theorem nodes_becomes (options : Options) (source : Text) :
    List.Forall₂ (Node.Becomes options source) (parse source).nodes
      ((parse source).reorganize options).1.nodes :=
  (Node.family_becomes options source (parse source).top).sortBy_id
    (fun _ _ becomes => Node.Becomes.id becomes) (nodup_numbers_parse source)

theorem listings_perm (tree : Tree) :
    tree.listings.Perm (tree.top.family.flatMap Node.listings) :=
  (sortBy_perm _ _).flatMap_right _

/-- No list of a file holds an item twice. -/
theorem nodup_items_parse {source : Text} {listing : Listing}
    (member : listing ∈ (parse source).listings) :
    (listing.items.map Node.id).Nodup := by
  have within := (listings_perm _).mem_iff.mp member
  exact (nodup_numbers_parse source).sublist
    ((Node.listing_sublist _ within).map Node.id)

/-- What is reported of a file is the sum of what is reported of its lists. -/
theorem count_reorganize_parse (options : Options) (source : Text)
    (count : Report → Nat) (zero : count 0 = 0)
    (both : ∀ left right, count (left + right) = count left + count right) :
    count ((parse source).reorganize options).2
      = ((parse source).listings.map fun listing =>
          count (listing.arrange options source).2).sum := by
  have report : ((parse source).reorganize options).2
      = ((parse source).listings.map fun listing =>
        (listing.arrange options source).2).sum := by
    rw [((listings_perm (parse source)).map _).sum_eq]
    exact Node.reorganize_snd options source (parse source).top
  rw [report, Report.count_sum zero both, List.map_map]
  rfl

theorem skipped_reorganize_parse (options : Options) (source : Text) :
    ((parse source).reorganize options).2.skipped
      = (parse source).listings.countP fun listing => listing.IsPassed := by
  rw [count_reorganize_parse options source Report.skipped rfl fun _ _ => rfl]
  induction (parse source).listings with
  | nil => rfl
  | cons listing listings ih =>
      have own : (listing.arrange options source).2.skipped
          = if listing.IsPassed then 1 else 0 := by
        simp only [Listing.arrange, Arrange.skipped_list, Listing.IsPassed,
          ← Arrange.isReorderable_entries_iff, Bool.not_eq_true]
      rw [List.map_cons, List.sum_cons, List.countP_cons, ih, own, Nat.add_comm]
      simp

theorem moved_reorganize_parse (options : Options) (source : Text) (asked : ListKind) :
    ((parse source).reorganize options).2.moved asked
      = Listing.displaced asked (parse source).listings
          ((parse source).reorganize options).1.listings := by
  rw [count_reorganize_parse options source fun report => report.moved asked]
  · have becomes := Node.Becomes.flatMap_listings (nodes_becomes options source)
    exact Listing.sum_moved asked becomes fun _ => nodup_items_parse
  · cases asked <;> rfl
  · intro left right
    cases asked <;> rfl

/-- Reorganizing a parsed file succeeds and puts every list of every node of it in its
place: a list of two items or more without preprocessor lines between them is sorted,
with ties in their old order, and every other list is left alone. The report counts the
lists that preprocessor lines kept as they are, and for each kind of list the places
where another item stands than before. -/
theorem reorganize_parse_placed (options : Options) (source : Text) :
    ∃ after report, (parse source).reorganize? options = some (after, report)
      ∧ List.Forall₂ (fun node other => other.id = node.id
          ∧ List.Forall₂ (Listing.Placed options source) node.listings other.listings)
        (parse source).nodes after.nodes
      ∧ report.skipped = (parse source).listings.countP
        (fun listing => listing.IsPassed)
      ∧ report.movedDirectives
        = Listing.displaced .directives (parse source).listings after.listings
      ∧ report.movedMembers
        = Listing.displaced .members (parse source).listings after.listings := by
  refine ⟨_, _, reorganize?_parse options source, ?_, ?_, ?_, ?_⟩
  · apply (nodes_becomes options source).imp
    intro node other becomes
    exact ⟨becomes.id, becomes.listings.imp fun _ _ each => each.placed⟩
  · exact skipped_reorganize_parse options source
  · exact moved_reorganize_parse options source .directives
  · exact moved_reorganize_parse options source .members

end Tree

end Lineup
