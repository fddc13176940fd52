import Mathlib.Algebra.BigOperators.Group.List.Basic
import Mathlib.Algebra.GroupWithZero.Nat
import Lineup.Proofs.Rest

/-!
# The lists of a tree

A tree is put in order list by list: what is reported of a tree is the sum of what is
reported of the lists in it, at any depth, and the lists of the new tree are those of
the old one, each rearranged.
-/

namespace Lineup

namespace Report

instance : Zero Report := ⟨{}⟩

instance : Add Report := ⟨add⟩

theorem zero_def : (0 : Report) = {} := rfl

theorem add_def (left right : Report) : left + right = left.add right := rfl

instance : AddCommMonoid Report where
  zero := 0
  add := (· + ·)
  add_assoc first second third := by simp [add_def, add, Nat.add_assoc]
  zero_add report := by simp [add_def, add, zero_def]
  add_zero report := by simp [add_def, add, zero_def]
  add_comm left right := by simp [add_def, add, Nat.add_comm]
  nsmul := nsmulRec

/-- A count of a report that is the sum of its parts is the sum of the counts of the
parts. -/
theorem count_sum {count : Report → Nat} (zero : count 0 = 0)
    (both : ∀ left right, count (left + right) = count left + count right)
    (reports : List Report) : count reports.sum = (reports.map count).sum := by
  induction reports with
  | nil => exact zero
  | cons report reports ih => rw [List.sum_cons, both, ih, List.map_cons, List.sum_cons]

theorem isChanged_add (left right : Report) :
    (left + right).isChanged = false ↔ left.isChanged = false
      ∧ right.isChanged = false := by
  simp only [isChanged_eq_false_iff, add_def, add]
  omega

theorem isChanged_sum (reports : List Report) :
    reports.sum.isChanged = false ↔ ∀ report ∈ reports, report.isChanged = false := by
  induction reports with
  | nil => simp [zero_def, isChanged]
  | cons report reports ih =>
      rw [List.sum_cons, isChanged_add, ih, List.forall_mem_cons]

end Report

namespace Arrange

/-- A list of a tree, with the kind of the node that owns it. -/
structure Listing where
  owner : NodeKind
  kind : ListKind
  items : List Node

namespace Listing

/-- The list in its new order, and what is reported of it. -/
def arrange (options : Options) (source : Text) (listing : Listing) :
    List Node × Report :=
  list options source (AccessLevel.default listing.owner) listing.kind listing.items

/-- There is nothing to do for the list. -/
def Rests (options : Options) (source : Text) (listing : Listing) : Prop :=
  Arrange.Rests options source (AccessLevel.default listing.owner) listing.kind
    listing.items

end Listing

end Arrange

open Arrange (Listing)

/-- The lists that a segment holds itself, for the owner of the given kind. -/
def Segment.listings (owner : NodeKind) : Segment → List Listing
  | .list kind items => [{ owner, kind, items }]
  | _ => []

/-- The lists that a node owns. -/
def Node.listings (node : Node) : List Listing :=
  node.segments.flatMap (Segment.listings node.kind)

/-- All lists of a tree. -/
def Tree.listings (tree : Tree) : List Listing :=
  tree.nodes.flatMap Node.listings

/-- What is reported of the lists that nodes own, without those of the nodes below. -/
def Node.reported (options : Options) (source : Text) (nodes : List Node) : Report :=
  ((nodes.flatMap Node.listings).map fun listing =>
    (listing.arrange options source).2).sum

theorem Node.reported_append (options : Options) (source : Text)
    (nodes others : List Node) :
    Node.reported options source (nodes ++ others)
      = Node.reported options source nodes + Node.reported options source others := by
  simp [Node.reported]

theorem Node.reported_perm (options : Options) (source : Text)
    {nodes others : List Node} (perm : nodes.Perm others) :
    Node.reported options source nodes = Node.reported options source others :=
  ((perm.flatMap_right Node.listings).map _).sum_eq

namespace Arrange.IsInner

variable {change : Node → Node} (inner : IsInner change)

include inner

theorem arrange_snd (separateMoved : Bool) (header : List TriviaLine)
    (sorted : List Entry) :
    (arrange separateMoved header (sorted.map (.over change))).2
      = (arrange separateMoved header sorted).2 := by
  have leading (nodes : List Node) : (nodes.map change).map Node.leading
      = nodes.map Node.leading := by
    simp [Node.leading, inner.info]
  have entries : (sorted.map (Entry.over change)).map (fun entry => entry.node.leading)
      = sorted.map fun entry => entry.node.leading := by
    simp [Entry.over, Node.leading, inner.info]
  simp only [arrange, countMoved_map, inner.moveFinalLineEnd,
    ← apply_ite (List.map (Entry.over change)), inner.pad, leading, entries]

/-- What is reported of a list does not depend on what is inside of its items. -/
theorem list_snd (options : Options) (source : Text) (fallback : AccessLevel)
    (kind : ListKind) (items : List Node) :
    (Arrange.list options source fallback kind (items.map change)).2
      = (Arrange.list options source fallback kind items).2 := by
  have reports (separateMoved : Bool) (sorted : List Entry) :
      (arrange separateMoved (Arrange.entries items).1 (sorted.map (.over change))).2
        = (arrange separateMoved (Arrange.entries items).1 sorted).2 :=
          inner.arrange_snd _ _ _
  by_cases short : items.length < 2
  · simp [Arrange.list, short]
  cases reorderable : isReorderable (Arrange.entries items).2 with
  | false => simp [Arrange.list, short, inner.entries, isReorderable_map, reorderable]
  | true =>
      have sorted := inner.order options source fallback kind (Arrange.entries items).2
      cases kind with
      | directives =>
          simp only [Arrange.order] at sorted
          simp [Arrange.list, short, inner.entries, isReorderable_map, reorderable,
            sorted, reports]
      | members =>
          simp only [Arrange.order] at sorted
          simp [Arrange.list, short, inner.entries, isReorderable_map, reorderable,
            sorted, reports]

end Arrange.IsInner

/-- What is reported of a segment comes from its own list. -/
def Segment.reported (options : Options) (source : Text) (owner : NodeKind)
    (segments : List Segment) : Report :=
  ((segments.flatMap (Segment.listings owner)).map fun listing =>
    (listing.arrange options source).2).sum

mutual

/-- What is reported of a node is the sum of what is reported of the lists in it. -/
theorem Node.reorganize_snd (options : Options) (source : Text) : (node : Node) →
    (node.reorganize options source).2 = Node.reported options source node.family
  | .mk info segments => by
      have within := Segment.reorganizeAll_snd options source info.kind segments
      simp only [Node.reorganize, Node.family, within]
      simp [Node.reported, Segment.reported, Node.listings, Node.segments, Node.kind,
        Node.info]

theorem Segment.reorganize_snd (options : Options) (source : Text) (owner : NodeKind) :
    (segment : Segment) →
    (segment.reorganize options source (AccessLevel.default owner)).2
      = Segment.reported options source owner [segment]
        + Node.reported options source segment.family
  | .text content => by
      simp [Segment.reorganize, Segment.reported, Segment.listings, Segment.family,
        Node.reported, ← Report.zero_def]
  | .node child => by
      have within := Node.reorganize_snd options source child
      simp [Segment.reorganize, Segment.reported, Segment.listings, Segment.family,
        within]
  | .list kind items => by
      have within := Node.reorganizeAll_snd options source items
      have own := (Node.reorganize_isInner options source).list_snd options source
        (AccessLevel.default owner) kind items
      rw [← Node.reorganizeAll_fst] at own
      simp only [Segment.reorganize, Segment.family, within, own, ← Report.add_def]
      rw [add_comm]
      simp [Segment.reported, Segment.listings, Listing.arrange]

theorem Segment.reorganizeAll_snd (options : Options) (source : Text)
    (owner : NodeKind) :
    (segments : List Segment) →
    (Segment.reorganizeAll options source (AccessLevel.default owner) segments).2
      = Segment.reported options source owner segments
        + Node.reported options source (Segment.familyAll segments)
  | [] => by
      simp [Segment.reorganizeAll, Segment.reported, Segment.familyAll, Node.reported,
        ← Report.zero_def]
  | segment :: segments => by
      have first := Segment.reorganize_snd options source owner segment
      have others := Segment.reorganizeAll_snd options source owner segments
      have parted : Segment.reported options source owner (segment :: segments)
          = Segment.reported options source owner [segment]
            + Segment.reported options source owner segments := by
        simp [Segment.reported]
      simp only [Segment.reorganizeAll, Segment.familyAll, first, others, parted,
        Node.reported_append, ← Report.add_def]
      exact add_add_add_comm _ _ _ _

theorem Node.reorganizeAll_snd (options : Options) (source : Text) :
    (nodes : List Node) →
    (Node.reorganizeAll options source nodes).2
      = Node.reported options source (Node.familyAll nodes)
  | [] => by simp [Node.reorganizeAll, Node.familyAll, Node.reported, Report.zero_def]
  | node :: nodes => by
      have first := Node.reorganize_snd options source node
      have others := Node.reorganizeAll_snd options source nodes
      simp only [Node.reorganizeAll, Node.familyAll, first, others,
        Node.reported_append, ← Report.add_def]

end

/-- What becomes of a list: its items are rearranged, and reorganized themselves. -/
structure Arrange.Listing.Becomes (options : Options) (source : Text)
    (before after : Listing) :
    Prop where
  owner : after.owner = before.owner
  kind : after.kind = before.kind
  items : after.items = (before.arrange options source).1.map fun item =>
    (item.reorganize options source).1

theorem Segment.listings_becomes (options : Options) (source : Text) (owner : NodeKind)
    (segment : Segment) :
    List.Forall₂ (Listing.Becomes options source) (segment.listings owner)
      ((segment.reorganize options source (AccessLevel.default owner)).1.listings
        owner) := by
  cases segment with
  | text content =>
      simp only [Segment.reorganize, Segment.listings]
      exact .nil
  | node child =>
      simp only [Segment.reorganize, Segment.listings]
      exact .nil
  | list kind items =>
      have inner := Node.reorganize_isInner options source
      simp only [Segment.reorganize, Segment.listings, Node.reorganizeAll_fst,
        inner.list]
      exact .cons ⟨rfl, rfl, rfl⟩ .nil

/-- The lists of a node of the new tree are those from before, each rearranged. -/
theorem Node.Becomes.listings {options : Options} {source : Text} {before after : Node}
    (becomes : Node.Becomes options source before after) :
    List.Forall₂ (Listing.Becomes options source) before.listings after.listings := by
  have kind : after.kind = before.kind := by
    rw [becomes.kind, Node.kind, (Node.reorganize_isInner options source).info,
      Node.kind]
  rw [Node.listings, Node.listings, becomes.segments, kind]
  cases before with
  | mk info segments =>
      simp only [Node.reorganize, Node.segments, Segment.reorganizeAll_fst, Node.kind,
        Node.info, List.flatMap_map]
      clear becomes kind
      induction segments with
      | nil => exact .nil
      | cons segment segments ih =>
          rw [List.flatMap_cons, List.flatMap_cons]
          exact List.rel_append (segment.listings_becomes options source info.kind) ih

end Lineup
