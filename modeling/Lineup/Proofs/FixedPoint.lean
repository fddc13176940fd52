import Lineup.Proofs.Listings

/-!
# Reorganizing twice

A tree in which every list is at rest is left as it is, and after a tree was reorganized
every list of it is at rest. So a second pass over the new tree changes nothing, and it
passes over the same number of lists as the first one.
-/

namespace Lineup

open Arrange (Listing)

/-- There is nothing to do for the lists of nodes and of the nodes below them. -/
def Node.Rest (options : Options) (source : Text) (nodes : List Node) : Prop :=
  ∀ listing ∈ nodes.flatMap Node.listings, listing.Rests options source

theorem Node.rest_append {options : Options} {source : Text}
    {nodes others : List Node} :
    Node.Rest options source (nodes ++ others)
      ↔ Node.Rest options source nodes ∧ Node.Rest options source others := by
  simp only [Node.Rest, List.flatMap_append, List.forall_mem_append]

mutual

/-- A node in which every list is at rest is left as it is. -/
theorem Node.reorganize_of_rest (options : Options) (source : Text) : (node : Node) →
    Node.Rest options source node.family → (node.reorganize options source).1 = node
  | .mk info segments => by
      intro rest
      simp only [Node.family,
        ← List.singleton_append (l := Segment.familyAll segments)] at rest
      obtain ⟨own, below⟩ := Node.rest_append.mp rest
      have within := Segment.reorganizeAll_of_rest options source info.kind segments
        (by simpa [Node.Rest, Node.listings, Node.segments, Node.kind, Node.info]
          using own) below
      simp only [Node.reorganize, within]

theorem Segment.reorganize_of_rest (options : Options) (source : Text)
    (owner : NodeKind) :
    (segment : Segment) →
      (∀ listing ∈ segment.listings owner, listing.Rests options source) →
    Node.Rest options source segment.family →
    (segment.reorganize options source (AccessLevel.default owner)).1 = segment
  | .text content => by
      intro own below
      simp only [Segment.reorganize]
  | .node child => by
      intro own below
      simp only [Segment.family] at below
      simp only [Segment.reorganize, Node.reorganize_of_rest options source child below]
  | .list kind items => by
      intro own below
      simp only [Segment.family] at below
      have rests := own { owner, kind, items } (by simp [Segment.listings])
      have within := Node.reorganizeAll_of_rest options source items below
      simp only [Segment.reorganize, within]
      congr 1
      exact rests.list_eq

theorem Segment.reorganizeAll_of_rest (options : Options) (source : Text)
    (owner : NodeKind) :
    (segments : List Segment) →
    (∀ listing ∈ segments.flatMap (Segment.listings owner),
      listing.Rests options source) →
    Node.Rest options source (Segment.familyAll segments) →
    (Segment.reorganizeAll options source (AccessLevel.default owner) segments).1
      = segments
  | [] => by
      intro own below
      simp only [Segment.reorganizeAll]
  | segment :: segments => by
      intro own below
      simp only [Segment.familyAll] at below
      obtain ⟨first, others⟩ := Node.rest_append.mp below
      rw [List.flatMap_cons, List.forall_mem_append] at own
      simp only [Segment.reorganizeAll,
        Segment.reorganize_of_rest options source owner segment own.1 first,
        Segment.reorganizeAll_of_rest options source owner segments own.2 others]

theorem Node.reorganizeAll_of_rest (options : Options) (source : Text) :
    (nodes : List Node) →
    Node.Rest options source (Node.familyAll nodes) →
    (Node.reorganizeAll options source nodes).1 = nodes
  | [] => by
      intro below
      simp only [Node.reorganizeAll]
  | node :: nodes => by
      intro below
      simp only [Node.familyAll] at below
      obtain ⟨first, others⟩ := Node.rest_append.mp below
      simp only [Node.reorganizeAll, Node.reorganize_of_rest options source node first,
        Node.reorganizeAll_of_rest options source nodes others]

end

/-- A node is reported as unchanged exactly when every list in it is at rest. -/
theorem Node.isChanged_reorganize_iff (options : Options) (source : Text)
    (node : Node) :
    (node.reorganize options source).2.isChanged = false
      ↔ Node.Rest options source node.family := by
  rw [Node.reorganize_snd, Node.reported, Report.isChanged_sum, List.forall_mem_map]
  exact forall₂_congr fun listing _ => Arrange.isChanged_list_iff _ _ _ _ _

namespace Arrange.Listing.Becomes

variable {options : Options} {source : Text} {before after : Listing}

/-- What is reported of a list that was rearranged already: nothing, unless it is passed
over again. -/
theorem arrange_snd (becomes : Listing.Becomes options source before after) :
    (after.arrange options source).2
      = { skipped := (before.arrange options source).2.skipped } := by
  have inner := Node.reorganize_isInner options source
  rw [arrange, becomes.owner, becomes.kind, becomes.items, inner.list_snd, arrange,
    list_again]

end Arrange.Listing.Becomes

/-- The lists of related nodes are related. -/
theorem Node.Becomes.flatMap_listings {options : Options} {source : Text}
    {nodes others : List Node}
    (becomes : List.Forall₂ (Node.Becomes options source) nodes others) :
    List.Forall₂ (Listing.Becomes options source) (nodes.flatMap Node.listings)
      (others.flatMap Node.listings) := by
  induction becomes with
  | nil => exact .nil
  | cons first _ ih =>
      rw [List.flatMap_cons, List.flatMap_cons]
      exact List.rel_append first.listings ih

theorem Report.sum_skipped (reports : List Report) :
    (reports.map fun report => ({ skipped := report.skipped } : Report)).sum
      = { skipped := reports.sum.skipped } := by
  induction reports with
  | nil => rfl
  | cons report reports ih => simp [ih, Report.add_def, Report.add]

/-- Of the nodes of a reorganized tree nothing is reported but the lists that are passed
over again. -/
theorem Node.reported_reorganize (options : Options) (source : Text) (node : Node) :
    Node.reported options source (node.reorganize options source).1.family
      = { skipped := (node.reorganize options source).2.skipped } := by
  obtain ⟨order, becomes, perm⟩ := Node.family_becomes options source node
  have again : (order.flatMap Node.listings).map
      (fun listing => (listing.arrange options source).2)
      = ((node.family.flatMap Node.listings).map fun listing =>
          (listing.arrange options source).2).map fun report => { skipped :=
            report.skipped } := by
    rw [List.map_map]
    exact map_eq_of_forall₂ (fun _ _ became => became.arrange_snd)
      (Node.Becomes.flatMap_listings becomes)
  rw [← Node.reported_perm options source perm, Node.reported, again,
    Report.sum_skipped, Node.reorganize_snd, Node.reported]

/-- Reorganizing a node twice is the same as reorganizing it once, and nothing but the
skipped lists is reported the second time. -/
theorem Node.reorganize_again (options : Options) (source : Text) (node : Node) :
    (node.reorganize options source).1.reorganize options source
      = ((node.reorganize options source).1,
        { skipped := (node.reorganize options source).2.skipped }) := by
  have reported := Node.reported_reorganize options source node
  rw [← Node.reorganize_snd] at reported
  apply Prod.ext
  · apply Node.reorganize_of_rest
    rw [← Node.isChanged_reorganize_iff, reported]
    rfl
  · exact reported

namespace Tree

/-- Reorganizing a parsed file is done after one pass: a second pass over the new tree
succeeds, gives the same tree, and reports nothing but the lists that it passes over,
which are as many as before. -/
theorem reorganize_reorganize_parse (options : Options) (source : Text) :
    ∃ after report, (parse source).reorganize? options = some (after, report)
      ∧ after.reorganize? options = some (after, { skipped := report.skipped }) := by
  have again := Node.reorganize_again options source (parse source).top
  have once := congrArg
    (fun result => (Tree.mk source result.1 (parse source).root, result.2)) again
  refine ⟨((parse source).reorganize options).1, ((parse source).reorganize options).2,
    reorganize?_parse options source, ?_⟩
  rw [reorganize?_of_root (node?_root_reorganize_parse options source)]
  · exact congrArg some once
  · rw [Node.kind, (Node.reorganize_isInner options source).info, info_top_parse]

end Tree

end Lineup
