import Lineup.Order
import Lineup.Proofs.Arrange

/-!
# The orders are total

Members and directives are compared key by key, and every key is compared in a total
order, whatever the options are. So the entries of a list are in order after they are
sorted, and entries that are in order stay where they are.
-/

namespace Lineup

open Std (TransCmp TransOrd)

theorem transCmp_on {α κ : Type} (cmp : κ → κ → Ordering) [TransCmp cmp] (key : α → κ) :
    TransCmp fun left right => cmp (key left) (key right) where
  eq_swap := Std.OrientedCmp.eq_swap
  isLE_trans := TransCmp.isLE_trans

instance : TransCmp compareFlags where
  eq_swap := by decide
  isLE_trans := by decide

/-- Members are in a total order. -/
theorem MemberOptions.transCmp_compare (options : MemberOptions) :
    TransCmp options.compare := by
  have kinds := transCmp_on Ord.compare fun info : MemberInfo =>
    info.kind.rank options.kindOrder
  have levels := transCmp_on Ord.compare fun info : MemberInfo => info.access.rank
  have groups := transCmp_on Ord.compare fun info : MemberInfo => info.modifier.rank
  have names : TransCmp fun left right : MemberInfo =>
      if options.alphabet then
        Ord.compare (options.nameKey left.name) (options.nameKey right.name)
      else .eq := by
    cases options.alphabet with
    | true =>
        exact transCmp_on Ord.compare fun info : MemberInfo => options.nameKey info.name
    | false => exact { eq_swap := rfl, isLE_trans := fun _ _ => rfl }
  exact inferInstanceAs (TransCmp (compareLex _ (compareLex _ (compareLex _ _))))

/-- Directives are in a total order. -/
theorem DirectiveOptions.transCmp_compare (options : DirectiveOptions) :
    TransCmp options.compare := by
  have globals := transCmp_on compareFlags fun info : DirectiveInfo => info.isGlobal
  have statics := transCmp_on compareFlags fun info : DirectiveInfo => info.isStatic
  have aliases := transCmp_on compareFlags fun info : DirectiveInfo => !info.hasAlias
  have preferred := transCmp_on compareFlags options.prefers
  have targets := transCmp_on Ord.compare fun info : DirectiveInfo => info.target
  exact inferInstanceAs
    (TransCmp (compareLex _ (compareLex _ (compareLex _ (compareLex _ _)))))

namespace Arrange

/-- The items of a list are in order. -/
def InOrder (options : Options) (source : Text) (fallback : AccessLevel)
    (kind : ListKind) (items : List Node) : Prop :=
  match kind with
  | .directives => (items.map (Directive.classify source)).Pairwise fun left right =>
      (options.directives.compare left right).isLE = true
  | .members => (items.map (Member.classify fallback)).Pairwise fun left right =>
      (options.members.compare left right).isLE = true

/-- Sorted entries are in order. -/
theorem sortEntries_pairwise {κ : Type} (key : Node → κ) (cmp : κ → κ → Ordering)
    [TransCmp cmp] (entries : List Entry) :
    ((sortEntries key cmp entries).map Entry.node).Pairwise fun left right =>
      (cmp (key left) (key right)).isLE = true := by
  have keys := transCmp_on cmp fun pair : κ × Entry => pair.1
  have sorted := sortBy_pairwise_of_cmp
    (fun left right : κ × Entry => cmp left.1 right.1)
    (entries.map fun entry => (key entry.node, entry))
  have keyed : ∀ pair ∈ sortBy (fun left right => cmp left.1 right.1 != .gt)
      (entries.map fun entry => (key entry.node, entry)), pair.1 = key pair.2.node := by
    intro pair member
    obtain ⟨entry, -, rfl⟩ := List.mem_map.mp ((sortBy_perm _ _).subset member)
    rfl
  rw [sortEntries, List.pairwise_map, List.pairwise_map]
  refine sorted.imp_of_mem fun {left right} first second precedes => ?_
  rwa [← keyed left first, ← keyed right second]

theorem sortEntries_eq_self {κ : Type} (key : Node → κ) (cmp : κ → κ → Ordering)
    {entries : List Entry}
    (ordered : (entries.map Entry.node).Pairwise fun left right =>
      (cmp (key left) (key right)).isLE = true) :
    sortEntries key cmp entries = entries := by
  have sorted : (entries.map fun entry =>
      (key entry.node, entry)).Pairwise fun left right =>
      (cmp left.1 right.1 != .gt) = true := by
    rw [List.pairwise_map] at ordered ⊢
    simpa only [isLE_eq] using ordered
  rw [sortEntries, sortBy_eq_self sorted]
  simp [Function.comp_def]

variable (options : Options) (source : Text) (fallback : AccessLevel) (kind : ListKind)

/-- The entries of a list are in order after they are sorted. -/
theorem inOrder_order (entries : List Entry) :
    InOrder options source fallback kind
      ((order options source fallback kind entries).map Entry.node) := by
  cases kind with
  | directives =>
      have := options.directives.transCmp_compare
      exact List.pairwise_map.mpr (sortEntries_pairwise _ _ entries)
  | members =>
      have := options.members.transCmp_compare
      exact List.pairwise_map.mpr (sortEntries_pairwise _ _ entries)

/-- Entries that are in order stay where they are. -/
theorem order_eq_self {entries : List Entry}
    (ordered : InOrder options source fallback kind (entries.map Entry.node)) :
    order options source fallback kind entries = entries := by
  cases kind with
  | directives =>
      rw [InOrder, List.pairwise_map] at ordered
      exact sortEntries_eq_self _ _ ordered
  | members =>
      rw [InOrder, List.pairwise_map] at ordered
      exact sortEntries_eq_self _ _ ordered

end Arrange

end Lineup
