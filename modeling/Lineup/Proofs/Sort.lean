import Mathlib.Data.List.Forall2
import Mathlib.Data.List.Perm.Basic
import Mathlib.Data.List.Sort
import Lineup.Sort

/-!
# Sorting by insertion

The sorted items are the given ones in another order, and they are in order when the
comparison is total and transitive. Two items that may stay as they stand do so. Sorting
only looks at comparisons, so it goes along with every map and every relation that keeps
them.
-/

namespace Lineup

variable {α β : Type}

theorem insertBy_eq_orderedInsert (le : α → α → Bool) (item : α) (items : List α) :
    insertBy le item items
      = items.orderedInsert (fun left right => le left right = true) item := by
  induction items with
  | nil => rfl
  | cons next rest ih => rw [insertBy, List.orderedInsert, ih]

theorem sortBy_eq_insertionSort (le : α → α → Bool) (items : List α) :
    sortBy le items = items.insertionSort fun left right => le left right = true := by
  induction items with
  | nil => rfl
  | cons item rest ih =>
      rw [sortBy, List.insertionSort_cons, ih, insertBy_eq_orderedInsert]

theorem sortBy_perm (le : α → α → Bool) (items : List α) :
    (sortBy le items).Perm items := by
  rw [sortBy_eq_insertionSort]
  exact List.perm_insertionSort _ items

theorem sortBy_pairwise {le : α → α → Bool}
    (total : ∀ left right, le left right ∨ le right left)
    (trans : ∀ left middle right, le left middle → le middle right → le left right)
    (items : List α) : (sortBy le items).Pairwise fun left right => le left right := by
  have : Std.Total fun left right => le left right = true := ⟨total⟩
  have : IsTrans α fun left right => le left right = true := ⟨trans⟩
  rw [sortBy_eq_insertionSort]
  exact List.pairwise_insertionSort _ items

theorem isLE_eq (ordering : Ordering) : ordering.isLE = (ordering != .gt) := by
  cases ordering <;> rfl

/-- Sorting by a comparison puts the items in order. -/
theorem sortBy_pairwise_of_cmp (cmp : α → α → Ordering) [Std.TransCmp cmp]
    (items : List α) :
    (sortBy (fun left right => cmp left right != .gt) items).Pairwise fun left right =>
      (cmp left right).isLE = true := by
  simp only [← isLE_eq]
  refine sortBy_pairwise (fun left right => ?_)
    (fun _ _ _ => Std.TransCmp.isLE_trans) items
  have swap : cmp left right = (cmp right left).swap := Std.OrientedCmp.eq_swap
  rw [swap]
  cases cmp right left <;> simp

theorem sortBy_eq_self {le : α → α → Bool} {items : List α}
    (sorted : items.Pairwise fun left right => le left right) :
    sortBy le items = items := by
  rw [sortBy_eq_insertionSort]
  exact sorted.insertionSort_eq

/-- The sort is stable: two items that need not change places keep their order. -/
theorem pair_sublist_sortBy {le : α → α → Bool} {items : List α} {left right : α}
    (before : [left, right].Sublist items) (precedes : le left right = true) :
    [left, right].Sublist (sortBy le items) := by
  rw [sortBy_eq_insertionSort]
  exact List.pair_sublist_insertionSort precedes before

theorem forall₂_insertBy {relation : α → β → Prop} {le : α → α → Bool}
    {others : β → β → Bool}
    (same : ∀ left right left' right', relation left left' → relation right right' →
      others left' right' = le left right)
    {item : α} {other : β} {items : List α} {more : List β}
    (first : relation item other) (rest : List.Forall₂ relation items more) :
    List.Forall₂ relation (insertBy le item items) (insertBy others other more) := by
  induction rest with
  | nil => exact .cons first .nil
  | @cons next next' items more related later ih =>
      simp only [insertBy, same _ _ _ _ first related]
      split
      · exact .cons first (.cons related later)
      · exact .cons related ih

/-- Items that compare alike are sorted alike. -/
theorem forall₂_sortBy {relation : α → β → Prop} {le : α → α → Bool}
    {others : β → β → Bool}
    (same : ∀ left right left' right', relation left left' → relation right right' →
      others left' right' = le left right)
    {items : List α} {more : List β} (related : List.Forall₂ relation items more) :
    List.Forall₂ relation (sortBy le items) (sortBy others more) := by
  induction related with
  | nil => exact .nil
  | cons first _ ih => exact forall₂_insertBy same first ih

/-- Sorting goes along with a map that keeps comparisons. -/
theorem sortBy_map {le : α → α → Bool} {others : β → β → Bool} {image : α → β}
    (same : ∀ left right, others (image left) (image right) = le left right)
    (items : List α) :
    sortBy others (items.map image) = (sortBy le items).map image := by
  rw [sortBy_eq_insertionSort, sortBy_eq_insertionSort]
  refine (List.map_insertionSort _ _ image items ?_).symm
  intro left _ right _
  rw [same]

end Lineup
