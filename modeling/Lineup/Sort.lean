/-!
# Stable sorting

Sorting by insertion: items that compare equal keep their order.
-/

namespace Lineup

variable {α : Type}

/-- Put an item in front of the first one that it may precede. -/
def insertBy (le : α → α → Bool) (item : α) : List α → List α
  | [] => [item]
  | next :: rest =>
      if le item next then item :: next :: rest else next :: insertBy le item rest

/-- The items in ascending order; items that compare equal keep their order. -/
def sortBy (le : α → α → Bool) : List α → List α
  | [] => []
  | item :: rest => insertBy le item (sortBy le rest)

end Lineup
