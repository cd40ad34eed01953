/-!
# Stable sorting

Insertion sort: each element moves left past the elements it is less than. Equal elements keep their
order.
-/

namespace RowPipeline

variable {α : Type}

/-- Insert into a list that has the greatest element first. -/
def insertDescending (cmp : α → α → Ordering) (a : α) : List α → List α
  | [] => [a]
  | b :: rest => if cmp a b = .lt then b :: insertDescending cmp a rest else a :: b :: rest

/-- The elements in ascending order, equal ones in their given order. -/
def sortBy (cmp : α → α → Ordering) (xs : List α) : List α :=
  (xs.foldl (fun sorted a => insertDescending cmp a sorted) []).reverse

end RowPipeline
