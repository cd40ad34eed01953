/-!
# Grouping by a key

The elements with one key, for every key in order of first appearance; each group keeps the order of
its elements.
-/

namespace RowPipeline

variable {α : Type}

/-- Put an element into the group of its key, a new one at the end if need be. -/
def addToGroup (key : String) (a : α) : List (String × List α) → List (String × List α)
  | [] => [(key, [a])]
  | (k, members) :: rest =>
      if k = key then (k, members ++ [a]) :: rest else (k, members) :: addToGroup key a rest

def groupByKey (key : α → String) (xs : List α) : List (String × List α) :=
  xs.foldl (fun groups a => addToGroup (key a) a groups) []

/-- The elements with a key not seen before. -/
def distinctByKey (key : α → String) (xs : List α) : List α :=
  (groupByKey key xs).filterMap fun g => g.2.head?

end RowPipeline
