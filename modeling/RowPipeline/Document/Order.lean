import RowPipeline.Fault
import RowPipeline.Record

/-!
# Execution order

Depth-first search over the dependencies: a name comes after all it depends on, in the order of the
declared names as far as that allows. A name met on its own path is a cycle.
-/

namespace RowPipeline

/-- The names met so far and the order of those that are done. -/
structure Visit where
  seen : List String
  order : List String

/-- The part of a path from the first occurrence of a name on. -/
def cycleFrom (node : String) (path : List String) : Cycle :=
  ⟨node, path.dropWhile (· != node) ++ [node]⟩

/-- Visit a name reached along `path`. A path without repetition passes each key of the dependencies
at most once, which bounds the fuel. -/
def Visit.node (dependencies : Record (List String)) :
    Nat → List String → Visit → String → Except Cycle Visit
  | 0, _, visit, _ => .ok visit
  | fuel + 1, path, visit, node =>
      if node ∈ path then .error (cycleFrom node path)
      else if node ∈ visit.seen then .ok visit
      else do
        let inner ← ((dependencies.get? node).getD []).foldlM
          (fun visit dependency =>
            Visit.node dependencies fuel (path ++ [node]) visit dependency)
          { visit with seen := node :: visit.seen }
        return { inner with order := inner.order ++ [node] }

/-- The names reachable from the declared ones, each after the names it depends on. -/
def topologicalOrder (declared : List String) (dependencies : Record (List String)) :
    Except Cycle (List String) := do
  let visit ← declared.foldlM
    (fun visit node => Visit.node dependencies (dependencies.size + 2) [] visit node) ⟨[], []⟩
  return visit.order

end RowPipeline
