import RowPipeline.Filter
import RowPipeline.Expr.Parser

/-!
# Gated conditions

Given parameters, a tree loses the conditions whose gate is closed; a group that loses all its
members goes too, and one that keeps a single member becomes it.
-/

namespace RowPipeline

/-- Whether a gate is open. An expression that fails closes its gate. -/
def Gate.holds (params : Parameters) : Gate → Bool
  | .parameterExists name => params.contains name
  | .parameterNotEmpty name emptyValues =>
      (params.get? name).any fun v => !emptyValues.any (·.looseEq v)
  | .allParametersExist names => names.all params.contains
  | .expression text =>
      match (Expr.parse text).bind (·.eval ⟨none, some params, fun _ => none⟩) with
      | .ok v => v.isTruthy
      | .error _ => false

namespace FilterNode

mutual

/-- The tree without the conditions whose gate is closed, if anything is left. -/
def resolve (params : Parameters) : FilterNode → Option FilterNode
  | .leaf c => if c.gate.all (Gate.holds params) then some (.leaf c) else none
  | .logical op children =>
      match resolveAll params children with
      | [] => none
      | [only] => some only
      | remaining => some (.logical op remaining)

def resolveAll (params : Parameters) : List FilterNode → List FilterNode
  | [] => []
  | n :: rest => (n.resolve params).toList ++ resolveAll params rest

end

end FilterNode

end RowPipeline
