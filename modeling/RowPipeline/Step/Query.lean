import RowPipeline.Step.Query.Memory
import RowPipeline.Step.Query.Table

/-!
# Query steps

A query reads another step in memory when its source is one the step depends on, and the database
otherwise.
-/

namespace RowPipeline.Query

/-- Carry out a query step. -/
def run : StepEngine := fun c => do
  let config ← c.readConfig Config.ofJson
  let policy := config.expressionFailure.getD c.expressionFailure
  let plan ← Plan.ofConfig config
  if c.dependsOn plan.source then
    let output ← runInMemory plan c policy
    return output
  else runOnTable plan c policy

end RowPipeline.Query
