import RowPipeline.Json

/-!
# Events of a run

What a run tells while it goes on. Each event has a name and named data.
-/

namespace RowPipeline

inductive Event where
  | runStarted (pipeline : String) (run : Nat) (steps : List String)
  | runCompleted (pipeline : String) (run rowCount failedSteps : Nat)
  /-- The whole result came from the cache. -/
  | runRecalled (pipeline : String) (run rowCount : Nat)
  | runFailed (pipeline : String) (run : Nat) (error : Option String) (failedSteps : Nat)
  | stepStarted (step kind : String)
  | stepCompleted (step kind : String) (rowCount : Nat)
  | stepFailed (step kind error : String)
  /-- The result of a step came from the cache. -/
  | stepRecalled (step kind : String) (rowCount : Nat)

namespace Event

def name : Event → String
  | .runStarted .. => "pipeline.started"
  | .runCompleted .. | .runRecalled .. => "pipeline.completed"
  | .runFailed .. => "pipeline.failed"
  | .stepStarted .. => "step.started"
  | .stepCompleted .. => "step.completed"
  | .stepFailed .. => "step.failed"
  | .stepRecalled .. => "step.cache_hit"

/-- The data of an event, in order. -/
def data : Event → List (String × Json)
  | .runStarted pipeline run steps =>
      [("pipeline", .string pipeline), ("run_id", .ofNat run),
        ("steps", .array (steps.map .string))]
  | .runCompleted pipeline run rowCount failedSteps =>
      [("pipeline", .string pipeline), ("run_id", .ofNat run), ("row_count", .ofNat rowCount),
        ("failed_steps", .ofNat failedSteps)]
  | .runRecalled pipeline run rowCount =>
      [("pipeline", .string pipeline), ("run_id", .ofNat run), ("row_count", .ofNat rowCount),
        ("cache_hit", .bool true)]
  | .runFailed pipeline run error failedSteps =>
      [("pipeline", .string pipeline), ("run_id", .ofNat run),
        ("error", (error.map Json.string).getD .null), ("failed_steps", .ofNat failedSteps)]
  | .stepStarted step kind => [("step", .string step), ("step_type", .string kind)]
  | .stepCompleted step kind rowCount | .stepRecalled step kind rowCount =>
      [("step", .string step), ("step_type", .string kind), ("row_count", .ofNat rowCount)]
  | .stepFailed step kind error =>
      [("step", .string step), ("step_type", .string kind), ("error", .string error)]

end Event

end RowPipeline
