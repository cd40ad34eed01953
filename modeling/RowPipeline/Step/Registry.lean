import RowPipeline.Step.Assert
import RowPipeline.Step.Enrich
import RowPipeline.Step.Pivot
import RowPipeline.Step.Query
import RowPipeline.Step.Union
import RowPipeline.Step.Unpivot

/-!
# Step registries

Which function carries out the steps of a kind.
-/

namespace RowPipeline

/-- The engine of each kind of step, where there is one. -/
def StepRegistry := StepKind → Option StepEngine

namespace StepRegistry

def empty : StepRegistry := fun _ => none

/-- The engines of this library. -/
def standard : StepRegistry
  | .query => some Query.run
  | .enrich => some Enrich.run
  | .pivot => some Pivot.run
  | .unpivot => some Unpivot.run
  | .union => some Union.run
  | .assert => some Assert.run

/-- Set the engine of one kind. -/
def register (r : StepRegistry) (kind : StepKind) (engine : StepEngine) : StepRegistry :=
  fun k => if k = kind then some engine else r k

/-- Carry out a step by the engine of its kind. -/
def run (r : StepRegistry) : StepEngine := fun c =>
  match r c.kind with
  | some engine => engine c
  | none => throw (.failed ("No engine registered for step type '" ++ c.kind.name ++ "'"))

end StepRegistry

/-- An engine that fails with a given message. -/
def failingEngine (message : String) : StepEngine := fun c =>
  throw (.execution ⟨some c.stepName, some c.kind.name, message⟩)

end RowPipeline
