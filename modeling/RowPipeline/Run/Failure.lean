import RowPipeline.Fault

/-!
# Failures of a run

A run that fails fast stops after its first failed step; otherwise it goes on, and the steps that
need the missing rows fail in turn.
-/

namespace RowPipeline

inductive FailureMode where
  | failFast
  | continueOnError
deriving DecidableEq

def FailureMode.ofFlag (continueOnError : Bool) : FailureMode :=
  if continueOnError then .continueOnError else .failFast

/-- The failure of one step. -/
structure FailureRecord where
  stepName : String
  stepType : String
  message : String
  errorType : String := "ExecutionError"
deriving DecidableEq

def FailureRecord.toError (f : FailureRecord) : ExecutionError :=
  ⟨some f.stepName, some f.stepType, f.message⟩

/-- The steps that failed or completed so far. -/
structure FailureLog where
  mode : FailureMode
  failures : List FailureRecord := []
  completed : List String := []

namespace FailureLog

def recordFailure (log : FailureLog) (f : FailureRecord) : FailureLog :=
  { log with failures := log.failures ++ [f] }

def recordCompletion (log : FailureLog) (step : String) : FailureLog :=
  { log with completed := log.completed ++ [step] }

def hasFailed (log : FailureLog) (step : String) : Bool :=
  log.failures.any fun f => f.stepName == step

def hasCompleted (log : FailureLog) (step : String) : Bool := step ∈ log.completed

/-- Whether no further step may run. -/
def shouldStop (log : FailureLog) : Bool := log.mode = .failFast && !log.failures.isEmpty

/-- The first of some steps that failed. -/
def failedDependency? (log : FailureLog) (dependencies : List String) : Option String :=
  dependencies.find? log.hasFailed

end FailureLog

end RowPipeline
