import RowPipeline.Run.Failure
import RowPipeline.Step

/-!
# Results of runs

What a run reports: the rows of the output step or a page of them, and an account of every step.
-/

namespace RowPipeline

inductive StepStatus where
  | success
  | failed
  | skipped
deriving DecidableEq

def StepStatus.name : StepStatus → String
  | .success => "success"
  | .failed => "failed"
  | .skipped => "skipped"

/-- The account of one step. -/
structure StepResult where
  stepName : String
  kind : StepKind
  status : StepStatus
  rowCount : Nat := 0
  cacheHit : Bool := false
  error : Option String := none
  warnings : List String := []
  details : Json := .null

namespace StepResult

def skipped (s : Step) : StepResult := { stepName := s.name, kind := s.kind, status := .skipped }

def failed (s : Step) (message : String) : StepResult :=
  { stepName := s.name, kind := s.kind, status := .failed, error := some message }

def succeeded (s : Step) (output : StepOutput) (cacheHit : Bool) : StepResult :=
  { stepName := s.name
    kind := s.kind
    status := .success
    rowCount := output.rows.length
    cacheHit
    warnings := output.warnings
    details := output.details }

end StepResult

/-- Where a page stands among all pages. -/
structure PageInfo where
  page : UInt64
  pageSize : UInt64
  totalCount : UInt64
  totalPages : UInt64
deriving DecidableEq

namespace PageInfo

/-- The account of a page out of `totalCount` rows. The last page may be short. -/
def of (page pageSize totalCount : UInt64) : PageInfo :=
  ⟨page, pageSize, totalCount,
    ((totalCount.toNat + (pageSize.toNat - 1)) / pageSize.toNat).toUInt64⟩

def hasNext (i : PageInfo) : Bool := i.page < i.totalPages

def hasPrevious (i : PageInfo) : Bool := 1 < i.page

end PageInfo

structure RunResult where
  success : Bool
  rows : List Row
  /-- The name and version of the pipeline. -/
  name : String
  version : String
  /-- The number of the run; a result from the cache keeps that of the run that made it. -/
  run : Nat
  output : String
  cacheHit : Bool
  stepResults : List StepResult
  page : Option PageInfo
  failures : List FailureRecord

namespace RunResult

/-- The number of steps that were not skipped. -/
def stepsExecuted (r : RunResult) : Nat :=
  (r.stepResults.filter fun s => s.status ≠ .skipped).length

/-- The error of a run without success: its first failure, if there is one. -/
def error? (r : RunResult) : Option ExecutionError :=
  if r.success then none
  else
    match r.failures with
    | f :: _ => some f.toError
    | [] => some (.of ("Pipeline produced no rows for output '" ++ r.output ++ "'"))

end RunResult

end RowPipeline
