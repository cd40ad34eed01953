import RowPipeline.Fingerprint
import RowPipeline.Run.Journal
import RowPipeline.Step.Registry

/-!
# Running the steps of a pipeline

The steps run one after the other in the order of the pipeline. Each one reads the rows of the steps
it depends on; what it gives is kept for the steps after it.
-/

namespace RowPipeline

/-- What steps are carried out with. -/
structure Workshop where
  registry : StepRegistry
  connector : Option Connector
  config : EngineConfig

/-- The dialect of the connector, else that of the settings. -/
def Workshop.dialect (w : Workshop) : Dialect :=
  (w.connector.map Connector.dialect).getD w.config.dialect

structure RunSettings where
  useCache : Bool
  failureMode : FailureMode
  pagination : Option Pagination

/-- How far a run has come. -/
structure Progress where
  outputs : Record StepOutput := {}
  results : List StepResult := []
  log : FailureLog

namespace Run

/-- What a step gets to see. A page is asked of the output step alone, and only of a query. -/
def contextOf (w : Workshop) (settings : RunSettings) (p : Pipeline) (params : Parameters)
    (outputs : Record StepOutput) (s : Step) : StepContext :=
  let dependencies := p.dependenciesOf s.name
  { stepName := s.name
    kind := s.kind
    config := s.config
    dependencies
    inputs := Record.ofList (dependencies.filterMap fun name =>
      (outputs.get? name).map fun output => (name, output.rows))
    params
    connector := w.connector
    dialect := w.dialect
    expressionFailure := w.config.expressionFailure
    pagination := if s.name = p.output && s.kind = .query then settings.pagination else none }

/-- One text for each step a step depends on: its name and the fingerprint of its rows. -/
def dependencyTexts (c : StepContext) : List String :=
  c.dependencies.map fun name =>
    match c.inputs.get? name with
    | some rows => name ++ ":" ++ rowsFingerprint rows
    | none => name ++ ":missing"

/-- The cache key of a step, if its result may be kept. A page never is. -/
def cacheKey? (w : Workshop) (settings : RunSettings) (hasCache : Bool) (s : Step)
    (c : StepContext) : Option String :=
  if settings.useCache && w.config.stepCacheEnabled && s.cache && hasCache &&
      c.pagination.isNone then
    some (stepKey s.kind.name s.config (dependencyTexts c))
  else none

/-- The output of a step under a key of the cache. -/
def recallOutput (key : Option String) : Recorded (Option StepOutput) :=
  match key with
  | none => return none
  | some key => do
      match ← Recorded.find key with
      | some (.step output) => return some output
      | _ => return none

/-- Carry out a step whose result is not in the cache. -/
def runFresh (w : Workshop) (s : Step) (c : StepContext) (key : Option String) :
    Recorded (Except Fault StepOutput) := do
  let outcome ← Recorded.send (w.registry.run c)
  match outcome with
  | .ok output => do
      Recorded.tell (.stepCompleted s.name s.kind.name output.rows.length)
      if let some key := key then
        Recorded.store key (.step output) w.config.stepCacheTtl
  | .error f => Recorded.tell (.stepFailed s.name s.kind.name (f.inStep s.name s.kind.name).text)
  return outcome

/-- Carry out a step, or take its result from the cache; also tells which of both it was. -/
def runStep (w : Workshop) (settings : RunSettings) (s : Step) (c : StepContext) :
    Recorded (Except Fault StepOutput × Bool) := do
  Recorded.tell (.stepStarted s.name s.kind.name)
  let key := cacheKey? w settings (← get).cache.isSome s c
  match ← recallOutput key with
  | some output => do
      Recorded.tell (.stepRecalled s.name s.kind.name output.rows.length)
      return (.ok output, true)
  | none => do
      return (← runFresh w s c key, false)

end Run

/-- Enter the outcome of a step. -/
def Progress.enter (progress : Progress) (s : Step) (outcome : Except Fault StepOutput)
    (cacheHit : Bool) : Progress :=
  match outcome with
  | .ok output =>
      { outputs := progress.outputs.insert s.name output
        results := progress.results ++ [.succeeded s output cacheHit]
        log := progress.log.recordCompletion s.name }
  | .error f =>
      let message := (f.inStep s.name s.kind.name).message
      { progress with
        results := progress.results ++ [.failed s message]
        log := progress.log.recordFailure ⟨s.name, s.kind.name, message, f.typeName⟩ }

namespace Run

/-- Run the given steps. Once the run has to stop, the rest is skipped. -/
def runSteps (w : Workshop) (settings : RunSettings) (p : Pipeline) (params : Parameters) :
    List Step → Progress → Recorded Progress
  | [], progress => return progress
  | s :: rest, progress => do
      if progress.log.shouldStop then
        return { progress with results := progress.results ++ (s :: rest).map .skipped }
      else
        let c := contextOf w settings p params progress.outputs s
        let (outcome, cacheHit) ← runStep w settings s c
        runSteps w settings p params rest (progress.enter s outcome cacheHit)

/-- Run all steps of a pipeline in order. -/
def runPipeline (w : Workshop) (settings : RunSettings) (p : Pipeline) (params : Parameters) :
    Recorded Progress :=
  runSteps w settings p params p.orderedSteps { log := { mode := settings.failureMode } }

end Run

end RowPipeline
