import RowPipeline.Document.Reader
import RowPipeline.Run

/-!
# Engines

An engine reads a document, puts in the parameters, runs the steps and gives the rows of the output
step. It keeps whole results in the cache as well as those of single steps.
-/

namespace RowPipeline

/-- What changes from one call of an engine to the next. -/
structure EngineState where
  journal : Journal := {}
  /-- The number of runs so far. -/
  runs : Nat := 0
  /-- Whether the connector was ever connected, and ever closed. -/
  connected : Bool := false
  closed : Bool := false

/-- A computation that changes the state of an engine. -/
abbrev EngineM := StateM EngineState

/-- Carry out a part of a run. -/
def EngineM.record {α : Type} (m : Recorded α) : EngineM α := do
  let s ← get
  let (a, journal) := m.run s.journal
  set { s with journal }
  return a

/-- What is planned for a step. -/
structure PlannedStep where
  name : String
  kind : StepKind
  dependsOn : List String
  sql : Option String

structure ExecutionPlan where
  pipeline : String
  output : String
  steps : List PlannedStep

namespace Engine

/-- Read a document and put in the parameters: the conditions whose gate is closed are dropped, then
references are replaced. -/
def resolve (document : Json) (params : Parameters) : Except Fault (Pipeline × Parameters) := do
  let p ← (Pipeline.ofJson document).mapError .parse
  let params ← (Parameters.resolve p.parameters params).mapError .validation
  let p ← (p.resolveFilters params).mapError Fault.parse
  return (p.substitute params, params)

/-- Check a document. -/
def validate (w : Workshop) (document : Json) : Document.Validation :=
  Document.validate document w.config.stepLimit

/-- Plan one step; the SQL of a query on a table is shown. -/
def planStep (w : Workshop) (p : Pipeline) (s : Step) : Except Fault PlannedStep := do
  let dependsOn := p.dependenciesOf s.name
  let sql ← match s.kind with
    | .query => Query.previewSql s.config dependsOn w.dialect
    | _ => pure none
  return ⟨s.name, s.kind, dependsOn, sql⟩

/-- Tell what a run would do. -/
def explain (w : Workshop) (document : Json) (params : Parameters) :
    Except Fault ExecutionPlan := do
  let (p, _) ← resolve document params
  return ⟨p.metadata.name, p.output, ← p.orderedSteps.mapM (planStep w p)⟩

/-! ## Runs -/

/-- The rows of a result and the account of its page. An output that was not cut yet is cut here. -/
def pageOf (output : Option StepOutput) (page : Option (UInt64 × UInt64)) :
    List Row × Option PageInfo :=
  match output, page with
  | none, _ => ([], none)
  | some output, none => (output.rows, none)
  | some output, some (number, size) =>
      match output.totalCount with
      | some total => (output.rows, some (.of number size total))
      | none =>
          let window := Pagination.ofPage number size
          (cutWindow (some window.limit) (some window.offset) output.rows,
            some (.of number size output.rows.length.toUInt64))

/-- Whether a run counts as a success. -/
def succeeded (p : Pipeline) (mode : FailureMode) (progress : Progress) : Bool :=
  match mode with
  | .failFast => progress.log.failures.isEmpty
  | .continueOnError => progress.outputs.contains p.output

def resultOf (p : Pipeline) (mode : FailureMode) (page : Option (UInt64 × UInt64)) (run : Nat)
    (progress : Progress) : RunResult :=
  let (rows, pageInfo) := pageOf (progress.outputs.get? p.output) page
  { success := succeeded p mode progress
    rows
    name := p.metadata.name
    version := p.metadata.version
    run
    output := p.output
    cacheHit := false
    stepResults := progress.results
    page := pageInfo
    failures := progress.log.failures }

/-- Tell how a run ended, and keep its result if nothing failed. -/
def conclude (w : Workshop) (key : Option String) (r : RunResult) : Recorded Unit := do
  if r.success then
    if let some key := key then
      if r.failures.isEmpty then Recorded.store key (.run r) w.config.pipelineCacheTtl
    Recorded.tell (.runCompleted r.name r.run r.rows.length r.failures.length)
  else
    Recorded.tell (.runFailed r.name r.run (r.failures.head?.map (·.message)) r.failures.length)

/-- Run a resolved pipeline under a new number. -/
def runFresh (w : Workshop) (p : Pipeline) (params : Parameters) (settings : RunSettings)
    (page : Option (UInt64 × UInt64)) (key : Option String) : EngineM RunResult := do
  modify fun s => { s with connected := s.connected || w.connector.isSome, runs := s.runs + 1 }
  let run := (← get).runs
  EngineM.record do
    Recorded.tell (.runStarted p.metadata.name run p.order)
    let progress ← Run.runPipeline w settings p params
    let r := resultOf p settings.failureMode page run progress
    conclude w key r
    return r

/-- The result under a key of the cache. -/
def recallResult (key : Option String) : Recorded (Option RunResult) :=
  match key with
  | none => return none
  | some key => do
      match ← Recorded.find key with
      | some (.run r) => return some { r with cacheHit := true }
      | _ => return none

/-- Run a resolved pipeline, or take its result from the cache. -/
def runResolved (w : Workshop) (p : Pipeline) (params : Parameters) (options : RunOptions)
    (page : Option (UInt64 × UInt64)) : EngineM RunResult := do
  let useCache := options.useCache.getD true
  let settings : RunSettings :=
    { useCache
      failureMode := .ofFlag (options.continueOnError.getD w.config.continueOnError)
      pagination := page.map fun p => .ofPage p.1 p.2 }
  let hasCache := (← get).journal.cache.isSome
  let key :=
    if useCache && w.config.pipelineCacheEnabled && hasCache then
      some (runKey p.toJson params (page.map Prod.fst) (page.map Prod.snd))
    else none
  match ← EngineM.record (recallResult key) with
  | some r => do
      EngineM.record (Recorded.tell (.runRecalled p.metadata.name r.run r.rows.length))
      return r
  | none => runFresh w p params settings page key

/-- Run a document. -/
def execute (w : Workshop) (document : Json) (params : Parameters) (options : RunOptions) :
    EngineM (Except Fault RunResult) :=
  match options.pagination w.config with
  | .error issue => return .error (.validation [issue])
  | .ok page =>
      match resolve document params with
      | .error f => return .error f
      | .ok (p, params) => do return .ok (← runResolved w p params options page)

/-- Close the connector. -/
def close (w : Workshop) : EngineM Unit :=
  modify fun s => { s with closed := s.closed || w.connector.isSome }

/-- Drop all that is in the cache. -/
def clearCache : EngineM Unit :=
  modify fun s => { s with journal.cache := s.journal.cache.map Cache.clear }

end Engine

end RowPipeline
