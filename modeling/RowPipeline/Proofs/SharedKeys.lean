import RowPipeline.Proofs.CacheTransparency

/-!
# Steps that share a key

A step is answered with what another step of its key left in the cache, whatever tells the two apart
beyond the key. A query that reads an object parameter shows the object of an earlier call.
-/

namespace RowPipeline

/-! ## Calls of one step -/

theorem Run.runPipeline_single {w : Workshop} {settings : RunSettings} {p : Pipeline}
    {params : Parameters} {s : Step} (single : p.orderedSteps = [s]) (j : Journal) :
    (runPipeline w settings p params).run j =
      let ran := (runStep w settings s (contextOf w settings p params {} s)).run j
      (Progress.enter { log := { mode := settings.failureMode } } s ran.1.1 ran.1.2, ran.2) := by
  have hgo : ({ mode := settings.failureMode } : FailureLog).shouldStop = false := by
    simp [FailureLog.shouldStop]
  rw [runPipeline, single, runSteps_go hgo]
  rfl

/-- A run whose result is not kept ends with the cache it has. -/
theorem Engine.conclude_unkept (w : Workshop) (r : RunResult) (j : Journal) :
    ((conclude w none r).run j).2.cache = j.cache ∧ ((conclude w none r).run j).2.now = j.now := by
  rw [conclude]
  cases r.success <;> exact ⟨rfl, rfl⟩

variable {w : Workshop}

/-- A call that runs one step, in the given context. -/
structure Call.Single (call : Call) (w : Workshop) (s : Step) (c : StepContext) : Prop where
  page : call.options.pagination w.config = .ok none
  run : ∃ p params, Engine.resolve call.document call.params = .ok (p, params) ∧
    p.orderedSteps = [s] ∧ c = Run.contextOf w (Engine.settingsOf w call.options none) p params {} s

/-- A call of one step, where no results of whole runs are kept, is answered with the output of the step,
and leaves the cache as the step does. -/
theorem Call.Single.execute (unkept : w.config.pipelineCacheEnabled = false) {call : Call} {s : Step}
    {c : StepContext} (single : call.Single w s c) (st : EngineState) :
    ∃ started : Journal, started.cache = st.journal.cache ∧ started.now = st.journal.now ∧
      let ran := (Run.runStep w (Engine.settingsOf w call.options none) s c).run started
      let after := (Engine.execute w call.document call.params call.options).run st
      (∀ output hit, ran.1 = (.ok output, hit) → ∃ r, after.1 = .ok r ∧ r.rows = output.rows) ∧
        after.2.journal.cache = ran.2.cache ∧ after.2.journal.now = ran.2.now := by
  obtain ⟨p, params, hresolve, hsteps, rfl⟩ := single.run
  have hkey : Engine.resultKey? w p params call.options none st.journal.cache.isSome = none := by
    simp [Engine.resultKey?, unkept]
  refine ⟨{ st.journal with
    events := st.journal.events ++ [.runStarted p.metadata.name (st.runs + 1) p.order] }, rfl, rfl, ?_⟩
  rw [Engine.execute_fresh single.page hresolve hkey, Engine.runFresh_run]
  dsimp only
  rw [Run.runPipeline_single hsteps]
  refine ⟨?_, Engine.conclude_unkept ..⟩
  intro output hit hran
  have wellFormed := Engine.resolve_wellFormed hresolve
  have hname : p.output = s.name := by
    have hmem := wellFormed.output_mem
    rw [← wellFormed.orderedNames, hsteps] at hmem
    exact List.mem_singleton.mp hmem
  refine ⟨_, rfl, ?_⟩
  have houtput : ∀ progress : Progress,
      (progress.enter s (.ok output) hit).outputs.get? p.output = some output := by
    intro progress
    rw [hname, Progress.enter]
    exact Record.get?_insert_self ..
  dsimp only
  rw [hran, Engine.resultOf]
  dsimp only
  rw [houtput, Engine.pageOf]

/-- Of two calls that run one step each, the second is answered with the rows of the first, if their
steps have one key. -/
theorem Call.Single.shared (unkept : w.config.pipelineCacheEnabled = false)
    (lasting : 0 < w.config.stepCacheTtl.toNat) {call call' : Call} {s s' : Step}
    {c c' : StepContext} (single : call.Single w s c) (single' : call'.Single w s' c') {k : String}
    (hkey : Run.cacheKey? w (Engine.settingsOf w call.options none) true s c = some k)
    (hkey' : Run.cacheKey? w (Engine.settingsOf w call'.options none) true s' c' = some k)
    {output : StepOutput} (houtcome : (w.registry.run c).start.1 = .ok output) (st : EngineState)
    (hst : st.journal.cache = some {}) :
    ∃ r, call'.answer w ((Engine.execute w call.document call.params call.options).run st).2 = .ok r ∧
      r.rows = output.rows.map Row.throughJson := by
  obtain ⟨started, hcache, -, -, hafter, hafterNow⟩ := single.execute unkept st
  obtain ⟨started', hcache', hnow', hanswer, -⟩ := single'.execute unkept
    ((Engine.execute w call.document call.params call.options).run st).2
  rw [hst] at hcache
  -- the first call finds nothing, so it carries the step out and leaves its output for the second
  have hmissed : ((Recorded.find k).run started).1 = none := by
    rw [Recorded.find_result, hcache]
    rfl
  have hcached : started.cache.isSome = true := by
    rw [hcache]
    rfl
  obtain ⟨-, hkept⟩ := Run.runStep_kept hcached (hcached ▸ hkey) hmissed houtcome lasting
  have hfound : ((Recorded.find k).run started').1 =
      some (.step { output with rows := output.rows.map Row.throughJson }) := by
    rw [Recorded.find_result, hcache', hnow', hafter, hafterNow, ← Recorded.find_result]
    exact hkept
  have hcached' : started'.cache.isSome = true := by
    rw [Recorded.find_result] at hfound
    obtain ⟨cache, hsome, -⟩ := Option.bind_eq_some_iff.mp hfound
    rw [hsome]
    rfl
  exact hanswer _ _ (Run.runStep_recalled (hcached' ▸ hkey') hfound)

/-! ## A parameter that no key tells -/

def echoConfig : Json :=
  .object [("data_source", .string "numbers"),
    ("calculated_fields", .array [.object [("name", .string "v"), ("expression", .string "$o")]])]

/-- A query that shows a parameter. -/
def echoDocument : Json :=
  .object [("steps", .array [
    .object [("name", .string "out"), ("type", .string "query"), ("config", echoConfig)]])]

def echoPipeline : Pipeline where
  metadata := {}
  parameters := []
  steps := [⟨"out", .query, echoConfig, true⟩]
  output := "out"
  order := ["out"]
  dependencies := Record.ofList [("out", [])]

/-- A call of the query with an object, which no literal can stand for. -/
def echoCall (k : Int64) : Call :=
  ⟨echoDocument, Record.empty.insert "o" (.object [("k", .int k)]), {}⟩

def echoRow (k : Int64) : Row :=
  (Record.empty.insert "n" (.int 1)).insert "v" (.object [("k", .int k)])

/-- An engine that keeps the outputs of steps but no results of whole runs. -/
def echoWorkshop : Workshop := ⟨.standard, some oneNumber, { pipelineCacheEnabled := false }⟩

/-- What the query gets to see. -/
def echoContext (k : Int64) : StepContext :=
  Run.contextOf echoWorkshop (Engine.settingsOf echoWorkshop {} none) echoPipeline (echoCall k).params
    {} ⟨"out", .query, echoConfig, true⟩

theorem echoCall_single (k : Int64) :
    (echoCall k).Single echoWorkshop ⟨"out", .query, echoConfig, true⟩ (echoContext k) :=
  ⟨rfl, echoPipeline, (echoCall k).params, rfl, rfl, rfl⟩

theorem echo_cacheKey (k : Int64) :
    Run.cacheKey? echoWorkshop (Engine.settingsOf echoWorkshop {} none) true
      ⟨"out", .query, echoConfig, true⟩ (echoContext k) = some (stepKey "query" echoConfig []) :=
  if_pos rfl

/-- A parameter that is read when the step runs is not in the key: the call with one object is answered
with the other. -/
theorem object_parameter_not_in_key :
    let s := ((Engine.execute echoWorkshop echoDocument (echoCall 1).params {}).run
      { journal := { cache := some {} } }).2
    ∃ r r', (echoCall 2).answer echoWorkshop s = .ok r ∧ r.rows = [echoRow 1] ∧
      (echoCall 2).uncached.answer echoWorkshop s = .ok r' ∧ r'.rows = [echoRow 2] := by
  intro s
  have houtcome : ∃ output, (echoWorkshop.registry.run (echoContext 1)).start.1 = .ok output ∧
      output.rows.map Row.throughJson = [echoRow 1] := ⟨_, rfl, rfl⟩
  obtain ⟨output, houtcome, hrows⟩ := houtcome
  obtain ⟨r, hr, hsame⟩ := Call.Single.shared rfl (by decide) (echoCall_single 1) (echoCall_single 2)
    (echo_cacheKey 1) (echo_cacheKey 2) houtcome { journal := { cache := some {} } } rfl
  have hcore := @Call.uncached_answer echoWorkshop (echoCall 2) none echoPipeline _ rfl rfl s
  cases huncached : (echoCall 2).uncached.answer echoWorkshop s with
  | error f =>
      rw [huncached] at hcore
      cases hcore
  | ok r' =>
      rw [huncached] at hcore
      exact ⟨r, r', hr, hsame.trans hrows, rfl, congrArg RunResult.rows (Except.ok.inj hcore)⟩

end RowPipeline
