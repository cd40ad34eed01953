import RowPipeline.Proofs.CacheTransparency
import RowPipeline.Proofs.References

/-!
# Planned queries

The plan of a run shows the SQL of its queries without asking for anything. A query that is carried out
composes its statement again, from the same settings: where no page is asked for and the step succeeds,
it sends the planned text, or nothing if it reads another step. By induction on the steps, a run of
queries sends what its plan shows.
-/

namespace RowPipeline

/-- A text that could be composed is sent before the answer is looked at; where nothing more is sent
after that, it is all that was sent. -/
theorem Sending.start_send {α : Type} {text : Except Fault String} {connector : Connector}
    {rest : String → List Row → Sending α} (silent : ∀ sql rows, Silent (rest sql rows)) {a : α}
    (h : (do let sql ← text; let rows ← connector.send sql; rest sql rows : Sending α).start.1 =
      .ok a) :
    ∃ sql, text = .ok sql ∧
      (do let sql ← text; let rows ← connector.send sql; rest sql rows : Sending α).start.2 = [sql] := by
  rw [start_lift] at h ⊢
  cases text with
  | error f => cases h
  | ok sql =>
      have hsend : (connector.send sql).run.run [] = (connector.answer sql, [sql]) := by
        rw [Connector.send]
        cases connector.answer sql <;> rfl
      refine ⟨sql, rfl, ?_⟩
      dsimp only
      rw [Sending.start, ExceptT.run_bind, StateT.run_bind, hsend]
      cases connector.answer sql with
      | error f => rfl
      | ok rows => exact silent sql rows [sql]

namespace Query

/-! ## One query -/

/-- The output of a query of a table, without a page, from the rows that came back for it. -/
def Plan.answered (p : Plan) (params : Parameters) (policy : ExpressionFailure) (sql : String)
    (rows : List Row) : Except Fault StepOutput := do
  let (calculated, warnings) ←
    applyCalculated none params policy p.calculated (rows.map fun r => (r, r))
  let output := calculated.map Prod.fst
  let output :=
    if p.ordersByCalculated then cutWindow p.limit p.offset (sortRows p.sortKeys output) else output
  return { rows := output, warnings, details := .object [("sql", .string sql)] }

/-- Where no page is asked for, both orders of rows lead to one statement and one look at its answer. -/
theorem runOnTable_whole {p : Plan} {c : StepContext} {policy : ExpressionFailure}
    (whole : c.pagination = none) (apart : p.joins.find? (fun j => c.dependsOn j.table) = none) :
    runOnTable p c policy = (do
      let connector ← c.requireConnector
      let sql ← rendered (p.toWindowedSelect.toSql c.dialect)
      let rows ← connector.send sql
      liftM (p.answered c.params policy sql rows)) := by
  unfold runOnTable
  rw [apart, whole]
  have hanswered : ∀ sql rows, liftM (p.answered c.params policy sql rows) = (do
      let (calculated, warnings) ←
        applyCalculated none c.params policy p.calculated (rows.map fun r => (r, r))
      let output := calculated.map Prod.fst
      return {
        rows := if p.ordersByCalculated then cutWindow p.limit p.offset (sortRows p.sortKeys output)
          else output
        warnings
        details := .object [("sql", .string sql)] } : Sending StepOutput) := by
    intro sql rows
    rw [Plan.answered]
    cases applyCalculated none c.params policy p.calculated (rows.map fun r => (r, r)) <;> rfl
  simp only [hanswered]
  cases horders : p.ordersByCalculated <;> rfl

/-- A query of a table that succeeds without a page has sent the statement of its plan, with the window
only where the database orders the rows. -/
theorem runOnTable_sends {p : Plan} {c : StepContext} {policy : ExpressionFailure}
    (whole : c.pagination = none) {output : StepOutput}
    (h : (runOnTable p c policy).start.1 = .ok output) :
    ∃ sql, p.toWindowedSelect.toSql c.dialect = .ok sql ∧
      (runOnTable p c policy).start.2 = [sql] := by
  cases hjoin : p.joins.find? fun j => c.dependsOn j.table with
  | some j =>
      unfold runOnTable at h
      rw [hjoin] at h
      cases h
  | none =>
      rw [runOnTable_whole whole hjoin, Sending.start_lift] at h ⊢
      cases hconnector : c.requireConnector with
      | error f =>
          rw [hconnector] at h
          cases h
      | ok connector =>
          rw [hconnector] at h
          obtain ⟨sql, hsql, hsent⟩ := Sending.start_send (fun sql rows => .lift _) h
          exact ⟨sql, mapError_eq_ok hsql, hsent⟩

/-- What a preview shows: nothing for a query of a step, else the statement of its plan. -/
theorem previewSql_eq_ok {settings : Json} {dependencies : List String} {d : Dialect}
    {text : Option String} (h : previewSql settings dependencies d = .ok text) :
    ∃ config plan, Config.ofJson settings = .ok config ∧ Plan.ofConfig config = .ok plan ∧
      (plan.source ∈ dependencies ∧ text = none ∨
        plan.source ∉ dependencies ∧
          ∃ sql, plan.toWindowedSelect.toSql d = .ok sql ∧ text = some sql) := by
  rw [previewSql] at h
  cases hread : Config.ofJson settings with
  | error e =>
      rw [hread] at h
      cases h
  | ok config =>
      rw [hread] at h
      dsimp only at h
      rw [pure_bind] at h
      obtain ⟨plan, hplan, h⟩ := bind_eq_ok h
      refine ⟨config, plan, rfl, hplan, ?_⟩
      by_cases upstream : plan.source ∈ dependencies
      · rw [if_pos upstream] at h
        cases h
        exact .inl ⟨upstream, rfl⟩
      · rw [if_neg upstream] at h
        cases hsql : plan.toWindowedSelect.toSql d with
        | error e =>
            rw [hsql] at h
            cases h
        | ok sql =>
            rw [hsql] at h
            cases h
            exact .inr ⟨upstream, sql, rfl, rfl⟩

/-- A query that succeeds without a page has sent the text that its preview shows, if there is one, and
nothing else. -/
theorem run_sends {c : StepContext} (whole : c.pagination = none) {output : StepOutput}
    (h : (Query.run c).start.1 = .ok output) {text : Option String}
    (hpreview : previewSql c.config c.dependencies c.dialect = .ok text) :
    (Query.run c).start.2 = text.toList := by
  obtain ⟨config, plan, hread, hplan, hshown⟩ := previewSql_eq_ok hpreview
  rw [run_start, StepContext.readConfig_eq_ok.mpr hread] at h ⊢
  dsimp only at h ⊢
  rw [hplan] at h ⊢
  dsimp only at h ⊢
  rcases hshown with ⟨upstream, rfl⟩ | ⟨apart, sql, hsql, rfl⟩
  · have hdepends : c.dependsOn plan.source = true := decide_eq_true upstream
    rw [if_pos hdepends]
    rfl
  · have hdepends : ¬ c.dependsOn plan.source = true := fun hdepends =>
      apart (of_decide_eq_true hdepends)
    rw [if_neg hdepends] at h ⊢
    obtain ⟨sent, hstatement, hsent⟩ := runOnTable_sends whole h
    cases hsql.symm.trans hstatement
    exact hsent

end Query

/-! ## A run of queries -/

namespace Run

variable {w : Workshop} {settings : RunSettings} {p : Pipeline} {params : Parameters}

/-- A run whose steps take nothing from a cache: the call or the settings of the engine switch it off, or
there is none. -/
def Uncached (w : Workshop) (settings : RunSettings) (j : Journal) : Prop :=
  settings.useCache = false ∨ w.config.stepCacheEnabled = false ∨ j.cache = none

/-- A step that is carried out without a key enters what its engine sent, and leaves the cache alone. -/
theorem runFresh_unkeyed (s : Step) (c : StepContext) (j : Journal) :
    ((runFresh w s c none).run j).2.sent = j.sent ++ (w.registry.run c).start.2 ∧
      ((runFresh w s c none).run j).2.cache = j.cache := by
  rw [runFresh]
  simp only [StateT.run_bind]
  have hsend : (Recorded.send (w.registry.run c)).run j =
      ((w.registry.run c).start.1, { j with sent := j.sent ++ (w.registry.run c).start.2 }) := rfl
  rw [hsend]
  cases (w.registry.run c).start.1 with
  | ok output => exact ⟨rfl, rfl⟩
  | error f => exact ⟨rfl, rfl⟩

/-- A step without the cache ends as its engine does, and what was sent for it is entered. -/
theorem runStep_sends {j : Journal} (uncached : Uncached w settings j) (s : Step) (c : StepContext) :
    ((runStep w settings s c).run j).1 = ((w.registry.run c).start.1, false) ∧
      ((runStep w settings s c).run j).2.sent = j.sent ++ (w.registry.run c).start.2 ∧
      Uncached w settings ((runStep w settings s c).run j).2 := by
  have hkey : cacheKey? w settings j.cache.isSome s c = none := by
    rcases uncached with off | disabled | hnone
    · simp [cacheKey?, off]
    · simp [cacheKey?, disabled]
    · simp [cacheKey?, hnone]
  rw [runStep_run, hkey]
  dsimp only
  obtain ⟨hsent, hcache⟩ := @runFresh_unkeyed w s c
    { j with events := j.events ++ [.stepStarted s.name s.kind.name] }
  refine ⟨?_, hsent, ?_⟩
  · exact congrArg (·, false) (runFresh_outcome w s c none _)
  · rcases uncached with off | disabled | hnone
    · exact .inl off
    · exact .inr (.inl disabled)
    · exact .inr (.inr (hcache.trans hnone))

/-- Where no step failed, no failure is on record. -/
theorem Books.unfailed {steps : List Step} {progress : Progress}
    (h : Books w settings p params steps progress)
    (succeeded : ∀ t ∈ progress.results, t.status ≠ .failed) : progress.log.failures = [] := by
  have hfacts := h.failures
  have hempty : resultsWith .failed progress.results = [] := by
    rw [resultsWith, List.filter_eq_nil_iff]
    intro t ht
    simpa using succeeded t ht
  rw [hempty] at hfacts
  exact List.map_eq_nil_iff.mp hfacts

/-- What a step of a run sends where its engine succeeds, whatever the outputs before it. -/
def Sends (w : Workshop) (settings : RunSettings) (p : Pipeline) (params : Parameters) (s : Step)
    (text : Option String) : Prop :=
  ∀ outputs output, (w.registry.run (contextOf w settings p params outputs s)).start.1 = .ok output →
    (w.registry.run (contextOf w settings p params outputs s)).start.2 = text.toList

/-- A run without the cache in which nothing fails sends the texts of its steps in their order. -/
theorem runSteps_sends {steps : List Step} {planned : List PlannedStep}
    (hsteps : List.Forall₂ (fun s t => Sends w settings p params s t.sql) steps planned)
    {progress : Progress} {j : Journal} (uncached : Uncached w settings j)
    (unfailed : ((runSteps w settings p params steps progress).run j).1.log.failures = []) :
    ((runSteps w settings p params steps progress).run j).2.sent =
      j.sent ++ planned.filterMap PlannedStep.sql := by
  induction hsteps generalizing progress j with
  | nil => exact (List.append_nil _).symm
  | @cons s t rest planned hsends _ ih =>
      -- nothing failed before the last step either, so the run does not stop at this one
      have hnone : progress.log.failures = [] :=
        List.prefix_nil.mp (unfailed ▸ runSteps_failures (s :: rest) progress j)
      have hgo : progress.log.shouldStop = false := by
        simp [FailureLog.shouldStop, hnone]
      rw [runSteps_go hgo] at unfailed ⊢
      dsimp only at unfailed ⊢
      obtain ⟨houtcome, hsent, hstays⟩ := runStep_sends uncached s
        (contextOf w settings p params progress.outputs s)
      cases hrun : (w.registry.run (contextOf w settings p params progress.outputs s)).start.1 with
      | ok output =>
          rw [ih hstays unfailed, hsent, hsends _ output hrun]
          cases htext : t.sql with
          | none => rw [List.filterMap_cons_none htext, Option.toList_none, List.append_nil]
          | some sql =>
              rw [List.filterMap_cons_some htext, Option.toList_some, List.append_assoc,
                List.singleton_append]
      | error f =>
          -- a failure would be among those the run ends with
          rw [houtcome, hrun] at unfailed
          have hlogged := @runSteps_failures w settings p params rest
            (progress.enter s (.error f) false) ((runStep w settings s
              (contextOf w settings p params progress.outputs s)).run j).2
          rw [unfailed] at hlogged
          simp [Progress.enter, FailureLog.recordFailure] at hlogged

end Run

namespace Engine

/-! ## Plans and runs -/

/-- A query sends what its plan shows, as far as it is asked for no page. -/
theorem planStep_sends {w : Workshop} (standard : w.registry = .standard) {settings : RunSettings}
    (whole : settings.pagination = none) {p : Pipeline} {s : Step} (query : s.kind = .query)
    {t : PlannedStep} (h : planStep w p s = .ok t) (params : Parameters) :
    Run.Sends w settings p params s t.sql := by
  intro outputs output hrun
  have hengine : w.registry.run (Run.contextOf w settings p params outputs s) =
      Query.run (Run.contextOf w settings p params outputs s) := by
    rw [standard]
    exact StepRegistry.run_eq (congrArg StepRegistry.standard query)
  have hpage : (Run.contextOf w settings p params outputs s).pagination = none := by
    simp [Run.contextOf, whole]
  rw [hengine] at hrun ⊢
  rw [planStep, query] at h
  obtain ⟨text, hpreview, h⟩ := bind_eq_ok h
  cases h
  exact Query.run_sends hpage hrun hpreview

/-- The end of a run sends nothing. -/
theorem conclude_sent (w : Workshop) (key : Option String) (r : RunResult) (j : Journal) :
    ((conclude w key r).run j).2.sent = j.sent := by
  rw [conclude]
  cases r.success with
  | false => rfl
  | true =>
      cases key with
      | none => rfl
      | some k => cases r.failures.isEmpty <;> rfl

/-- What resolution leaves of a document of queries are queries. -/
theorem resolve_queries {document : Json} {params params' : Parameters} {p : Pipeline}
    (queries : ∀ read, Pipeline.ofJson document = .ok read → ∀ s ∈ read.steps, s.kind = .query)
    (hresolve : resolve document params = .ok (p, params')) :
    ∀ s ∈ p.orderedSteps, s.kind = .query := by
  obtain ⟨read, -, hread, -, -⟩ := resolve_eq_ok hresolve
  obtain ⟨-, -, hsteps⟩ := resolve_steps hread hresolve
  intro s hs
  obtain ⟨name, -, hfound⟩ := List.mem_filterMap.mp hs
  obtain ⟨written, hwritten, -, hkind, -⟩ := hsteps s (List.mem_of_find?_eq_some hfound)
  exact hkind.symm.trans (queries read hread written hwritten)

/-- A call that takes nothing from the caches: it switches them off, the settings of the engine do, or
there are none. -/
def Uncached (w : Workshop) (options : RunOptions) (s : EngineState) : Prop :=
  options.useCache = some false ∨
    w.config.pipelineCacheEnabled = false ∧ w.config.stepCacheEnabled = false ∨
    s.journal.cache = none

theorem Uncached.resultKey {w : Workshop} {options : RunOptions} {s : EngineState}
    (h : Uncached w options s) (p : Pipeline) (params : Parameters)
    (page : Option (UInt64 × UInt64)) :
    resultKey? w p params options page s.journal.cache.isSome = none := by
  rcases h with off | ⟨disabled, -⟩ | hnone
  · simp [resultKey?, off]
  · simp [resultKey?, disabled]
  · simp [resultKey?, hnone]

theorem Uncached.steps {w : Workshop} {options : RunOptions} {s : EngineState}
    (h : Uncached w options s) (page : Option (UInt64 × UInt64)) {j : Journal}
    (same : j.cache = s.journal.cache) : Run.Uncached w (settingsOf w options page) j := by
  rcases h with off | ⟨-, disabled⟩ | hnone
  · exact .inl (by simp [settingsOf, off])
  · exact .inr (.inl disabled)
  · exact .inr (.inr (same.trans hnone))

end Engine

/-- The plan of a document of queries shows the SQL that a run sends: where no page is asked for, nothing
comes from a cache and no step fails, the connector is sent the texts of the planned steps that have one,
in the order of the plan, and nothing else. -/
theorem explain_shows_sent {document : Json}
    (queries : ∀ p, Pipeline.ofJson document = .ok p → ∀ s ∈ p.steps, s.kind = .query) {w : Workshop}
    (standard : w.registry = .standard) {params : Parameters} {plan : ExecutionPlan}
    (hplan : Engine.explain w document params = .ok plan) {options : RunOptions}
    (unpaged : options.page = none ∧ options.pageSize = none) {s : EngineState}
    (uncached : Engine.Uncached w options s) :
    ∃ r s', (Engine.execute w document params options).run s = (.ok r, s') ∧
      ((∀ t ∈ r.stepResults, t.status ≠ .failed) →
        s'.journal.sent = s.journal.sent ++ plan.steps.filterMap PlannedStep.sql) := by
  rw [Engine.explain] at hplan
  obtain ⟨⟨p, params'⟩, hresolve, hplan⟩ := bind_eq_ok hplan
  obtain ⟨planned, hplanned, hplan⟩ := bind_eq_ok hplan
  cases hplan
  have hpage : options.pagination w.config = .ok none := by
    simp [RunOptions.pagination, unpaged.1, unpaged.2]
  let settings := Engine.settingsOf w options none
  let started : Journal := { s.journal with
    events := s.journal.events ++ [.runStarted p.metadata.name (s.runs + 1) p.order] }
  have hsteps : List.Forall₂ (fun s t => Run.Sends w settings p params' s t.sql) p.orderedSteps
      planned := by
    have hqueries := Engine.resolve_queries queries hresolve
    have hall := (List.forall₂_and_left _ _).mpr ⟨hqueries, forall₂_of_mapM hplanned⟩
    exact hall.imp fun s t h => Engine.planStep_sends standard rfl h.1 h.2 params'
  rw [Engine.execute_fresh hpage hresolve (uncached.resultKey p params' none), Engine.runFresh_run]
  refine ⟨_, _, rfl, ?_⟩
  intro unfailed
  dsimp only
  rw [Engine.conclude_sent]
  have hended := Run.runPipeline_ended w settings (Engine.resolve_wellFormed hresolve) params' started
  exact Run.runSteps_sends hsteps (uncached.steps none rfl) (hended.unfailed unfailed)

theorem explain_shows_sent_upstream :
    let w : Workshop := ⟨.standard, some oneNumber, {}⟩
    (∀ p, Pipeline.ofJson (sourceDocument "base") = .ok p → ∀ s ∈ p.steps, s.kind = .query) ∧
      ∃ plan r s', Engine.explain w (sourceDocument "base") sourceParameters = .ok plan ∧
        plan.steps.map PlannedStep.sql = [some "SELECT *\nFROM orders", none] ∧
        (Engine.execute w (sourceDocument "base") sourceParameters { useCache := some false }).run {} =
          (.ok r, s') ∧ s'.journal.sent = ["SELECT *\nFROM orders"] := by
  intro w
  have hqueries : ∀ p, Pipeline.ofJson (sourceDocument "base") = .ok p →
      ∀ s ∈ p.steps, s.kind = .query := by
    intro p hp
    have hread : ∃ p, Pipeline.ofJson (sourceDocument "base") = .ok p ∧
        p.steps.map Step.kind = [.query, .query] := ⟨_, rfl, rfl⟩
    obtain ⟨q, hq, hkinds⟩ := hread
    cases hq.symm.trans hp
    intro s hs
    simpa [hkinds] using List.mem_map_of_mem (f := Step.kind) hs
  have hplan : ∃ plan, Engine.explain w (sourceDocument "base") sourceParameters = .ok plan ∧
      plan.steps.map PlannedStep.sql = [some "SELECT *\nFROM orders", none] := ⟨_, rfl, rfl⟩
  obtain ⟨plan, hplan, htexts⟩ := hplan
  have huncached : Engine.Uncached w { useCache := some false } {} := .inl rfl
  obtain ⟨r, s', hrun, hsent⟩ := explain_shows_sent hqueries rfl hplan ⟨rfl, rfl⟩ huncached
  refine ⟨hqueries, plan, r, s', hplan, htexts, hrun, ?_⟩
  have hran : ∃ r s', (Engine.execute w (sourceDocument "base") sourceParameters
      { useCache := some false }).run {} = (.ok r, s') ∧
        r.stepResults.map StepResult.status = [.success, .success] := ⟨_, _, rfl, rfl⟩
  obtain ⟨ran, final, hran, hstatuses⟩ := hran
  cases hrun.symm.trans hran
  have hstatus : ∀ t ∈ r.stepResults, t.status ≠ .failed := by
    intro t ht
    have hmem := List.mem_map_of_mem (f := StepResult.status) ht
    rw [hstatuses] at hmem
    intro hfailed
    simp [hfailed] at hmem
  have hshown : plan.steps.filterMap PlannedStep.sql = ["SELECT *\nFROM orders"] := by
    have hid := (List.filterMap_map (f := PlannedStep.sql) (g := id) (l := plan.steps)).symm
    rw [htexts] at hid
    exact hid
  rw [hsent hstatus, hshown]
  rfl

end RowPipeline
