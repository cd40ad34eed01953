import RowPipeline.Engine
import RowPipeline.Proofs.Journals
import RowPipeline.Proofs.Outcomes
import RowPipeline.Proofs.Runs

/-!
# Engines

What a call of an engine returns: the result of a run, of this call or, through the cache, of an
earlier one. A cached result is one of a run without failures, so it can be told from its run like a
fresh one.
-/

namespace RowPipeline

/-! ## Runs and the cache -/

namespace Run

variable {P : String → Stored → Prop} {j : Journal}

/-- An output that is recalled has the property of the entries. -/
theorem recallOutput_holds (h : j.Holds P) (key : Option String) :
    ((recallOutput key).run j).2.Holds P ∧
      ∀ output, ((recallOutput key).run j).1 = some output →
        ∃ k, key = some k ∧ P k (.step output) := by
  cases key with
  | none => exact ⟨h, fun output houtput => by cases houtput⟩
  | some key =>
      obtain ⟨hkept, hfound⟩ := h.find key
      rw [recallOutput]
      simp only [StateT.run_bind]
      generalize (Recorded.find key).run j = found at hkept hfound
      obtain ⟨v, j'⟩ := found
      rcases v with _ | v
      · exact ⟨hkept, fun output houtput => by cases houtput⟩
      cases v with
      | step output =>
          refine ⟨hkept, ?_⟩
          intro other hother
          cases hother
          exact ⟨key, rfl, hfound _ rfl⟩
      | run r => exact ⟨hkept, fun output houtput => by cases houtput⟩

/-- Carrying out a step keeps the property, if its output has it under the key of the step. -/
theorem runFresh_holds (h : j.Holds P) (w : Workshop) (s : Step) (c : StepContext)
    (key : Option String)
    (stored : ∀ k output, key = some k → (w.registry.run c).start.1 = .ok output →
      P k (Stored.step output).throughJson) :
    ((runFresh w s c key).run j).2.Holds P := by
  rw [runFresh]
  simp only [StateT.run_bind]
  have hsent := h.send (w.registry.run c)
  generalize hsend : (Recorded.send (w.registry.run c)).run j = sent at hsent
  have houtcome : sent.1 = (w.registry.run c).start.1 := by
    rw [← hsend]
    rfl
  obtain ⟨outcome, j'⟩ := sent
  dsimp only at houtcome
  subst houtcome
  cases hrun : (w.registry.run c).start.1 with
  | ok output =>
      cases key with
      | none => exact hsent.tell _
      | some k => exact (hsent.tell _).store _ (stored k output rfl hrun)
  | error f => exact hsent.tell _

/-- A step keeps the property, if its output has it under the key of the step. -/
theorem runStep_holds (h : j.Holds P) (w : Workshop) (settings : RunSettings) (s : Step)
    (c : StepContext)
    (stored : ∀ k output, cacheKey? w settings j.cache.isSome s c = some k →
      (w.registry.run c).start.1 = .ok output → P k (Stored.step output).throughJson) :
    ((runStep w settings s c).run j).2.Holds P := by
  have hstarted : Journal.Holds P
      { j with events := j.events ++ [.stepStarted s.name s.kind.name] } := h.of_cache rfl
  have hrecall := (recallOutput_holds hstarted (cacheKey? w settings j.cache.isSome s c)).1
  rw [runStep_run]
  dsimp only
  split
  · rename_i output j' hfound
    rw [hfound] at hrecall
    exact hrecall.of_cache rfl
  · rename_i j' hfound
    rw [hfound] at hrecall
    exact runFresh_holds hrecall w s c _ stored

/-- Running steps keeps a property that every output of a step has. -/
theorem runSteps_holds (h : j.Holds P) (stored : ∀ k output, P k (.step output)) (w : Workshop)
    (settings : RunSettings) (p : Pipeline) (params : Parameters) (steps : List Step)
    (progress : Progress) :
    ((runSteps w settings p params steps progress).run j).2.Holds P := by
  induction steps generalizing progress j with
  | nil => exact h
  | cons s rest ih =>
      cases hstop : progress.log.shouldStop with
      | true =>
          rw [runSteps_stop hstop]
          exact h
      | false =>
          rw [runSteps_go hstop]
          exact ih (runStep_holds h w settings s _ fun k output _ _ => stored k _) _

end Run

/-! ## Results and their runs -/

/-- One run: what it was carried out with, and the journal before it. -/
structure RunCase where
  workshop : Workshop
  settings : RunSettings
  pipeline : Pipeline
  params : Parameters
  page : Option (UInt64 × UInt64)
  number : Nat
  journal : Journal

namespace RunCase

def progress (o : RunCase) : Progress :=
  ((Run.runPipeline o.workshop o.settings o.pipeline o.params).run o.journal).1

def result (o : RunCase) : RunResult :=
  Engine.resultOf o.pipeline o.settings.failureMode o.page o.number o.progress

end RunCase

/-- A result as it comes back from the cache. -/
def RunResult.recalled (r : RunResult) : RunResult :=
  { r with rows := r.rows.map Row.throughJson, cacheHit := true }

/-- What a cached result is: the result of a run of a well-formed pipeline. -/
def Kept : String → Stored → Prop
  | _, .step _ => True
  | _, .run r => ∃ o : RunCase, o.pipeline.WellFormed ∧
      { r with cacheHit := true } = o.result.recalled

namespace Engine

/-- The states of engines whose cache was empty at first. Between the calls time goes on, and each
call may bring its own step engines, connector and settings. -/
inductive Reachable : EngineState → Prop
  | start (s : EngineState) : (∀ cache, s.journal.cache = some cache → cache.entries = {}) →
      Reachable s
  | execute {s : EngineState} (w : Workshop) (document : Json) (params : Parameters)
      (options : RunOptions) : Reachable s →
      Reachable ((Engine.execute w document params options).run s).2
  | close {s : EngineState} (w : Workshop) : Reachable s → Reachable ((Engine.close w).run s).2
  | clearCache {s : EngineState} : Reachable s → Reachable (Engine.clearCache.run s).2
  | wait {s : EngineState} (now : Nat) : Reachable s →
      Reachable { s with journal := { s.journal with now } }

/-- A resolved pipeline is what the document says, with the filters resolved and the parameters
filled in. -/
theorem resolve_eq_ok {document : Json} {params params' : Parameters} {p : Pipeline}
    (h : resolve document params = .ok (p, params')) :
    ∃ read filtered, Pipeline.ofJson document = .ok read ∧
      read.resolveFilters params' = .ok filtered ∧ p = filtered.substitute params' := by
  rw [resolve] at h
  obtain ⟨read, hread, h⟩ := bind_eq_ok h
  obtain ⟨resolved, -, h⟩ := bind_eq_ok h
  obtain ⟨filtered, hfiltered, h⟩ := bind_eq_ok h
  cases h
  exact ⟨read, filtered, mapError_eq_ok hread, mapError_eq_ok hfiltered, rfl⟩

theorem resolve_wellFormed {document : Json} {params params' : Parameters} {p : Pipeline}
    (h : resolve document params = .ok (p, params')) : p.WellFormed := by
  obtain ⟨read, filtered, hread, hfiltered, rfl⟩ := resolve_eq_ok h
  exact ((Pipeline.WellFormed.of_ofJson hread).resolveFilters hfiltered).substitute params'

/-- A run of a call, written out. -/
theorem runFresh_run (w : Workshop) (p : Pipeline) (params : Parameters) (settings : RunSettings)
    (page : Option (UInt64 × UInt64)) (key : Option String) (s : EngineState) :
    (runFresh w p params settings page key).run s =
      let run := s.runs + 1
      let started := { s.journal with
        events := s.journal.events ++ [.runStarted p.metadata.name run p.order] }
      let ran := (Run.runPipeline w settings p params).run started
      let r := resultOf p settings.failureMode page run ran.1
      (r, { s with
        journal := ((conclude w key r).run ran.2).2
        runs := run
        connected := s.connected || w.connector.isSome }) := rfl

/-- The settings of the run of a call. -/
def settingsOf (w : Workshop) (options : RunOptions) (page : Option (UInt64 × UInt64)) :
    RunSettings :=
  { useCache := options.useCache.getD true
    failureMode := .ofFlag (options.continueOnError.getD w.config.continueOnError)
    pagination := page.map fun p => .ofPage p.1 p.2 }

/-- The key of the result of a call, if it may come from the cache. -/
def resultKey? (w : Workshop) (p : Pipeline) (params : Parameters) (options : RunOptions)
    (page : Option (UInt64 × UInt64)) (hasCache : Bool) : Option String :=
  if options.useCache.getD true && w.config.pipelineCacheEnabled && hasCache then
    some (runKey p.toJson params (page.map Prod.fst) (page.map Prod.snd))
  else none

/-- A call whose result is not found in the cache makes a run. -/
theorem runResolved_run (w : Workshop) (p : Pipeline) (params : Parameters) (options : RunOptions)
    (page : Option (UInt64 × UInt64)) (s : EngineState) :
    (runResolved w p params options page).run s =
      let key := resultKey? w p params options page s.journal.cache.isSome
      match (recallResult key).run s.journal with
      | (some r, j) =>
          (r, { s with journal := { j with
            events := j.events ++ [.runRecalled p.metadata.name r.run r.rows.length] } })
      | (none, j) =>
          (runFresh w p params (settingsOf w options page) page key).run { s with journal := j } := by
  have hrecord : (EngineM.record (recallResult
      (resultKey? w p params options page s.journal.cache.isSome))).run s =
        let recalled := (recallResult
          (resultKey? w p params options page s.journal.cache.isSome)).run s.journal
        (recalled.1, { s with journal := recalled.2 }) := rfl
  rw [runResolved]
  simp only [StateT.run_bind, StateT.run_get, pure_bind]
  rw [resultKey?] at hrecord ⊢
  rw [hrecord]
  generalize (recallResult _).run s.journal = recalled
  obtain ⟨found, j⟩ := recalled
  cases found <;> rfl

/-- The end of a run keeps the property of the entries, if a result without failures has it under the
key of the run. -/
theorem conclude_holds {P : String → Stored → Prop} {j : Journal} (h : j.Holds P) (w : Workshop)
    (key : Option String) {r : RunResult}
    (stored : ∀ k, key = some k → r.failures = [] → P k (Stored.run r).throughJson) :
    ((conclude w key r).run j).2.Holds P := by
  rw [conclude]
  cases r.success with
  | false => exact h.tell _
  | true =>
      cases key with
      | none => exact h.tell _
      | some k =>
          cases hfailures : r.failures.isEmpty with
          | false => exact h.tell _
          | true => exact (h.store _ (stored k rfl (List.isEmpty_iff.mp hfailures))).tell _

/-- The results a call may return: that of its own run, or one that comes back from the cache. -/
def Returns (w : Workshop) (p : Pipeline) (params : Parameters) (page : Option (UInt64 × UInt64))
    (r : RunResult) : Prop :=
  ∃ o : RunCase, o.pipeline.WellFormed ∧
    (r = o.result ∧ o.workshop = w ∧ o.pipeline = p ∧ o.params = params ∧ o.page = page ∨
      r = o.result.recalled)

theorem runFresh_returns {s : EngineState} (h : s.journal.Holds Kept) (w : Workshop) {p : Pipeline}
    (wellFormed : p.WellFormed) (params : Parameters) (settings : RunSettings)
    (page : Option (UInt64 × UInt64)) (key : Option String) :
    let ran := (runFresh w p params settings page key).run s
    Returns w p params page ran.1 ∧ ran.2.journal.Holds Kept := by
  rw [runFresh_run]
  dsimp only
  let o : RunCase := ⟨w, settings, p, params, page, s.runs + 1,
    { s.journal with
      events := s.journal.events ++ [.runStarted p.metadata.name (s.runs + 1) p.order] }⟩
  have hstarted : o.journal.Holds Kept := h.of_cache rfl
  have hran : ((Run.runPipeline w settings p params).run o.journal).2.Holds Kept :=
    Run.runSteps_holds hstarted (fun _ _ => trivial) w settings p params p.orderedSteps _
  exact ⟨⟨o, wellFormed, .inl ⟨rfl, rfl, rfl, rfl, rfl⟩⟩,
    conclude_holds hran w key fun _ _ _ => ⟨o, wellFormed, rfl⟩⟩

/-- A result that is recalled has the property of the entries. -/
theorem recallResult_holds {P : String → Stored → Prop} {j : Journal} (h : j.Holds P)
    (key : Option String) :
    ((recallResult key).run j).2.Holds P ∧
      ∀ r, ((recallResult key).run j).1 = some r →
        ∃ k stored, key = some k ∧ P k (.run stored) ∧ r = { stored with cacheHit := true } := by
  cases key with
  | none => exact ⟨h, fun r hr => by cases hr⟩
  | some key =>
      obtain ⟨hkept, hfound⟩ := h.find key
      rw [recallResult]
      simp only [StateT.run_bind]
      generalize (Recorded.find key).run j = found at hkept hfound
      obtain ⟨v, j'⟩ := found
      rcases v with _ | v
      · exact ⟨hkept, fun r hr => by cases hr⟩
      cases v with
      | step output => exact ⟨hkept, fun r hr => by cases hr⟩
      | run stored =>
          refine ⟨hkept, ?_⟩
          intro r hr
          cases hr
          exact ⟨key, stored, rfl, hfound _ rfl, rfl⟩

theorem runResolved_returns {s : EngineState} (h : s.journal.Holds Kept) (w : Workshop)
    {p : Pipeline} (wellFormed : p.WellFormed) (params : Parameters) (options : RunOptions)
    (page : Option (UInt64 × UInt64)) :
    let ran := (runResolved w p params options page).run s
    Returns w p params page ran.1 ∧ ran.2.journal.Holds Kept := by
  dsimp only
  rw [runResolved_run]
  obtain ⟨hkept, hfound⟩ := recallResult_holds h
    (resultKey? w p params options page s.journal.cache.isSome)
  dsimp only
  split
  · rename_i r j hrecall
    rw [hrecall] at hkept hfound
    obtain ⟨k, stored, -, ⟨o, ho, hr⟩, rfl⟩ := hfound r rfl
    exact ⟨⟨o, ho, .inr hr⟩, hkept.of_cache rfl⟩
  · rename_i j hrecall
    rw [hrecall] at hkept
    exact runFresh_returns (s := { s with journal := j }) hkept w wellFormed params _ page _

/-- Calls keep the cached results, and return what they may. -/
theorem execute_returns {s : EngineState} (h : s.journal.Holds Kept) (w : Workshop)
    (document : Json) (params : Parameters) (options : RunOptions) :
    let ran := (execute w document params options).run s
    ran.2.journal.Holds Kept ∧
      ∀ r, ran.1 = .ok r → ∃ p params' page, resolve document params = .ok (p, params') ∧
        options.pagination w.config = .ok page ∧ Returns w p params' page r := by
  dsimp only
  rw [execute]
  cases hpage : options.pagination w.config with
  | error issue => exact ⟨h, fun r hr => by cases hr⟩
  | ok page =>
      cases hresolve : resolve document params with
      | error f => exact ⟨h, fun r hr => by cases hr⟩
      | ok resolved =>
          obtain ⟨p, params'⟩ := resolved
          obtain ⟨hreturns, hkept⟩ := runResolved_returns h w (resolve_wellFormed hresolve)
            params' options page
          refine ⟨hkept, ?_⟩
          intro r hr
          cases hr
          exact ⟨p, params', page, rfl, rfl, hreturns⟩

/-- The cache of an engine holds results of runs only. -/
theorem Reachable.kept {s : EngineState} (h : Reachable s) : s.journal.Holds Kept := by
  induction h with
  | start s empty => exact .of_empty empty
  | execute w document params options _ ih =>
      exact (execute_returns ih w document params options).1
  | close w _ ih => exact ih.of_cache rfl
  | @clearCache s _ _ =>
      have hcleared : (Engine.clearCache.run s).2.journal.cache =
          s.journal.cache.map Cache.clear := rfl
      exact .cleared hcleared
  | wait now _ ih => exact ih.of_cache rfl

end Engine

/-! ## What success tells -/

namespace Run

variable {w : Workshop} {settings : RunSettings} {p : Pipeline} {params : Parameters}
  {steps : List Step} {progress : Progress}

/-- A step whose result is a success has an output. -/
theorem Books.output_of_success (h : Books w settings p params steps progress) {t : StepResult}
    (ht : t ∈ progress.results) (hsuccess : t.status = .success) :
    ∃ output, progress.outputs.get? t.stepName = some output := by
  have hkey : t.stepName ∈ progress.outputs.keys := by
    rw [h.outputs]
    refine List.mem_map_of_mem ?_
    rw [resultsWith, List.mem_filter]
    exact ⟨ht, by simp [hsuccess]⟩
  rw [← Record.contains_iff_mem_keys] at hkey
  exact Option.isSome_iff_exists.mp hkey

/-- A step with an output has a result that is a success. -/
theorem Books.success_of_output (h : Books w settings p params steps progress) {name : String}
    (hname : name ∈ progress.outputs.keys) :
    ∃ t ∈ progress.results, t.stepName = name ∧ t.status = .success := by
  rw [h.outputs] at hname
  obtain ⟨t, ht, rfl⟩ := List.mem_map.mp hname
  rw [resultsWith, List.mem_filter, decide_eq_true_eq] at ht
  exact ⟨t, ht.1, rfl, ht.2⟩

/-- A failed result has its failure. -/
theorem Books.failures_of_failed (h : Books w settings p params steps progress) {t : StepResult}
    (ht : t ∈ progress.results) (hfailed : t.status = .failed) : progress.log.failures ≠ [] := by
  intro hnil
  have hfacts := h.failures
  rw [hnil] at hfacts
  have hmem : t ∈ resultsWith .failed progress.results := by
    rw [resultsWith, List.mem_filter]
    exact ⟨ht, by simp [hfailed]⟩
  rw [List.map_eq_nil_iff.mp hfacts.symm] at hmem
  exact List.not_mem_nil hmem

end Run

namespace RunCase

/-- A run of a well-formed pipeline ends with its books in order. -/
theorem ended {o : RunCase} (wellFormed : o.pipeline.WellFormed) :
    Run.Ended o.workshop o.settings o.pipeline o.params o.pipeline.orderedSteps o.progress :=
  Run.runPipeline_ended o.workshop o.settings wellFormed o.params o.journal

/-- A step has one result. -/
theorem result_unique {o : RunCase} (wellFormed : o.pipeline.WellFormed) {t t' : StepResult}
    (ht : t ∈ o.progress.results) (ht' : t' ∈ o.progress.results)
    (hname : t.stepName = t'.stepName) : t = t' := by
  have hnodup : (o.progress.results.map StepResult.stepName).Nodup := by
    rw [(ended wellFormed).names]
    exact wellFormed.runnable.nodup
  exact List.inj_on_of_nodup_map hnodup ht ht' hname

/-- A step without success has no output. -/
theorem no_output {o : RunCase} (wellFormed : o.pipeline.WellFormed) {t : StepResult}
    (ht : t ∈ o.progress.results) (unsuccess : t.status ≠ .success) :
    o.progress.outputs.get? t.stepName = none := by
  rw [Record.get?_eq_none_iff]
  intro hmem
  obtain ⟨t', ht', hname, hsuccess⟩ := (ended wellFormed).success_of_output hmem
  rw [result_unique wellFormed ht' ht hname] at hsuccess
  exact unsuccess hsuccess

/-- The output step has a result. -/
theorem output_result {o : RunCase} (wellFormed : o.pipeline.WellFormed) :
    ∃ t ∈ o.progress.results, t.stepName = o.pipeline.output := by
  have hmem : o.pipeline.output ∈ o.progress.results.map StepResult.stepName := by
    rw [(ended wellFormed).names, wellFormed.orderedNames]
    exact wellFormed.output_mem
  exact List.mem_map.mp hmem

/-- A run that counts as a success has an output of the output step. -/
theorem output_of_success {o : RunCase} (wellFormed : o.pipeline.WellFormed)
    (h : o.result.success = true) :
    (∃ t ∈ o.progress.results, t.stepName = o.pipeline.output ∧ t.status = .success) ∧
      ∃ output, o.progress.outputs.get? o.pipeline.output = some output := by
  have hended := ended wellFormed
  have hresult : ∃ t ∈ o.progress.results, t.stepName = o.pipeline.output ∧
      t.status = .success := by
    cases hmode : o.settings.failureMode with
    | failFast =>
        have hnone : o.progress.log.failures = [] := by
          simpa [result, Engine.resultOf, Engine.succeeded, hmode] using h
        obtain ⟨t, ht, hname⟩ := output_result wellFormed
        rcases hended.failFast hmode with hall | ⟨before, failed, after, heq, -, hfailed, -⟩
        · exact ⟨t, ht, hname, hall t ht⟩
        · exact absurd hnone (hended.failures_of_failed (by simp [heq]) hfailed)
    | continueOnError =>
        have hcontains : o.progress.outputs.contains o.pipeline.output = true := by
          simpa [result, Engine.resultOf, Engine.succeeded, hmode] using h
        exact hended.success_of_output ((Record.contains_iff_mem_keys _ _).mp hcontains)
  refine ⟨hresult, ?_⟩
  obtain ⟨t, ht, hname, hsuccess⟩ := hresult
  rw [← hname]
  exact hended.output_of_success ht hsuccess

/-- A run that does not count as a success has a failure to tell. -/
theorem failures_of_unsuccess {o : RunCase} (wellFormed : o.pipeline.WellFormed)
    (h : o.result.success = false) : o.progress.log.failures ≠ [] := by
  have hended := ended wellFormed
  cases hmode : o.settings.failureMode with
  | failFast => simpa [result, Engine.resultOf, Engine.succeeded, hmode] using h
  | continueOnError =>
      have hcontains : o.progress.outputs.contains o.pipeline.output = false := by
        simpa [result, Engine.resultOf, Engine.succeeded, hmode] using h
      obtain ⟨t, ht, hname⟩ := output_result wellFormed
      refine hended.failures_of_failed ht ?_
      cases hstatus : t.status with
      | failed => rfl
      | skipped => exact absurd hstatus (hended.continueOnError hmode t ht)
      | success =>
          obtain ⟨output, houtput⟩ := hended.output_of_success ht hstatus
          rw [hname] at houtput
          rw [Record.contains, houtput] at hcontains
          cases hcontains

end RunCase

/-! ## Bookkeeping -/

/-- The books of a run of a pipeline, from its final state. -/
structure Bookkeeping (w : Workshop) (settings : RunSettings) (p : Pipeline) (params : Parameters)
    (j : Journal) (final : Progress) : Prop where
  /-- Every step is listed once, in the order of the run. -/
  listed : final.results.map StepResult.stepName = p.order
  order_nodup : p.order.Nodup
  mem_order : ∀ name, name ∈ p.order ↔ name ∈ p.steps.map Step.name
  outputs : final.outputs.keys =
    (Run.resultsWith .success final.results).map StepResult.stepName
  failures : final.log.failures.map FailureRecord.facts =
    (Run.resultsWith .failed final.results).map StepResult.facts
  failFast : settings.failureMode = .failFast → Run.StopsAtFailure final.results
  continueOnError : settings.failureMode = .continueOnError →
    ∀ r ∈ final.results, r.status ≠ .skipped
  /-- Each step was skipped, recalled, or ended in its context. -/
  accounts : List.Forall₂ (Run.Account w settings p params final.outputs) p.orderedSteps
    final.results
  /-- The inputs in that context are the rows of the dependencies that succeeded. -/
  inputs : ∀ s ∈ p.orderedSteps, ∀ name,
    (Run.contextOf w settings p params final.outputs s).inputs.get? name =
      if name ∈ p.dependenciesOf s.name then (final.outputs.get? name).map StepOutput.rows
      else none
  /-- The engines were asked in no other context: engines that answer alike in these lead to the
  same run. -/
  asked : ∀ registry : StepRegistry,
    (∀ s ∈ p.orderedSteps, ∀ r ∈ final.results, r.stepName = s.name → r.status ≠ .skipped →
      r.cacheHit = false →
      registry.run (Run.contextOf w settings p params final.outputs s) =
        w.registry.run (Run.contextOf w settings p params final.outputs s)) →
    (Run.runPipeline { w with registry } settings p params).run j =
      (Run.runPipeline w settings p params).run j

theorem Run.runPipeline_books (w : Workshop) (settings : RunSettings) {p : Pipeline}
    (h : p.WellFormed) (params : Parameters) (j : Journal) :
    Bookkeeping w settings p params j ((runPipeline w settings p params).run j).1 := by
  have hended := runPipeline_ended w settings h params j
  exact
    { listed := hended.names.trans h.orderedNames
      order_nodup := h.order_nodup
      mem_order := h.mem_order
      outputs := hended.outputs
      failures := hended.failures
      failFast := hended.failFast
      continueOnError := hended.continueOnError
      accounts := hended.accounts
      inputs := fun s _ => contextOf_inputs w settings p params _ s
      asked := fun registry same => @runSteps_registry w settings p params registry [] _ _ h.runnable j same }

/-- What the result of a call tells: with success, that the output step succeeded and the rows are a
page of its output; without, a failure. -/
structure Truthful (o : RunCase) (r : RunResult) : Prop where
  output : r.output = o.pipeline.output
  steps : r.stepResults = o.progress.results
  failures : r.failures = o.progress.log.failures
  success : r.success = true →
    (∃ t ∈ r.stepResults, t.stepName = r.output ∧ t.status = .success) ∧
      ∃ output, o.progress.outputs.get? r.output = some output ∧
        r.page = (Engine.pageOf (some output) o.page).2 ∧
        r.rows = if r.cacheHit then
            (Engine.pageOf (some output) o.page).1.map Row.throughJson
          else (Engine.pageOf (some output) o.page).1
  failure : r.success = false → ∃ f rest, r.failures = f :: rest ∧ r.error? = some f.toError

theorem RunCase.result_truthful {o : RunCase} (h : o.pipeline.WellFormed) :
    Truthful o o.result where
  output := rfl
  steps := rfl
  failures := rfl
  success := by
    intro hsuccess
    obtain ⟨hresult, output, houtput⟩ := output_of_success h hsuccess
    refine ⟨hresult, output, houtput, ?_, ?_⟩
    · rw [← houtput]
      rfl
    · rw [← houtput]
      rfl
  failure := by
    intro hfailure
    obtain ⟨f, rest, heq⟩ := List.exists_cons_of_ne_nil (failures_of_unsuccess h hfailure)
    have hfailures : o.result.failures = f :: rest := heq
    refine ⟨f, rest, heq, ?_⟩
    rw [RunResult.error?, hfailure, hfailures]
    rfl

theorem Truthful.recalled {o : RunCase} (h : Truthful o o.result) :
    Truthful o o.result.recalled where
  output := rfl
  steps := rfl
  failures := rfl
  success := by
    intro hsuccess
    obtain ⟨hresult, output, houtput, hpage, hrows⟩ := h.success hsuccess
    refine ⟨hresult, output, houtput, hpage, ?_⟩
    have hplain : o.result.rows = (Engine.pageOf (some output) o.page).1 := hrows
    simp only [RunResult.recalled, hplain, if_true]
  failure := h.failure

/-- A run keeps its books, whatever the step engines, the settings and the journal; and a call of an
engine returns the result of such a run, of this call or of an earlier one, which tells the truth
about it. An engine is asked once for each step, so one with a state of its own is no exception. -/
theorem execute_keeps_books {document : Json} {p : Pipeline} (hp : Pipeline.ofJson document = .ok p)
    {s : EngineState} (hs : Engine.Reachable s) (w : Workshop) (settings : RunSettings)
    (params : Parameters) (j : Journal) (options : RunOptions) :
    Bookkeeping w settings p params j ((Run.runPipeline w settings p params).run j).1 ∧
      ∀ r s', (Engine.execute w document params options).run s = (.ok r, s') →
        ∃ o : RunCase, Truthful o r ∧
          Bookkeeping o.workshop o.settings o.pipeline o.params o.journal o.progress ∧
          (r.cacheHit = false → o.workshop = w ∧ options.pagination w.config = .ok o.page ∧
            Engine.resolve document params = .ok (o.pipeline, o.params)) := by
  refine ⟨Run.runPipeline_books w settings (.of_ofJson hp) params j, ?_⟩
  intro r s' hcall
  obtain ⟨-, hreturns⟩ := Engine.execute_returns hs.kept w document params options
  rw [hcall] at hreturns
  obtain ⟨q, params', page, hresolve, hpage, o, ho, hr⟩ := hreturns r rfl
  have hbooks := Run.runPipeline_books o.workshop o.settings ho o.params o.journal
  rcases hr with ⟨rfl, hw, hpipeline, hparams, hpages⟩ | rfl
  · refine ⟨o, o.result_truthful ho, hbooks, fun _ => ⟨hw, hpages ▸ hpage, ?_⟩⟩
    rw [hpipeline, hparams]
    exact hresolve
  · exact ⟨o, (o.result_truthful ho).recalled, hbooks, fun hhit => by cases hhit⟩

/-- Two steps, the second of which reads the first. -/
def sampleDocument : Json :=
  .object [("steps", .array [
    .object [("name", .string "all"), ("type", .string "union"),
      ("config", .object [("sources", .array [.string "orders"])])],
    .object [("name", .string "orders"), ("type", .string "query"),
      ("config", .object [("data_source", .string "orders")])]]),
    ("output", .string "all")]

theorem execute_keeps_books_sample :
    ∃ p, Pipeline.ofJson sampleDocument = .ok p ∧ p.order = ["orders", "all"] ∧
      let w : Workshop := ⟨.standard, none, {}⟩
      let settings : RunSettings := ⟨true, .failFast, none⟩
      Bookkeeping w settings p {} {} ((Run.runPipeline w settings p {}).run {}).1 := by
  have hread : ∃ p, Pipeline.ofJson sampleDocument = .ok p ∧ p.order = ["orders", "all"] :=
    ⟨_, rfl, rfl⟩
  obtain ⟨p, hp, horder⟩ := hread
  exact ⟨p, hp, horder, (execute_keeps_books hp (.start {} fun cache h => by cases h)
    ⟨.standard, none, {}⟩ ⟨true, .failFast, none⟩ {} {} {}).1⟩

end RowPipeline
