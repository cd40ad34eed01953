import RowPipeline.Proofs.Engines

/-!
# Runs without the cache

With the cache off, what a run comes to does not depend on its journal: each step ends as its engine
does in the context of the step. So a run can be cut in two at any step, and two runs can be compared
step by step. A page is shown to the output step alone, and only if that is a query.
-/

namespace RowPipeline

namespace Run

variable {w : Workshop} {settings : RunSettings} {p : Pipeline} {params : Parameters}

/-! ## Journals -/

/-- With the cache off a run does not depend on its journal. -/
theorem runSteps_uncached (off : settings.useCache = false) (steps : List Step) (progress : Progress)
    (j j' : Journal) :
    ((runSteps w settings p params steps progress).run j).1 =
      ((runSteps w settings p params steps progress).run j').1 := by
  induction steps generalizing progress j j' with
  | nil => rfl
  | cons s rest ih =>
      cases hstop : progress.log.shouldStop with
      | true => rw [runSteps_stop hstop, runSteps_stop hstop]
      | false =>
          rw [runSteps_go hstop, runSteps_go hstop]
          dsimp only
          rw [runStep_uncached settings off, runStep_uncached settings off]
          exact ih _ _ _

/-- A run of two lists of steps is a run of the first and then of the second. -/
theorem runSteps_append (front rest : List Step) (progress : Progress) (j : Journal) :
    (runSteps w settings p params (front ++ rest) progress).run j =
      let ran := (runSteps w settings p params front progress).run j
      (runSteps w settings p params rest ran.1).run ran.2 := by
  induction front generalizing progress j with
  | nil => rfl
  | cons s front ih =>
      cases hstop : progress.log.shouldStop with
      | true =>
          rw [List.cons_append, runSteps_stop hstop, runSteps_stop hstop]
          have hstop' : ({ progress with
              results := progress.results ++ (s :: front).map .skipped } : Progress).log.shouldStop =
                true := hstop
          dsimp only
          rw [runSteps_stop hstop', List.append_assoc, ← List.map_append, List.cons_append]
      | false =>
          rw [List.cons_append, runSteps_go hstop, runSteps_go hstop]
          exact ih _ _

/-! ## Pages -/

/-- The steps that get to see a page: the output step, if it is a query. -/
def Paged (p : Pipeline) (s : Step) : Prop := s.name = p.output ∧ s.kind = .query

/-- No other step can tell whether a page was asked for. -/
theorem contextOf_unpaged {s : Step} (h : ¬ Paged p s) (page : Option Pagination)
    (outputs : Record StepOutput) :
    contextOf w { settings with pagination := page } p params outputs s =
      contextOf w settings p params outputs s := by
  have hpage : (s.name = p.output && s.kind = .query : Bool) = false := by
    simpa [Paged] using h
  simp only [contextOf, hpage]
  rfl

/-- The output step sees the page and nothing else that differs. -/
theorem contextOf_paged {s : Step} (h : Paged p s) (page : Option Pagination)
    (outputs : Record StepOutput) :
    contextOf w { settings with pagination := page } p params outputs s =
      { contextOf w settings p params outputs s with pagination := page } := by
  simp only [contextOf, h.1, h.2]
  rfl

/-- Up to the output step a run goes the same way whether or not a page is asked for. -/
theorem runSteps_unpaged (off : settings.useCache = false) {steps : List Step}
    (apart : ∀ s ∈ steps, ¬ Paged p s) (page : Option Pagination) (progress : Progress)
    (j j' : Journal) :
    ((runSteps w { settings with pagination := page } p params steps progress).run j).1 =
      ((runSteps w settings p params steps progress).run j').1 := by
  induction steps generalizing progress j j' with
  | nil => rfl
  | cons s rest ih =>
      cases hstop : progress.log.shouldStop with
      | true => rw [runSteps_stop hstop, runSteps_stop hstop]
      | false =>
          rw [runSteps_go hstop, runSteps_go hstop]
          dsimp only
          rw [runStep_uncached settings off, runStep_uncached { settings with pagination := page } off,
            contextOf_unpaged (apart s List.mem_cons_self)]
          exact ih (fun t ht => apart t (List.mem_cons_of_mem _ ht)) _ _ _

/-- What the output step gives, told from a point that does not depend on the page: nothing, if the run
stops before it, and else what its engine gives. -/
theorem runPipeline_output (wellFormed : p.WellFormed) (off : settings.useCache = false) :
    ∃ (s : Step) (stopped : Bool) (outputs : Record StepOutput),
      p.step? p.output = some s ∧ ∀ (page : Option Pagination) (j : Journal),
        ((runPipeline w { settings with pagination := page } p params).run j).1.outputs.get? p.output =
          if stopped then none
          else (w.registry.run (contextOf w { settings with pagination := page } p params outputs
            s)).start.1.toOption := by
  obtain ⟨s, hs⟩ := p.step?_of_mem ((wellFormed.mem_order _).mp wellFormed.output_mem)
  have hname := Pipeline.name_of_step? hs
  have hmem : s ∈ p.orderedSteps := List.mem_filterMap.mpr ⟨p.output, wellFormed.output_mem, hs⟩
  -- the steps before the output step do not see the page, and those after it leave its output alone
  obtain ⟨front, rest, hsteps⟩ := List.append_of_mem hmem
  have hrun : Runnable p.dependenciesOf (front ++ s :: rest) := hsteps ▸ wellFormed.runnable
  have hfront : p.output ∉ front.map Step.name := hname ▸ hrun.fresh
  have hrest : p.output ∉ rest.map Step.name := by
    have hnodup := hrun.nodup
    rw [List.map_append, List.map_cons, List.nodup_append, List.nodup_cons] at hnodup
    exact hname ▸ hnodup.2.1.1
  have hapart : ∀ t ∈ front, ¬ Paged p t := fun t ht hpaged =>
    hfront (hpaged.1 ▸ List.mem_map_of_mem ht)
  let before := ((runSteps w settings p params front { log := { mode := settings.failureMode } }).run
    {}).1
  have hnone : before.outputs.get? p.output = none := by
    rw [runSteps_outputs hfront]
    rfl
  refine ⟨s, before.log.shouldStop, before.outputs, hs, ?_⟩
  intro page j
  rw [runPipeline, hsteps, runSteps_append]
  dsimp only
  rw [runSteps_unpaged off hapart page _ j {}]
  change ((runSteps w _ p params (s :: rest) before).run _).1.outputs.get? p.output = _
  cases hstop : before.log.shouldStop with
  | true =>
      rw [runSteps_stop hstop]
      exact hnone
  | false =>
      rw [runSteps_go hstop]
      dsimp only
      rw [runSteps_outputs hrest, runStep_uncached { settings with pagination := page } off]
      generalize (w.registry.run _).start.1 = outcome
      cases outcome with
      | ok output =>
          rw [Progress.enter, ← hname]
          exact Record.get?_insert_self ..
      | error f => exact hnone

end Run

/-- The options of a call with another page asked for. -/
def RunOptions.withPage (o : RunOptions) (page pageSize : Option UInt64) : RunOptions :=
  { o with page, pageSize }

namespace Engine

variable {w : Workshop} {document : Json} {params params' : Parameters} {options : RunOptions}
  {page : Option (UInt64 × UInt64)} {p : Pipeline}

/-- A call whose result is not to come from the cache makes a run. -/
theorem execute_fresh (hpage : options.pagination w.config = .ok page)
    (hresolve : resolve document params = .ok (p, params')) {s : EngineState}
    (hkey : resultKey? w p params' options page s.journal.cache.isSome = none) :
    (execute w document params options).run s =
      let ran := (runFresh w p params' (settingsOf w options page) page none).run s
      (.ok ran.1, ran.2) := by
  have hrun : (runResolved w p params' options page).run s =
      (runFresh w p params' (settingsOf w options page) page none).run s := by
    rw [runResolved_run, hkey]
    rfl
  rw [execute, hpage]
  dsimp only
  rw [hresolve, ← hrun]
  rfl

/-- A call with the cache off makes a run. -/
theorem execute_uncached (w : Workshop) {document : Json} {params : Parameters} (options : RunOptions)
    (off : options.useCache = some false) {page : Option (UInt64 × UInt64)}
    (hpage : options.pagination w.config = .ok page) {p : Pipeline} {params' : Parameters}
    (hresolve : resolve document params = .ok (p, params')) (s : EngineState) :
    ∃ j, ((execute w document params options).run s).1 =
      .ok (resultOf p (settingsOf w options page).failureMode page (s.runs + 1)
        ((Run.runPipeline w (settingsOf w options page) p params').run j).1) := by
  have hkey : resultKey? w p params' options page s.journal.cache.isSome = none := by
    simp [resultKey?, off]
  refine ⟨{ s.journal with
    events := s.journal.events ++ [.runStarted p.metadata.name (s.runs + 1) p.order] }, ?_⟩
  rw [execute_fresh hpage hresolve hkey, runFresh_run]

end Engine

end RowPipeline
