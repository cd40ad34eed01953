import RowPipeline.Proofs.OrderIndependence
import RowPipeline.Proofs.Pages

/-!
# What a page leaves alone

A run with a page and one without go side by side: steps that do not depend on the output step see the
same in both and fare alike. Only where runs fail fast can they part, at a step that depends on the
output step and fails in one of them alone. If the output step is no query nothing differs at all.
A step that does depend on it can tell: the rows of a query that cuts its own page are that page for
all.
-/

namespace RowPipeline

/-- Two runs side by side: the results of a step are the same unless it depends on the output step. Where
runs fail fast, a step that depends on it may fail in one of them alone, and that one skips the rest. -/
inductive Pipeline.Agree (p : Pipeline) (mode : FailureMode) :
    List StepResult → List StepResult → Prop
  | nil : Agree p mode [] []
  | cons {t t' : StepResult} {rest rest' : List StepResult} : t.stepName = t'.stepName →
      (¬ p.DependsOn t.stepName p.output → t = t') → Agree p mode rest rest' →
      Agree p mode (t :: rest) (t' :: rest')
  | parted {t t' : StepResult} {rest rest' : List StepResult} : mode = .failFast →
      t.stepName = t'.stepName → p.DependsOn t.stepName p.output →
      (t.status = .failed ∧ t'.status = .success ∧ (∀ r ∈ rest, r.status = .skipped) ∨
        t.status = .success ∧ t'.status = .failed ∧ ∀ r ∈ rest', r.status = .skipped) →
      Agree p mode (t :: rest) (t' :: rest')

namespace Pipeline

variable {p : Pipeline} {mode : FailureMode}

theorem Agree.refl (results : List StepResult) : p.Agree mode results results := by
  induction results with
  | nil => exact .nil
  | cons t rest ih => exact .cons rfl (fun _ => rfl) ih

end Pipeline

namespace Progress

/-- The result that an outcome enters. -/
def entryOf (s : Step) : Except Fault StepOutput → StepResult
  | .ok output => .succeeded s output false
  | .error f => .failed s (f.inStep s.name s.kind.name).message

theorem entryOf_stepName (s : Step) (outcome : Except Fault StepOutput) :
    (entryOf s outcome).stepName = s.name := by
  cases outcome <;> rfl

theorem entryOf_status (s : Step) (outcome : Except Fault StepOutput) :
    (entryOf s outcome).status = .success ∨ (entryOf s outcome).status = .failed := by
  cases outcome with
  | ok output => exact .inl rfl
  | error f => exact .inr rfl

theorem enter_entryOf (progress : Progress) (s : Step) (outcome : Except Fault StepOutput) :
    (progress.enter s outcome false).results = progress.results ++ [entryOf s outcome] := by
  cases outcome <;> rfl

theorem enter_mode (progress : Progress) (s : Step) (outcome : Except Fault StepOutput)
    (hit : Bool) : (progress.enter s outcome hit).log.mode = progress.log.mode := by
  cases outcome <;> rfl

/-- A run that goes on has to stop after a failure if it fails fast. -/
theorem enter_shouldStop {progress : Progress} (going : progress.log.shouldStop = false) (s : Step)
    (outcome : Except Fault StepOutput) :
    (progress.enter s outcome false).log.shouldStop = true ↔
      progress.log.mode = .failFast ∧ (entryOf s outcome).status = .failed := by
  cases outcome with
  | ok output =>
      have hgoing : (progress.enter s (.ok output) false).log.shouldStop = false := going
      simp [hgoing, entryOf, StepResult.succeeded]
  | error f =>
      have hstop : (progress.enter s (.error f) false).log.shouldStop =
          decide (progress.log.mode = .failFast) := by
        cases hfailures : progress.log.failures <;>
          simp [enter, FailureLog.shouldStop, FailureLog.recordFailure, hfailures]
      rw [hstop, decide_eq_true_iff]
      exact (and_iff_left rfl).symm

/-- In a run that fails fast and goes on after a step, the step succeeded. -/
theorem success_of_going {progress : Progress} (going : progress.log.shouldStop = false)
    (fast : progress.log.mode = .failFast) {s : Step} {outcome : Except Fault StepOutput}
    (goes : (progress.enter s outcome false).log.shouldStop = false) :
    (entryOf s outcome).status = .success := by
  refine (entryOf_status s outcome).resolve_right ?_
  intro hfailed
  rw [(enter_shouldStop going s outcome).mpr ⟨fast, hfailed⟩] at goes
  cases goes

end Progress

namespace Run

variable {w : Workshop} {settings : RunSettings} {p : Pipeline} {params : Parameters}

section Entries

variable {s : Step} {outcome outcome' : Except Fault StepOutput}

/-- A step that both runs go through, with one outcome in both unless it depends on the output step. -/
theorem agree_entries {mode : FailureMode} {rest rest' : List StepResult}
    (same : ¬ p.DependsOn s.name p.output → outcome' = outcome) (h : p.Agree mode rest rest') :
    p.Agree mode (Progress.entryOf s outcome :: rest) (Progress.entryOf s outcome' :: rest') := by
  refine .cons ?_ ?_ h
  · rw [Progress.entryOf_stepName, Progress.entryOf_stepName]
  · intro apart
    rw [Progress.entryOf_stepName] at apart
    rw [same apart]

/-- Where only one of two runs has to stop after a step, the step depends on the output step. -/
theorem dependsOn_of_stop {progress progress' : Progress} (going : progress.log.shouldStop = false)
    (going' : progress'.log.shouldStop = false) (mode : progress'.log.mode = progress.log.mode)
    (same : ¬ p.DependsOn s.name p.output → outcome' = outcome)
    (differ : (progress.enter s outcome false).log.shouldStop ≠
      (progress'.enter s outcome' false).log.shouldStop) : p.DependsOn s.name p.output := by
  by_contra apart
  rw [same apart] at differ
  refine differ (Bool.eq_iff_iff.mpr ?_)
  rw [Progress.enter_shouldStop going, Progress.enter_shouldStop going', mode]

end Entries

/-- Two runs show the same to every step that does not depend on the output step. -/
def ShowAlike (p : Pipeline) (first second : Record StepOutput) : Prop :=
  ∀ name, ¬ p.DependsOn name p.output → first.get? name = second.get? name

/-- A step that does not depend on the output step ends alike in both runs. -/
theorem outcome_apart {s : Step} (apart : ¬ p.DependsOn s.name p.output)
    {outputs outputs' : Record StepOutput} (alike : ShowAlike p outputs outputs')
    (page : Option Pagination) :
    contextOf w { settings with pagination := page } p params outputs' s =
      contextOf w settings p params outputs s := by
  have hunpaged : ¬ Paged p s := by
    intro hpaged
    rw [hpaged.1] at apart
    exact apart .refl
  rw [contextOf_unpaged hunpaged]
  refine contextOf_congr w settings p params ?_
  intro d hd
  exact (alike d fun hdepends => apart (.head hd hdepends)).symm

/-- Entering what a step came to in each run shows no more than that to steps that do not depend on
the output step. -/
theorem ShowAlike.enter {progress progress' : Progress}
    (alike : ShowAlike p progress.outputs progress'.outputs) (s : Step)
    {outcome outcome' : Except Fault StepOutput}
    (same : ¬ p.DependsOn s.name p.output → outcome' = outcome) :
    ShowAlike p (progress.enter s outcome false).outputs
      (progress'.enter s outcome' false).outputs := by
  intro name apart
  -- under the name of the step the new outputs are found, elsewhere those from before
  by_cases hname : name = s.name
  · rw [same (hname ▸ apart)]
    cases outcome with
    | ok output =>
        simp only [Progress.enter, hname, Record.get?_insert_self]
    | error f => exact alike name apart
  · rw [progress.enter_outputs hname, progress'.enter_outputs hname]
    exact alike name apart

/-- After a step, a run adds to the result of that step. -/
theorem runSteps_entered (steps : List Step) (progress : Progress) (s : Step)
    (outcome : Except Fault StepOutput) (j : Journal) :
    ∃ added, ((runSteps w settings p params steps (progress.enter s outcome false)).run j).1.results =
      progress.results ++ Progress.entryOf s outcome :: added := by
  obtain ⟨added, hadded⟩ := @runSteps_results w settings p params steps
    (progress.enter s outcome false) j
  rw [Progress.enter_entryOf, List.append_assoc] at hadded
  exact ⟨added, hadded.symm⟩

/-- If it has to stop after the step, it skips all others. -/
theorem runSteps_entered_stop (steps : List Step) {progress : Progress} {s : Step}
    {outcome : Except Fault StepOutput}
    (hstop : (progress.enter s outcome false).log.shouldStop = true) (j : Journal) :
    ((runSteps w settings p params steps (progress.enter s outcome false)).run j).1.results =
      progress.results ++ Progress.entryOf s outcome :: steps.map .skipped := by
  rw [runSteps_stop hstop]
  dsimp only
  rw [Progress.enter_entryOf, List.append_assoc, List.singleton_append]

theorem status_of_skipped {steps : List Step} :
    ∀ r ∈ steps.map StepResult.skipped, r.status = .skipped := by
  intro r hr
  obtain ⟨t, -, rfl⟩ := List.mem_map.mp hr
  rfl

/-- Runs side by side, from any point on where both still go. -/
theorem runSteps_agree (off : settings.useCache = false) (page : Option Pagination)
    {steps : List Step} {progress progress' : Progress}
    (going : progress.log.shouldStop = false) (going' : progress'.log.shouldStop = false)
    (mode : progress'.log.mode = progress.log.mode)
    (alike : ShowAlike p progress.outputs progress'.outputs) (j j' : Journal) :
    ∃ added added',
      ((runSteps w settings p params steps progress).run j).1.results =
        progress.results ++ added ∧
      ((runSteps w { settings with pagination := page } p params steps progress').run j').1.results =
        progress'.results ++ added' ∧
      p.Agree progress.log.mode added added' := by
  induction steps generalizing progress progress' j j' with
  | nil => exact ⟨[], [], (List.append_nil _).symm, (List.append_nil _).symm, .nil⟩
  | cons s rest ih =>
      rw [runSteps_go going, runSteps_go going']
      dsimp only
      rw [runStep_uncached settings off, runStep_uncached { settings with pagination := page } off]
      have hsame : ¬ p.DependsOn s.name p.output →
          (w.registry.run (contextOf w { settings with pagination := page } p params
            progress'.outputs s)).start.1 =
          (w.registry.run (contextOf w settings p params progress.outputs s)).start.1 := by
        intro apart
        rw [outcome_apart apart alike]
      generalize (w.registry.run (contextOf w settings p params progress.outputs s)).start.1 =
        outcome at hsame ⊢
      generalize (w.registry.run (contextOf w { settings with pagination := page } p params
        progress'.outputs s)).start.1 = outcome' at hsame ⊢
      have halike := alike.enter s hsame
      have hculprit := dependsOn_of_stop going going' mode hsame
      have hname : (Progress.entryOf s outcome).stepName = (Progress.entryOf s outcome').stepName := by
        rw [Progress.entryOf_stepName, Progress.entryOf_stepName]
      -- a run that stops skips what is left; where only one of them stops, they part here
      cases hfirst : (progress.enter s outcome false).log.shouldStop with
      | false =>
          cases hsecond : (progress'.enter s outcome' false).log.shouldStop with
          | false =>
              obtain ⟨added, added', hadded, hadded', hagree⟩ := ih hfirst hsecond
                (by rw [Progress.enter_mode, Progress.enter_mode, mode]) halike _ _
              rw [Progress.enter_mode] at hagree
              rw [hadded, hadded', Progress.enter_entryOf, Progress.enter_entryOf,
                List.append_assoc, List.append_assoc]
              exact ⟨_, _, rfl, rfl, agree_entries hsame hagree⟩
          | true =>
              obtain ⟨added, hadded⟩ := runSteps_entered rest progress s outcome _
              obtain ⟨hfast, hfailed⟩ := (Progress.enter_shouldStop going' s outcome').mp hsecond
              rw [mode] at hfast
              have hsuccess := Progress.success_of_going going hfast hfirst
              have hdepends := hculprit (by rw [hfirst, hsecond]; decide)
              rw [← Progress.entryOf_stepName s outcome] at hdepends
              exact ⟨_, _, hadded, runSteps_entered_stop rest hsecond _,
                .parted hfast hname hdepends (.inr ⟨hsuccess, hfailed, status_of_skipped⟩)⟩
      | true =>
          cases hsecond : (progress'.enter s outcome' false).log.shouldStop with
          | false =>
              obtain ⟨added, hadded⟩ := runSteps_entered rest progress' s outcome' _
              obtain ⟨hfast, hfailed⟩ := (Progress.enter_shouldStop going s outcome).mp hfirst
              have hsuccess := Progress.success_of_going going' (mode.trans hfast) hsecond
              have hdepends := hculprit (by rw [hfirst, hsecond]; decide)
              rw [← Progress.entryOf_stepName s outcome] at hdepends
              exact ⟨_, _, runSteps_entered_stop rest hfirst _, hadded,
                .parted hfast hname hdepends (.inl ⟨hfailed, hsuccess, status_of_skipped⟩)⟩
          | true =>
              exact ⟨_, _, runSteps_entered_stop rest hfirst _, runSteps_entered_stop rest hsecond _,
                agree_entries hsame (.refl _)⟩

/-- Whole runs side by side. -/
theorem runPipeline_agree (off : settings.useCache = false) (page : Option Pagination)
    (j j' : Journal) :
    p.Agree settings.failureMode ((runPipeline w settings p params).run j).1.results
      ((runPipeline w { settings with pagination := page } p params).run j').1.results := by
  let start : Progress := { log := { mode := settings.failureMode } }
  have hgoing : start.log.shouldStop = false := by
    simp [start, FailureLog.shouldStop]
  obtain ⟨added, added', hadded, hadded', hagree⟩ := @runSteps_agree w settings p params off page
    p.orderedSteps start start hgoing hgoing rfl (fun _ _ => rfl) j j'
  rw [runPipeline, runPipeline, hadded, hadded']
  exact hagree

end Run

namespace Engine

/-- Asking for a page leaves the steps alone that do not depend on the output step: a call with a page
and one without give the same result of each of them, unless runs fail fast and one of the two stops
at a step that depends on it. If the output step is no query the results of all steps are the same. -/
theorem page_leaves_others_alone (w : Workshop) {document : Json} {params params' : Parameters}
    {options : RunOptions} (off : options.useCache = some false) {p : Pipeline}
    (hresolve : resolve document params = .ok (p, params')) {page pageSize : Option UInt64}
    {number size : UInt64}
    (hpage : (options.withPage page pageSize).pagination w.config = .ok (some (number, size)))
    (s s₁ : EngineState) :
    ∃ whole paged,
      ((execute w document params (options.withPage none none)).run s).1 = .ok whole ∧
      ((execute w document params (options.withPage page pageSize)).run s₁).1 = .ok paged ∧
      ((∀ step ∈ p.steps, step.name = p.output → step.kind ≠ .query) →
        paged.stepResults = whole.stepResults) ∧
      p.Agree (.ofFlag (options.continueOnError.getD w.config.continueOnError)) whole.stepResults
        paged.stepResults := by
  have hoff : (settingsOf w options none).useCache = false := by
    rw [settingsOf, off]
    rfl
  obtain ⟨j, hj⟩ := execute_uncached w (options.withPage none none) off rfl hresolve s
  obtain ⟨j₁, hj₁⟩ := execute_uncached w (options.withPage page pageSize) off hpage hresolve s₁
  refine ⟨_, _, hj, hj₁, ?_, ?_⟩
  · intro other
    have hapart : ∀ t ∈ p.orderedSteps, ¬ Run.Paged p t := by
      intro t ht hpaged
      obtain ⟨name, -, hstep⟩ := List.mem_filterMap.mp ht
      exact other t (List.mem_of_find?_eq_some hstep) hpaged.1 hpaged.2
    exact congrArg Progress.results (@Run.runSteps_unpaged w (settingsOf w options none) p params'
      hoff p.orderedSteps hapart (some (.ofPage number size)) _ j₁ j)
  · exact @Run.runPipeline_agree w (settingsOf w options none) p params' hoff
      (some (.ofPage number size)) j j₁

/-- A query over the numbers of a table, of which a page is asked for, and a step that reads it. -/
def laterStepDocument : Json :=
  .object [("steps", .array [
    .object [("name", .string "numbers"), ("type", .string "query"),
      ("config", .object [("data_source", .string "table")])],
    .object [("name", .string "shown"), ("type", .string "query"),
      ("config", .object [("data_source", .string "numbers")])],
    .object [("name", .string "copy"), ("type", .string "union"),
      ("config", .object [("sources", .array [.string "shown"])])]]),
    ("output", .string "shown")]

def laterStepPipeline : Pipeline where
  metadata := {}
  parameters := []
  steps := [⟨"numbers", .query, .object [("data_source", .string "table")], true⟩,
    ⟨"shown", .query, .object [("data_source", .string "numbers")], true⟩,
    ⟨"copy", .union, .object [("sources", .array [.string "shown"])], true⟩]
  output := "shown"
  order := ["numbers", "shown", "copy"]
  dependencies := Record.ofList [("numbers", []), ("shown", ["numbers"]), ("copy", ["shown"])]

theorem page_leaves_others_alone_numbers :
    let w : Workshop := ⟨.standard, some numbersConnector, {}⟩
    let options : RunOptions := { useCache := some false }
    resolve laterStepDocument {} = .ok (laterStepPipeline, {}) ∧
      (options.withPage (some 1) (some 1)).pagination w.config = .ok (some (1, 1)) ∧
      ∃ whole paged,
        ((execute w laterStepDocument {} (options.withPage none none)).run {}).1 = .ok whole ∧
        ((execute w laterStepDocument {} (options.withPage (some 1) (some 1))).run {}).1 =
          .ok paged ∧
        laterStepPipeline.Agree .failFast whole.stepResults paged.stepResults := by
  intro w options
  have hresolve : resolve laterStepDocument {} = .ok (laterStepPipeline, {}) := rfl
  have hpage : (options.withPage (some 1) (some 1)).pagination w.config = .ok (some (1, 1)) := rfl
  obtain ⟨whole, paged, hwhole, hpaged, -, hagree⟩ :=
    page_leaves_others_alone w rfl hresolve hpage {} {}
  exact ⟨hresolve, hpage, whole, paged, hwhole, hpaged, hagree⟩

/-- A step that reads the output step can tell: of three rows it gets the one on the page. -/
theorem page_reaches_later_step :
    let w : Workshop := ⟨.standard, some numbersConnector, {}⟩
    let options : RunOptions := { useCache := some false }
    ∃ whole paged,
      ((execute w laterStepDocument {} (options.withPage none none)).run {}).1 = .ok whole ∧
      ((execute w laterStepDocument {} (options.withPage (some 1) (some 1))).run {}).1 = .ok paged ∧
      whole.output = "shown" ∧ paged.output = "shown" ∧
      (whole.stepResults.map fun t => (t.stepName, t.rowCount)) =
        [("numbers", 3), ("shown", 3), ("copy", 3)] ∧
      (paged.stepResults.map fun t => (t.stepName, t.rowCount)) =
        [("numbers", 3), ("shown", 1), ("copy", 1)] :=
  ⟨_, _, rfl, rfl, rfl, rfl, rfl, rfl⟩

end Engine

end RowPipeline
