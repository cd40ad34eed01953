import Mathlib.Data.List.Forall2
import RowPipeline.Run
import RowPipeline.Proofs.Documents

/-!
# Runs of steps

What a run leaves behind: the account of every step, the outputs by name and the failures. The invariant
of the run loop relates these lists to the steps that were gone through so far. It rests on two facts:
an output is entered under a new name, and a step reads only names that come before its own.
-/

namespace RowPipeline

/-! ## Orders of steps -/

theorem Pipeline.name_of_step? {p : Pipeline} {name : String} {s : Step}
    (h : p.step? name = some s) : s.name = name := by
  have hname := List.find?_some h
  exact eq_of_beq hname

/-- A name of a step finds its step. -/
theorem Pipeline.step?_of_mem {p : Pipeline} {name : String} (h : name ∈ p.steps.map Step.name) :
    ∃ s, p.step? name = some s := by
  obtain ⟨s, hs, rfl⟩ := List.mem_map.mp h
  rw [← Option.isSome_iff_exists, Pipeline.step?, List.find?_isSome]
  exact ⟨s, hs, by simp⟩

/-- Steps looked up by name stand in the order of the names. -/
theorem Pipeline.names_of_order (p : Pipeline) {order : List String}
    (known : ∀ name ∈ order, name ∈ p.steps.map Step.name) :
    (order.filterMap p.step?).map Step.name = order := by
  induction order with
  | nil => rfl
  | cons name rest ih =>
      obtain ⟨s, hs⟩ := p.step?_of_mem (known name List.mem_cons_self)
      rw [List.filterMap_cons_some hs, List.map_cons, Pipeline.name_of_step? hs,
        ih fun other hother => known other (List.mem_cons_of_mem _ hother)]

theorem Pipeline.WellFormed.orderedNames {p : Pipeline} (h : p.WellFormed) :
    p.orderedSteps.map Step.name = p.order :=
  p.names_of_order fun name hname => (h.mem_order name).mp hname

/-- Steps that can run one after the other: no name comes twice, and each comes after the names it
depends on. -/
structure Runnable (dependsOn : String → List String) (steps : List Step) : Prop where
  nodup : (steps.map Step.name).Nodup
  ordered : DependenciesFirst dependsOn (steps.map Step.name)

theorem Pipeline.WellFormed.runnable {p : Pipeline} (h : p.WellFormed) :
    Runnable p.dependenciesOf p.orderedSteps where
  nodup := by
    rw [h.orderedNames]
    exact h.order_nodup
  ordered := by
    rw [h.orderedNames]
    exact h.ordered

namespace Runnable

variable {dependsOn : String → List String} {front rest : List Step} {s : Step}

/-- The next step has a new name. -/
theorem fresh (h : Runnable dependsOn (front ++ s :: rest)) : s.name ∉ front.map Step.name := by
  have hnodup := h.nodup
  rw [List.map_append, List.map_cons, List.nodup_append] at hnodup
  intro hmem
  exact hnodup.2.2 _ hmem _ List.mem_cons_self rfl

/-- The next step depends on names before it. -/
theorem next_below (h : Runnable dependsOn (front ++ s :: rest)) :
    ∀ d ∈ dependsOn s.name, d ∈ front.map Step.name :=
  h.ordered (front.map Step.name) s.name (rest.map Step.name) (by simp)

/-- A step that was gone through depends on names before it. -/
theorem below (h : Runnable dependsOn (front ++ rest)) {t : Step} (ht : t ∈ front) :
    ∀ d ∈ dependsOn t.name, d ∈ front.map Step.name := by
  obtain ⟨before, after, rfl⟩ := List.append_of_mem ht
  intro d hd
  have hbefore := h.ordered (before.map Step.name) t.name ((after ++ rest).map Step.name)
    (by simp) d hd
  rw [List.map_append]
  exact List.mem_append_left _ hbefore

end Runnable

/-- What a failure record and the result of its step have in common. -/
def FailureRecord.facts (f : FailureRecord) : String × String × Option String :=
  (f.stepName, f.stepType, some f.message)

def StepResult.facts (r : StepResult) : String × String × Option String :=
  (r.stepName, r.kind.name, r.error)

namespace Progress

/-- Entering an outcome adds one result. -/
theorem enter_results (progress : Progress) (s : Step) (outcome : Except Fault StepOutput)
    (hit : Bool) : progress.results <+: (progress.enter s outcome hit).results := by
  cases outcome <;> exact List.prefix_append _ _

theorem enter_outputs (progress : Progress) {s : Step} {name : String} (h : name ≠ s.name)
    (outcome : Except Fault StepOutput) (hit : Bool) :
    (progress.enter s outcome hit).outputs.get? name = progress.outputs.get? name := by
  cases outcome with
  | ok output => exact progress.outputs.get?_insert_of_ne output h
  | error f => rfl

/-- A result of a step carried out is entered. -/
theorem enter_fresh (progress : Progress) (s : Step) (outcome : Except Fault StepOutput) :
    ∃ r ∈ (progress.enter s outcome false).results,
      r.stepName = s.name ∧ r.status ≠ .skipped ∧ r.cacheHit = false := by
  cases outcome with
  | ok output =>
      exact ⟨.succeeded s output false, List.mem_append_right _ (List.mem_singleton.mpr rfl), rfl,
        by simp [StepResult.succeeded], rfl⟩
  | error f =>
      exact ⟨.failed s (f.inStep s.name s.kind.name).message,
        List.mem_append_right _ (List.mem_singleton.mpr rfl), rfl, by simp [StepResult.failed], rfl⟩

end Progress

namespace Run

/-! ## What a step gets to see -/

/-- A step sees the rows of exactly those of its dependencies that have an output. -/
theorem contextOf_inputs (w : Workshop) (settings : RunSettings) (p : Pipeline)
    (params : Parameters) (outputs : Record StepOutput) (s : Step) (name : String) :
    (contextOf w settings p params outputs s).inputs.get? name =
      if name ∈ p.dependenciesOf s.name then (outputs.get? name).map StepOutput.rows else none := by
  have hform : (p.dependenciesOf s.name).filterMap (fun name =>
        (outputs.get? name).map fun output => (name, output.rows)) =
      (p.dependenciesOf s.name).filterMap fun name =>
        ((outputs.get? name).map StepOutput.rows).map fun rows => (name, rows) := by
    simp only [Option.map_map, Function.comp_def]
  rw [contextOf, hform]
  exact Record.get?_ofList_image (fun name => (outputs.get? name).map StepOutput.rows) _ name

/-- Outputs that agree on the dependencies of a step show it the same. -/
theorem contextOf_congr (w : Workshop) (settings : RunSettings) (p : Pipeline)
    (params : Parameters) {outputs outputs' : Record StepOutput} {s : Step}
    (h : ∀ d ∈ p.dependenciesOf s.name, outputs'.get? d = outputs.get? d) :
    contextOf w settings p params outputs' s = contextOf w settings p params outputs s := by
  have hsame : (p.dependenciesOf s.name).filterMap (fun name =>
        (outputs'.get? name).map fun output => (name, output.rows)) =
      (p.dependenciesOf s.name).filterMap fun name =>
        (outputs.get? name).map fun output => (name, output.rows) := by
    refine List.filterMap_congr ?_
    intro d hd
    rw [h d hd]
  rw [contextOf, contextOf, hsame]

/-- An output under another name shows a step nothing new. -/
theorem contextOf_insert (w : Workshop) (settings : RunSettings) (p : Pipeline)
    (params : Parameters) (outputs : Record StepOutput) {s : Step} {name : String}
    (output : StepOutput) (h : name ∉ p.dependenciesOf s.name) :
    contextOf w settings p params (outputs.insert name output) s =
      contextOf w settings p params outputs s := by
  refine contextOf_congr w settings p params ?_
  intro d hd
  refine outputs.get?_insert_of_ne output ?_
  rintro rfl
  exact h hd

/-! ## What a step leads to -/

/-- What a step leads to, given the context it was carried out in: its output and whether that came
from the cache, or its failure. -/
inductive Ends (w : Workshop) (c : StepContext) : Except Fault StepOutput → Bool → Prop
  | recalled (output : StepOutput) : Ends w c (.ok output) true
  | fresh {outcome : Except Fault StepOutput} : (w.registry.run c).start.1 = outcome →
      Ends w c outcome false

theorem runFresh_outcome (w : Workshop) (s : Step) (c : StepContext) (key : Option String)
    (j : Journal) : ((runFresh w s c key).run j).1 = (w.registry.run c).start.1 := by
  rw [runFresh]
  simp only [StateT.run_bind]
  generalize hsend : (Recorded.send (w.registry.run c)).run j = sent
  have houtcome : sent.1 = (w.registry.run c).start.1 := by
    rw [← hsend]
    rfl
  obtain ⟨outcome, j'⟩ := sent
  dsimp only at houtcome
  subst houtcome
  cases (w.registry.run c).start.1 with
  | ok output => cases key <;> rfl
  | error f => rfl

/-- A step whose result is not found in the cache is carried out. -/
theorem runStep_run (w : Workshop) (settings : RunSettings) (s : Step) (c : StepContext)
    (j : Journal) :
    (runStep w settings s c).run j =
      let key := cacheKey? w settings j.cache.isSome s c
      let started := { j with events := j.events ++ [.stepStarted s.name s.kind.name] }
      match (recallOutput key).run started with
      | (some output, j') =>
          ((.ok output, true),
            { j' with events :=
                j'.events ++ [.stepRecalled s.name s.kind.name output.rows.length] })
      | (none, j') =>
          ((((runFresh w s c key).run j').1, false), ((runFresh w s c key).run j').2) := by
  rw [runStep]
  simp only [StateT.run_bind, StateT.run_get, Recorded.tell, StateT.run_modify, pure_bind]
  generalize StateT.run (recallOutput _) _ = recalled
  obtain ⟨found, j'⟩ := recalled
  cases found <;> rfl

/-- A step that is run ends in one of these ways. -/
theorem runStep_ends (w : Workshop) (settings : RunSettings) (s : Step) (c : StepContext)
    (j : Journal) :
    Ends w c ((runStep w settings s c).run j).1.1 ((runStep w settings s c).run j).1.2 := by
  rw [runStep_run]
  dsimp only
  split
  · exact .recalled _
  · exact .fresh (runFresh_outcome w s c _ _).symm

/-- With the cache off a step ends as its engine does. -/
theorem runStep_uncached (settings : RunSettings) (off : settings.useCache = false) (w : Workshop)
    (s : Step) (c : StepContext) (j : Journal) :
    ((runStep w settings s c).run j).1 = ((w.registry.run c).start.1, false) := by
  have hkey : cacheKey? w settings j.cache.isSome s c = none := by
    simp [cacheKey?, off]
  rw [runStep_run, hkey]
  exact congrArg (·, false) (runFresh_outcome w s c none _)

/-! ## The invariant of the loop -/

/-- How a step fared, told from the outputs of the run: it was skipped, or it ended in the context
that these outputs make. -/
inductive Account (w : Workshop) (settings : RunSettings) (p : Pipeline) (params : Parameters)
    (outputs : Record StepOutput) (s : Step) : StepResult → Prop
  | skipped : Account w settings p params outputs s (.skipped s)
  | succeeded {output : StepOutput} {hit : Bool} :
      Ends w (contextOf w settings p params outputs s) (.ok output) hit →
      outputs.get? s.name = some output →
      Account w settings p params outputs s (.succeeded s output hit)
  | failed {f : Fault} {hit : Bool} :
      Ends w (contextOf w settings p params outputs s) (.error f) hit →
      outputs.get? s.name = none →
      Account w settings p params outputs s (.failed s (f.inStep s.name s.kind.name).message)

theorem Account.name {w : Workshop} {settings : RunSettings} {p : Pipeline} {params : Parameters}
    {outputs : Record StepOutput} {s : Step} {r : StepResult}
    (h : Account w settings p params outputs s r) : r.stepName = s.name ∧ r.kind = s.kind := by
  cases h with
  | skipped => exact ⟨rfl, rfl⟩
  | succeeded _ _ => exact ⟨rfl, rfl⟩
  | failed _ _ => exact ⟨rfl, rfl⟩

/-- The account of a step stays true when an output is entered that it did not see. -/
theorem Account.insert {w : Workshop} {settings : RunSettings} {p : Pipeline} {params : Parameters}
    {outputs : Record StepOutput} {s : Step} {r : StepResult}
    (h : Account w settings p params outputs s r) {name : String} (output : StepOutput)
    (other : s.name ≠ name) (unseen : name ∉ p.dependenciesOf s.name) :
    Account w settings p params (outputs.insert name output) s r := by
  have hcontext := contextOf_insert w settings p params outputs output unseen
  have hget := outputs.get?_insert_of_ne output other
  cases h with
  | skipped => exact .skipped
  | succeeded hends hout => exact .succeeded (hcontext ▸ hends) (hget ▸ hout)
  | failed hends hout => exact .failed (hcontext ▸ hends) (hget ▸ hout)

/-- The results with a status. -/
def resultsWith (status : StepStatus) (results : List StepResult) : List StepResult :=
  results.filter fun r => r.status = status

theorem resultsWith_append (status : StepStatus) (first second : List StepResult) :
    resultsWith status (first ++ second) =
      resultsWith status first ++ resultsWith status second :=
  List.filter_append ..

/-- The books of a run: the results account for the steps, the outputs are those of the successful
ones and the failures those of the failed ones, all in the order of the steps. -/
structure Books (w : Workshop) (settings : RunSettings) (p : Pipeline) (params : Parameters)
    (steps : List Step) (progress : Progress) : Prop where
  accounts : List.Forall₂ (Account w settings p params progress.outputs) steps progress.results
  outputs : progress.outputs.keys =
    (resultsWith .success progress.results).map StepResult.stepName
  failures : progress.log.failures.map FailureRecord.facts =
    (resultsWith .failed progress.results).map StepResult.facts
  recalled : settings.useCache = false → ∀ r ∈ progress.results, r.cacheHit = false

/-- The invariant of the loop: the books of the steps gone through, none of which was skipped. In a
run that fails fast only the last of them can have failed. -/
structure Underway (w : Workshop) (settings : RunSettings) (p : Pipeline) (params : Parameters)
    (front : List Step) (progress : Progress) : Prop extends
    Books w settings p params front progress where
  mode : progress.log.mode = settings.failureMode
  running : ∀ r ∈ progress.results, r.status ≠ .skipped
  alone : settings.failureMode = .failFast → ∀ r ∈ progress.results.dropLast, r.status = .success

section Loop

variable {w : Workshop} {settings : RunSettings} {p : Pipeline} {params : Parameters}

theorem Underway.initial :
    Underway w settings p params [] { log := { mode := settings.failureMode } } where
  accounts := .nil
  outputs := rfl
  failures := rfl
  recalled := by simp
  mode := rfl
  running := by simp
  alone := by simp

/-- Results of different steps, none skipped and none failed, are successes. -/
theorem success_of_unfailed {results : List StepResult} (running : ∀ r ∈ results, r.status ≠ .skipped)
    (unfailed : resultsWith .failed results = []) : ∀ r ∈ results, r.status = .success := by
  intro r hr
  have hnot : r.status ≠ .failed := by
    intro hfailed
    have hmem : r ∈ resultsWith .failed results := by
      rw [resultsWith, List.mem_filter]
      exact ⟨hr, by simp [hfailed]⟩
    rw [unfailed] at hmem
    exact List.not_mem_nil hmem
  cases hstatus : r.status with
  | success => rfl
  | failed => exact absurd hstatus hnot
  | skipped => exact absurd hstatus (running r hr)

/-- A run that goes on fast to fail has had successes only. -/
theorem Underway.successes {front : List Step} {progress : Progress}
    (h : Underway w settings p params front progress) (mode : settings.failureMode = .failFast)
    (hgo : progress.log.shouldStop = false) : ∀ r ∈ progress.results, r.status = .success := by
  have hnone : progress.log.failures = [] := by
    rw [FailureLog.shouldStop, h.mode, mode] at hgo
    simpa using hgo
  refine success_of_unfailed h.running ?_
  have hfacts := h.failures
  rw [hnone] at hfacts
  exact List.map_eq_nil_iff.mp hfacts.symm

/-- The accounts of the steps gone through stay true when the output of the next one is entered. -/
theorem accounts_insert {front rest : List Step} {s : Step}
    (hrun : Runnable p.dependenciesOf (front ++ s :: rest)) {outputs : Record StepOutput}
    {results : List StepResult}
    (h : List.Forall₂ (Account w settings p params outputs) front results) (output : StepOutput) :
    List.Forall₂ (Account w settings p params (outputs.insert s.name output)) front results := by
  rw [List.forall₂_iff_zip] at h ⊢
  refine ⟨h.1, ?_⟩
  intro t r htr
  have ht : t ∈ front := (List.of_mem_zip htr).1
  refine (h.2 htr).insert output ?_ ?_
  · intro heq
    exact hrun.fresh (heq ▸ List.mem_map_of_mem ht)
  · intro hmem
    exact hrun.fresh (hrun.below ht _ hmem)

/-- The results name the steps in order. -/
theorem Books.names {front : List Step} {progress : Progress}
    (h : Books w settings p params front progress) :
    progress.results.map StepResult.stepName = front.map Step.name := by
  have haccounts := h.accounts
  clear h
  generalize progress.results = results at haccounts ⊢
  induction haccounts with
  | nil => rfl
  | cons hfirst _ ih => rw [List.map_cons, List.map_cons, hfirst.name.1, ih]

/-- The names of the outputs are names of steps gone through. -/
theorem Books.known {front : List Step} {progress : Progress}
    (h : Books w settings p params front progress) {name : String}
    (hname : name ∈ progress.outputs.keys) : name ∈ front.map Step.name := by
  rw [h.outputs] at hname
  obtain ⟨r, hr, rfl⟩ := List.mem_map.mp hname
  rw [← h.names]
  exact List.mem_map_of_mem (List.mem_filter.mp hr).1

/-- Entering how the next step ended keeps the invariant. -/
theorem Underway.enter {front rest : List Step} {s : Step} {progress : Progress}
    (h : Underway w settings p params front progress)
    (hrun : Runnable p.dependenciesOf (front ++ s :: rest))
    (hgo : progress.log.shouldStop = false) {outcome : Except Fault StepOutput} {hit : Bool}
    (hends : Ends w (contextOf w settings p params progress.outputs s) outcome hit)
    (hoff : settings.useCache = false → hit = false) :
    Underway w settings p params (front ++ [s]) (progress.enter s outcome hit) := by
  have hnew : s.name ∉ progress.outputs.keys := fun hmem => hrun.fresh (h.known hmem)
  have hself : s.name ∉ p.dependenciesOf s.name := fun hmem => hrun.fresh (hrun.next_below _ hmem)
  have hall : settings.failureMode = .failFast → ∀ r ∈ progress.results, r.status = .success :=
    fun hmode => h.successes hmode hgo
  cases outcome with
  | ok output =>
      have hcontext := contextOf_insert w settings p params progress.outputs output hself
      exact
        { accounts := List.rel_append (accounts_insert hrun h.accounts output)
            (.cons (.succeeded (hcontext ▸ hends) (Record.get?_insert_self ..)) .nil)
          outputs := by
            simp only [Progress.enter, resultsWith_append, List.map_append]
            rw [Record.keys_insert_of_not_mem _ _ hnew, h.outputs]
            rfl
          failures := by
            simp only [Progress.enter, resultsWith_append, List.map_append]
            rw [FailureLog.recordCompletion, h.failures]
            exact (List.append_nil _).symm
          recalled := fun off =>
            List.forall_mem_append.mpr ⟨h.recalled off, by simpa [StepResult.succeeded] using hoff off⟩
          mode := h.mode
          running := List.forall_mem_append.mpr ⟨h.running, by simp [StepResult.succeeded]⟩
          alone := by
            intro hmode
            rw [Progress.enter, List.dropLast_concat]
            exact hall hmode }
  | error f =>
      have hnone : progress.outputs.get? s.name = none :=
        (Record.get?_eq_none_iff _ _).mpr hnew
      exact
        { accounts := List.rel_append h.accounts (.cons (.failed hends hnone) .nil)
          outputs := by
            simp only [Progress.enter, resultsWith_append, List.map_append]
            rw [h.outputs]
            exact (List.append_nil _).symm
          failures := by
            simp only [Progress.enter, FailureLog.recordFailure, resultsWith_append,
              List.map_append]
            rw [h.failures]
            rfl
          recalled := fun off =>
            List.forall_mem_append.mpr ⟨h.recalled off, by simp [StepResult.failed]⟩
          mode := h.mode
          running := List.forall_mem_append.mpr ⟨h.running, by simp [StepResult.failed]⟩
          alone := by
            intro hmode
            rw [Progress.enter, List.dropLast_concat]
            exact hall hmode }

/-! ## Whole runs -/

theorem runSteps_stop {progress : Progress} (hstop : progress.log.shouldStop = true)
    (steps : List Step) (j : Journal) :
    (runSteps w settings p params steps progress).run j =
      ({ progress with results := progress.results ++ steps.map .skipped }, j) := by
  cases steps with
  | nil =>
      rw [runSteps, List.map_nil, List.append_nil]
      rfl
  | cons s rest =>
      rw [runSteps, hstop]
      rfl

theorem runSteps_go {progress : Progress} (hgo : progress.log.shouldStop = false) (s : Step)
    (rest : List Step) (j : Journal) :
    (runSteps w settings p params (s :: rest) progress).run j =
      let ran := (runStep w settings s (contextOf w settings p params progress.outputs s)).run j
      (runSteps w settings p params rest (progress.enter s ran.1.1 ran.1.2)).run ran.2 := by
  rw [runSteps, hgo]
  rfl

/-- The shape of a run that fails fast: all steps succeed, or the first failure parts the successes
before it from the steps that are skipped after it. -/
def StopsAtFailure (results : List StepResult) : Prop :=
  (∀ r ∈ results, r.status = .success) ∨
    ∃ before failed after, results = before ++ failed :: after ∧
      (∀ r ∈ before, r.status = .success) ∧ failed.status = .failed ∧
      ∀ r ∈ after, r.status = .skipped

/-- What is left of a run that ended: the books of all its steps, and which of them were skipped. -/
structure Ended (w : Workshop) (settings : RunSettings) (p : Pipeline) (params : Parameters)
    (steps : List Step) (progress : Progress) : Prop extends
    Books w settings p params steps progress where
  failFast : settings.failureMode = .failFast → StopsAtFailure progress.results
  continueOnError : settings.failureMode = .continueOnError →
    ∀ r ∈ progress.results, r.status ≠ .skipped

/-- A run that has to stop skips the steps that are left. -/
theorem Underway.stop {front : List Step} {progress : Progress}
    (h : Underway w settings p params front progress) (hstop : progress.log.shouldStop = true)
    (rest : List Step) :
    Ended w settings p params (front ++ rest)
      { progress with results := progress.results ++ rest.map .skipped } := by
  rw [FailureLog.shouldStop, h.mode, Bool.and_eq_true, decide_eq_true_eq, Bool.not_eq_true',
    List.isEmpty_eq_false_iff] at hstop
  obtain ⟨hmode, hfailed⟩ := hstop
  have hskipped : ∀ r ∈ rest.map StepResult.skipped, r.status = .skipped := by
    intro r hr
    obtain ⟨s, -, rfl⟩ := List.mem_map.mp hr
    rfl
  have hwith : ∀ status, status ≠ .skipped → resultsWith status (rest.map .skipped) = [] := by
    intro status hstatus
    rw [resultsWith, List.filter_eq_nil_iff]
    intro r hr
    rw [hskipped r hr, decide_eq_true_eq]
    exact hstatus.symm
  exact
    { accounts := by
        refine List.rel_append h.accounts ?_
        rw [List.forall₂_map_right_iff]
        exact List.forall₂_same.mpr fun s _ => .skipped
      outputs := by
        simp only [resultsWith_append, hwith .success (by decide), List.append_nil]
        exact h.outputs
      failures := by
        simp only [resultsWith_append, hwith .failed (by decide), List.append_nil]
        exact h.failures
      recalled := by
        intro off
        refine List.forall_mem_append.mpr ⟨h.recalled off, ?_⟩
        intro r hr
        obtain ⟨s, -, rfl⟩ := List.mem_map.mp hr
        rfl
      failFast := by
        -- the failure is that of the last step gone through
        intro _
        right
        rcases List.eq_nil_or_concat progress.results with hnil | ⟨before, last, hlast⟩
        · have hfacts := h.failures
          rw [hnil] at hfacts
          exact absurd (List.map_eq_nil_iff.mp hfacts) hfailed
        · rw [List.concat_eq_append] at hlast
          have hbefore := h.alone hmode
          rw [hlast, List.dropLast_concat] at hbefore
          refine ⟨before, last, rest.map .skipped, by simp [hlast], hbefore, ?_, hskipped⟩
          cases hstatus : last.status with
          | failed => rfl
          | skipped =>
              exact absurd hstatus (h.running last (by simp [hlast]))
          | success =>
              have hnone : resultsWith .failed progress.results = [] := by
                rw [resultsWith, List.filter_eq_nil_iff, hlast]
                intro r hr
                rcases List.mem_append.mp hr with hr | hr
                · simp [hbefore r hr]
                · simp [List.mem_singleton.mp hr, hstatus]
              have hfacts := h.failures
              rw [hnone] at hfacts
              exact absurd (List.map_eq_nil_iff.mp hfacts) hfailed
      continueOnError := by
        intro hother
        rw [hmode] at hother
        cases hother }

/-- A run that went through all steps ends with the last of them. -/
theorem Underway.finish {steps : List Step} {progress : Progress}
    (h : Underway w settings p params steps progress)  :
    Ended w settings p params steps progress := by
  refine ⟨h.toBooks, ?_, fun _ => h.running⟩
  intro hmode
  cases hstop : progress.log.shouldStop with
  | false => exact .inl (h.successes hmode hstop)
  | true =>
      have hended := (h.stop hstop []).failFast hmode
      simpa using hended

/-- What a run of steps in order leaves behind, from any point of it on. -/
theorem runSteps_ended {front rest : List Step} {progress : Progress}
    (h : Underway w settings p params front progress)
    (hrun : Runnable p.dependenciesOf (front ++ rest)) (j : Journal) :
    Ended w settings p params (front ++ rest)
      ((runSteps w settings p params rest progress).run j).1 := by
  induction rest generalizing front progress j with
  | nil =>
      rw [List.append_nil]
      exact h.finish
  | cons s rest ih =>
      cases hstop : progress.log.shouldStop with
      | true =>
          rw [runSteps_stop hstop]
          exact h.stop hstop _
      | false =>
          have hends := runStep_ends w settings s
            (contextOf w settings p params progress.outputs s) j
          have hoff := fun (off : settings.useCache = false) => congrArg Prod.snd
            (runStep_uncached settings off w s (contextOf w settings p params progress.outputs s) j)
          rw [runSteps_go hstop, List.append_cons]
          exact ih (h.enter hrun hstop hends hoff) (by simpa using hrun) _

/-- What a run keeps: whatever skipping steps keeps and entering the outcome of a step of the run. -/
theorem runSteps_keeps {P : Progress → Prop} {steps : List Step}
    (skip : ∀ progress skipped, P progress →
      P { progress with results := progress.results ++ skipped })
    (enter : ∀ s ∈ steps, ∀ progress outcome hit, P progress → P (progress.enter s outcome hit))
    {progress : Progress} (h : P progress) (j : Journal) :
    P ((runSteps w settings p params steps progress).run j).1 := by
  induction steps generalizing progress j with
  | nil => exact h
  | cons s rest ih =>
      cases hstop : progress.log.shouldStop with
      | true =>
          rw [runSteps_stop hstop]
          exact skip progress _ h
      | false =>
          rw [runSteps_go hstop]
          exact ih (fun t ht => enter t (List.mem_cons_of_mem s ht))
            (enter s List.mem_cons_self progress _ _ h) _

/-- A run only adds to the results. -/
theorem runSteps_results (steps : List Step) (progress : Progress) (j : Journal) :
    progress.results <+: ((runSteps w settings p params steps progress).run j).1.results := by
  refine runSteps_keeps (P := fun after => progress.results <+: after.results) ?_ ?_
    List.prefix_rfl j
  · intro after skipped h
    exact h.trans (List.prefix_append _ _)
  · intro s _ after outcome hit h
    exact h.trans (after.enter_results s outcome hit)

/-- A run leaves the outputs of other steps alone. -/
theorem runSteps_outputs {steps : List Step} {name : String} (other : name ∉ steps.map Step.name)
    (progress : Progress) (j : Journal) :
    ((runSteps w settings p params steps progress).run j).1.outputs.get? name =
      progress.outputs.get? name := by
  refine runSteps_keeps (P := fun after => after.outputs.get? name = progress.outputs.get? name)
    (fun _ _ h => h) ?_ rfl j
  intro s hs after outcome hit h
  have hname : name ≠ s.name := fun heq => other (heq ▸ List.mem_map_of_mem hs)
  exact (after.enter_outputs hname outcome hit).trans h

/-- A step saw what the final outputs show of its dependencies. -/
theorem contextOf_ended {front rest : List Step} {s : Step}
    (hrun : Runnable p.dependenciesOf (front ++ s :: rest)) (progress : Progress) (j : Journal) :
    contextOf w settings p params
        ((runSteps w settings p params (s :: rest) progress).run j).1.outputs s =
      contextOf w settings p params progress.outputs s := by
  refine contextOf_congr w settings p params ?_
  intro d hd
  refine runSteps_outputs ?_ progress j
  have hnodup := hrun.nodup
  rw [List.map_append, List.nodup_append] at hnodup
  intro hmem
  exact hnodup.2.2 d (hrun.next_below d hd) d hmem rfl

/-- A step asks its engine in its own context alone, and only if its result is not recalled. -/
theorem runStep_registry {registry : StepRegistry} {s : Step} {c : StepContext} {j : Journal}
    (same : ((runStep w settings s c).run j).1.2 = false →
      registry.run c = w.registry.run c) :
    (runStep { w with registry } settings s c).run j = (runStep w settings s c).run j := by
  rw [runStep_run] at same
  rw [runStep_run, runStep_run]
  have hkey : cacheKey? { w with registry } settings j.cache.isSome s c =
      cacheKey? w settings j.cache.isSome s c := rfl
  dsimp only at same ⊢
  rw [hkey]
  split
  · rfl
  · rename_i j' hmiss
    rw [hmiss] at same
    have hengine := same rfl
    have hfresh : runFresh { w with registry } s c (cacheKey? w settings j.cache.isSome s c) =
        runFresh w s c (cacheKey? w settings j.cache.isSome s c) := by
      rw [runFresh, runFresh, hengine]
    rw [hfresh]

/-- The engines are asked in the contexts of the steps that were carried out, and nowhere else: other
engines that answer alike there lead to the same run. -/
theorem runSteps_registry {registry : StepRegistry} {front rest : List Step} {progress : Progress}
    (hrun : Runnable p.dependenciesOf (front ++ rest)) (j : Journal)
    (same : ∀ s ∈ rest, ∀ r ∈ ((runSteps w settings p params rest progress).run j).1.results,
      r.stepName = s.name → r.status ≠ .skipped → r.cacheHit = false →
        let c := contextOf w settings p params
          ((runSteps w settings p params rest progress).run j).1.outputs s
        registry.run c = w.registry.run c) :
    (runSteps { w with registry } settings p params rest progress).run j =
      (runSteps w settings p params rest progress).run j := by
  induction rest generalizing front progress j with
  | nil => rfl
  | cons s rest ih =>
      cases hstop : progress.log.shouldStop with
      | true => rw [runSteps_stop hstop, runSteps_stop hstop]
      | false =>
          have hone : (runStep { w with registry } settings s
              (contextOf w settings p params progress.outputs s)).run j =
                (runStep w settings s (contextOf w settings p params progress.outputs s)).run j := by
            refine runStep_registry ?_
            intro hfresh
            generalize hran : (runStep w settings s
              (contextOf w settings p params progress.outputs s)).run j = ran at hfresh
            obtain ⟨r, hr, hname, hstatus, hhit⟩ := progress.enter_fresh s ran.1.1
            have hmem : r ∈ ((runSteps w settings p params (s :: rest) progress).run j).1.results := by
              rw [runSteps_go hstop]
              dsimp only
              rw [hran, hfresh]
              exact (runSteps_results rest _ _).subset hr
            rw [← contextOf_ended hrun progress j]
            exact same s List.mem_cons_self r hmem hname hstatus hhit
          rw [runSteps_go hstop] at same ⊢
          rw [runSteps_go hstop]
          have hnext : (runStep { w with registry } settings s
              (contextOf { w with registry } settings p params progress.outputs s)).run j =
                (runStep w settings s (contextOf w settings p params progress.outputs s)).run j :=
            hone
          rw [hnext]
          have hrest : Runnable p.dependenciesOf ((front ++ [s]) ++ rest) := by
            simpa using hrun
          refine ih hrest _ ?_
          intro t ht
          exact same t (List.mem_cons_of_mem _ ht)

end Loop

/-- A run of a well-formed pipeline ends with its books in order. -/
theorem runPipeline_ended (w : Workshop) (settings : RunSettings) {p : Pipeline}
    (h : p.WellFormed) (params : Parameters) (j : Journal) :
    Ended w settings p params p.orderedSteps ((runPipeline w settings p params).run j).1 :=
  @runSteps_ended w settings p params [] _ _ .initial h.runnable j

end Run

end RowPipeline
