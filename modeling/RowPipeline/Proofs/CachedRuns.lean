import RowPipeline.Proofs.Engines
import RowPipeline.Proofs.UncachedRuns

/-!
# Runs with the cache

A run that recalls outputs goes abreast of one that carries every step out, as long as what is recalled
for a step is what its engine would give. A run in which nothing fails does not depend on the mode of
failure.
-/

namespace RowPipeline

/-- The result of a step, whether or not it was recalled. -/
def StepResult.core (r : StepResult) : StepResult := { r with cacheHit := false }

/-- The result of a run, whatever its number and what was recalled. -/
def RunResult.core (r : RunResult) : RunResult :=
  { r with run := 0, cacheHit := false, stepResults := r.stepResults.map StepResult.core }

/-- The key under which the output of a step is kept. -/
def StepContext.key (c : StepContext) : String :=
  stepKey c.kind.name c.config (Run.dependencyTexts c)

namespace Run

variable {w : Workshop} {settings : RunSettings} {p : Pipeline} {params : Parameters}
  {P : String → Stored → Prop}

/-! ## Recalled outputs -/

/-- Two runs that differ at most in what they recalled. -/
structure Abreast (first second : Progress) : Prop where
  outputs : first.outputs = second.outputs
  log : first.log = second.log
  results : first.results.map StepResult.core = second.results.map StepResult.core

theorem Abreast.enter {first second : Progress} (h : Abreast first second) (s : Step)
    (outcome : Except Fault StepOutput) (hit hit' : Bool) :
    Abreast (first.enter s outcome hit) (second.enter s outcome hit') := by
  cases outcome with
  | ok output =>
      constructor
      · rw [Progress.enter, Progress.enter, h.outputs]
      · rw [Progress.enter, Progress.enter, h.log]
      · simp only [Progress.enter, List.map_append, h.results]
        rfl
  | error f =>
      constructor
      · exact h.outputs
      · rw [Progress.enter, Progress.enter, h.log]
      · simp only [Progress.enter, List.map_append, h.results]

theorem Abreast.result {first second : Progress} (h : Abreast first second) (p : Pipeline)
    (mode : FailureMode) (page : Option (UInt64 × UInt64)) (n m : Nat) :
    (Engine.resultOf p mode page n first).core = (Engine.resultOf p mode page m second).core := by
  simp only [Engine.resultOf, Engine.succeeded, RunResult.core, h.outputs, h.log, h.results]

/-- What is kept for the steps of a run is what their engines give. A page is never kept. -/
structure Honest (P : String → Stored → Prop) (w : Workshop) (c : StepContext) : Prop where
  recalled : c.pagination = none → ∀ output, P c.key (.step output) →
    (w.registry.run c).start.1 = .ok output
  stored : c.pagination = none → ∀ output, (w.registry.run c).start.1 = .ok output →
    P c.key (Stored.step output).throughJson

/-- A step ends as its engine does if what is kept under its key is what its engine gives. -/
theorem runStep_honest (settings : RunSettings) {j : Journal} (h : j.Holds P) {s : Step}
    {c : StepContext} (hkind : c.kind = s.kind) (hconfig : c.config = s.config) (honest : Honest P w c) :
    ((runStep w settings s c).run j).1.1 = (w.registry.run c).start.1 ∧
      ((runStep w settings s c).run j).2.Holds P := by
  -- a step that is shown a page has no key
  have hkey : ∀ k, cacheKey? w settings j.cache.isSome s c = some k →
      k = c.key ∧ c.pagination = none := by
    intro k hk
    rw [cacheKey?] at hk
    split at hk
    · rename_i hcached
      simp only [Bool.and_eq_true, Option.isNone_iff_eq_none] at hcached
      refine ⟨?_, hcached.2⟩
      rw [StepContext.key, hkind, hconfig]
      exact (Option.some.inj hk).symm
    · cases hk
  constructor
  · have hstarted : Journal.Holds P
        { j with events := j.events ++ [.stepStarted s.name s.kind.name] } := h.of_cache rfl
    have hrecall := (recallOutput_holds hstarted (cacheKey? w settings j.cache.isSome s c)).2
    rw [runStep_run]
    dsimp only
    split
    · rename_i output j' hfound
      rw [hfound] at hrecall
      obtain ⟨k, hk, hkept⟩ := hrecall output rfl
      obtain ⟨rfl, hpage⟩ := hkey k hk
      exact (honest.recalled hpage output hkept).symm
    · exact runFresh_outcome w s c _ _
  · refine runStep_holds h w settings s c ?_
    intro k output hk houtcome
    obtain ⟨rfl, hpage⟩ := hkey k hk
    exact honest.stored hpage output houtcome

/-- A run goes abreast of one without the cache, if what is kept for its steps is what their engines
give. -/
theorem runSteps_abreast {front rest : List Step} {progress progress' final : Progress}
    (hrun : Runnable p.dependenciesOf (front ++ rest)) {j j' : Journal} (h : j.Holds P)
    (abreast : Abreast progress progress')
    (hfinal : ((runSteps w { settings with useCache := false } p params rest progress').run j').1 =
      final)
    (honest : ∀ s ∈ rest, Honest P w (contextOf w settings p params final.outputs s)) :
    Abreast ((runSteps w settings p params rest progress).run j).1 final ∧
      ((runSteps w settings p params rest progress).run j).2.Holds P := by
  -- on the steps to come; the ones gone through stay in front, so that no step to come sees another
  -- that is still to come
  induction rest generalizing front progress progress' j j' with
  | nil =>
      subst hfinal
      exact ⟨abreast, h⟩
  | cons s rest ih =>
      cases hstop : progress'.log.shouldStop with
      | true =>
          have hstop' : progress.log.shouldStop = true := by
            rw [abreast.log]
            exact hstop
          rw [runSteps_stop hstop] at hfinal
          rw [runSteps_stop hstop']
          subst hfinal
          refine ⟨⟨abreast.outputs, abreast.log, ?_⟩, h⟩
          simp only [List.map_append, abreast.results]
      | false =>
          have hstop' : progress.log.shouldStop = false := by
            rw [abreast.log]
            exact hstop
          -- the context of the step is the one that the final outputs show
          have hcontext : contextOf w settings p params progress.outputs s =
              contextOf w settings p params final.outputs s := by
            rw [abreast.outputs, ← hfinal]
            exact (@contextOf_ended w { settings with useCache := false } p params front rest s hrun
              progress' j').symm
          have hstep := @runStep_honest w P settings j h s _ rfl rfl (honest s List.mem_cons_self)
          rw [← hcontext] at hstep
          have huncached : contextOf w { settings with useCache := false } p params progress'.outputs s =
              contextOf w settings p params progress.outputs s := by
            rw [abreast.outputs]
            rfl
          rw [runSteps_go hstop] at hfinal
          rw [runSteps_go hstop']
          dsimp only at hfinal ⊢
          rw [runStep_uncached { settings with useCache := false } rfl, huncached, ← hstep.1] at hfinal
          rw [List.append_cons] at hrun
          exact ih hrun hstep.2 (abreast.enter s _ _ _) hfinal
            fun t ht => honest t (List.mem_cons_of_mem _ ht)

/-! ## What a step leaves behind -/

theorem recallOutput_run (k : String) (j : Journal) :
    (recallOutput (some k)).run j =
      (match ((Recorded.find k).run j).1 with
        | some (.step output) => some output
        | _ => none, ((Recorded.find k).run j).2) := by
  rw [recallOutput]
  simp only [StateT.run_bind]
  generalize (Recorded.find k).run j = read
  obtain ⟨v, j'⟩ := read
  rcases v with _ | v
  · rfl
  · cases v <;> rfl

variable {s : Step} {c : StepContext} {j : Journal} {k : String} {output : StepOutput}

/-- A step whose output is kept under its key is answered with it. -/
theorem runStep_recalled (hkey : cacheKey? w settings j.cache.isSome s c = some k)
    (found : ((Recorded.find k).run j).1 = some (.step output)) :
    ((runStep w settings s c).run j).1 = (.ok output, true) := by
  rw [Recorded.find_result] at found
  rw [runStep_run, hkey]
  dsimp only
  rw [recallOutput_run, Recorded.find_result]
  dsimp only
  rw [found]

theorem runFresh_stored (houtcome : (w.registry.run c).start.1 = .ok output) :
    (runFresh w s c (some k)).run j =
      (.ok output, ((Recorded.store k (.step output) w.config.stepCacheTtl).run
        { j with
          events := j.events ++ [.stepCompleted s.name s.kind.name output.rows.length]
          sent := j.sent ++ (w.registry.run c).start.2 }).2) := by
  rw [runFresh]
  simp only [StateT.run_bind]
  have hsend : (Recorded.send (w.registry.run c)).run j =
      (.ok output, { j with sent := j.sent ++ (w.registry.run c).start.2 }) := by
    rw [← houtcome]
    rfl
  rw [hsend]
  rfl

/-- A step that is carried out leaves its output under its key. -/
theorem runStep_kept (cached : j.cache.isSome = true)
    (hkey : cacheKey? w settings j.cache.isSome s c = some k)
    (missed : ((Recorded.find k).run j).1 = none)
    (houtcome : (w.registry.run c).start.1 = .ok output)
    (lasting : 0 < w.config.stepCacheTtl.toNat) :
    ((runStep w settings s c).run j).1 = (.ok output, false) ∧
      ((Recorded.find k).run ((runStep w settings s c).run j).2).1 =
        some (Stored.step output).throughJson := by
  rw [Recorded.find_result] at missed
  rw [runStep_run, hkey]
  dsimp only
  rw [recallOutput_run, Recorded.find_result]
  dsimp only
  rw [missed]
  have hread : ((Recorded.find k).run { j with events := j.events ++
      [.stepStarted s.name s.kind.name] }).2.cache.isSome = true :=
    Recorded.find_cached.trans cached
  generalize ((Recorded.find k).run _).2 = j' at hread
  dsimp only
  rw [runFresh_stored houtcome]
  exact ⟨rfl, Recorded.find_store hread lasting⟩

/-- A step leaves the cache there, or not there, as it was. -/
theorem runStep_cached (w : Workshop) (settings : RunSettings) (s : Step) (c : StepContext)
    (j : Journal) :
    ((runStep w settings s c).run j).2.cache.isSome = j.cache.isSome := by
  have hrecall : ∀ key (j : Journal), ((recallOutput key).run j).2.cache.isSome = j.cache.isSome := by
    intro key j
    cases key with
    | none => rfl
    | some k =>
        rw [recallOutput_run]
        exact Recorded.find_cached
  have hfresh : ∀ key (j : Journal), ((runFresh w s c key).run j).2.cache.isSome = j.cache.isSome := by
    intro key j
    have hsend : (Recorded.send (w.registry.run c)).run j =
        ((w.registry.run c).start.1, { j with sent := j.sent ++ (w.registry.run c).start.2 }) := rfl
    rw [runFresh]
    simp only [StateT.run_bind]
    rw [hsend]
    cases (w.registry.run c).start.1 with
    | error f => rfl
    | ok output =>
        cases key with
        | none => rfl
        | some k => exact Option.isSome_map
  have hstarted := hrecall (cacheKey? w settings j.cache.isSome s c)
    { j with events := j.events ++ [.stepStarted s.name s.kind.name] }
  rw [runStep_run]
  dsimp only
  split
  · rename_i output j' hfound
    rw [hfound] at hstarted
    exact hstarted
  · rename_i j' hfound
    rw [hfound] at hstarted
    exact (hfresh _ j').trans hstarted

/-! ## Modes of failure -/

/-- A run only adds to the failures. -/
theorem runSteps_failures (steps : List Step) (progress : Progress) (j : Journal) :
    progress.log.failures <+:
      ((runSteps w settings p params steps progress).run j).1.log.failures := by
  refine runSteps_keeps (P := fun after => progress.log.failures <+: after.log.failures)
    (fun _ _ h => h) ?_ List.prefix_rfl j
  intro s _ after outcome hit h
  cases outcome with
  | ok output => exact h
  | error f => exact h.trans (List.prefix_append _ _)

/-- A run in which nothing fails goes the same way in the other mode. -/
theorem runSteps_mode (off : settings.useCache = false) (mode : FailureMode) {steps : List Step}
    {progress final : Progress} {j j' : Journal}
    (hfinal : ((runSteps w settings p params steps progress).run j).1 = final)
    (unfailed : final.log.failures = []) :
    ((runSteps w { settings with failureMode := mode } p params steps
      { progress with log.mode := mode }).run j').1 = { final with log.mode := mode } := by
  induction steps generalizing progress j j' with
  | nil =>
      subst hfinal
      rfl
  | cons s rest ih =>
      -- before the last step nothing has failed either, so neither mode stops the run
      have hnone : progress.log.failures = [] := by
        have hprefix := @runSteps_failures w settings p params (s :: rest) progress j
        rw [hfinal, unfailed] at hprefix
        exact List.prefix_nil.mp hprefix
      have hstop : ∀ mode, ({ progress.log with mode } : FailureLog).shouldStop = false := by
        intro mode
        simp [FailureLog.shouldStop, hnone]
      rw [runSteps_go (hstop progress.log.mode)] at hfinal
      rw [runSteps_go (hstop mode)]
      dsimp only at hfinal ⊢
      rw [runStep_uncached settings off] at hfinal
      rw [runStep_uncached { settings with failureMode := mode } off]
      have hcontext : contextOf w { settings with failureMode := mode } p params progress.outputs s =
          contextOf w settings p params progress.outputs s := rfl
      have henter : ∀ outcome, Progress.enter { progress with log.mode := mode } s outcome false =
          { progress.enter s outcome false with log.mode := mode } := by
        intro outcome
        cases outcome <;> rfl
      rw [hcontext, henter]
      exact ih hfinal

end Run

end RowPipeline
