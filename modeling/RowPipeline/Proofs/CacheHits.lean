import RowPipeline.Proofs.CacheEntries
import RowPipeline.Proofs.PlannedQueries
import RowPipeline.Proofs.SharedKeys

/-!
# Cache hits

What a run leaves in the cache is read off its books: the output of each step that has a key and was
carried out with success, and the result of the run, if nothing failed. The ledger of an engine lists
what its runs left, the last first. By induction on the steps of a run, and on the calls of an engine,
its cache holds nothing but the last deposit under each key. So a hit shows what an earlier step or run
came to, and says that it is a hit.
-/

namespace RowPipeline

/-! ## Deposits -/

/-- What a run left in the cache: the output of one of its steps, or its result. -/
inductive Deposit where
  | step (o : RunCase) (s : Step) (output : StepOutput)
  | run (o : RunCase)

def Deposit.stored : Deposit → Stored
  | .step _ _ output => .step output
  | .run o => .run o.result

/-- Deposits under their keys, the last first. -/
abbrev Ledger := List (String × Deposit)

namespace Ledger

/-- The last deposit under a key. -/
def last? (ledger : Ledger) (key : String) : Option Deposit := Assoc.get? key ledger

/-- What the cache holds under a key is the last deposit under it. -/
def Filed (ledger : Ledger) (key : String) (v : Stored) : Prop :=
  ∃ d, ledger.last? key = some d ∧ v = d.stored

theorem last?_cons (key : String) (d : Deposit) (ledger : Ledger) (other : String) :
    last? ((key, d) :: ledger) other = if key = other then some d else ledger.last? other := rfl

theorem Filed.cons {ledger : Ledger} {key other : String} {v : Stored} (h : ledger.Filed other v)
    (d : Deposit) (apart : key ≠ other) : Filed ((key, d) :: ledger) other v := by
  obtain ⟨found, hfound, rfl⟩ := h
  refine ⟨found, ?_, rfl⟩
  rw [last?_cons, if_neg apart, hfound]

end Ledger

/-- A journal whose cache, if it is to have one, holds what a ledger says. -/
structure Journal.Follows (j : Journal) (hasCache : Bool) (ledger : Ledger) : Prop where
  cached : j.cache.isSome = hasCache
  filed : j.Holds ledger.Filed

namespace Journal.Follows

variable {j : Journal} {hasCache : Bool} {ledger : Ledger}

theorem of_cache {j' : Journal} (h : j.Follows hasCache ledger) (same : j'.cache = j.cache) :
    j'.Follows hasCache ledger where
  cached := same ▸ h.cached
  filed := h.filed.of_cache same

theorem find (h : j.Follows hasCache ledger) (key : String) :
    ((Recorded.find key).run j).2.Follows hasCache ledger where
  cached := Recorded.find_cached.trans h.cached
  filed := (h.filed.find key).1

/-- Storing a deposit enters it into the ledger. -/
theorem store (h : j.Follows hasCache ledger) (key : String) {value : Stored} (ttl : UInt64)
    {d : Deposit} (hd : d.stored = value.throughJson) :
    ((Recorded.store key value ttl).run j).2.Follows hasCache ((key, d) :: ledger) := by
  have hstored : ((Recorded.store key value ttl).run j).2.cache =
      j.cache.map fun c => c.set j.now key value.throughJson (some ttl.toNat) := rfl
  constructor
  · rw [hstored, Option.isSome_map, h.cached]
  · intro cache' hcache' other e he
    rw [hstored] at hcache'
    obtain ⟨cache, hcache, rfl⟩ := Option.map_eq_some_iff.mp hcache'
    by_cases hother : key = other
    · -- the entry under this key is the one just stored
      subst hother
      rw [Cache.set, Record.get?_insert_self] at he
      cases he
      exact ⟨d, by rw [Ledger.last?_cons, if_pos rfl], hd.symm⟩
    · rcases Cache.set_entries he with ⟨hkey, -⟩ | hold
      · exact absurd hkey.symm hother
      · exact (h.filed cache hcache other e hold).cons d hother

end Journal.Follows

/-! ## One step -/

namespace Run

variable {hasCache : Bool} {ledger : Ledger} {j : Journal}

/-- What a step and the cache have to do with each other: its output was the last deposit under its key,
or it was left there, or neither. -/
inductive Exchange (hasCache : Bool) (ledger : Ledger) (key : Option String) :
    (Except Fault StepOutput × Bool) × Journal → Prop
  | recalled {k : String} {output : StepOutput} {j : Journal} : key = some k →
      ledger.Filed k (.step output) → j.Follows hasCache ledger →
      Exchange hasCache ledger key ((.ok output, true), j)
  | left {k : String} {output : StepOutput} {j : Journal} : key = some k →
      (∀ d : Deposit, d.stored = (Stored.step output).throughJson →
        j.Follows hasCache ((k, d) :: ledger)) →
      Exchange hasCache ledger key ((.ok output, false), j)
  | unkept {output : StepOutput} {j : Journal} : key = none → j.Follows hasCache ledger →
      Exchange hasCache ledger key ((.ok output, false), j)
  | failed {f : Fault} {j : Journal} : j.Follows hasCache ledger →
      Exchange hasCache ledger key ((.error f, false), j)

theorem runFresh_exchange (h : j.Follows hasCache ledger) (w : Workshop) (s : Step) (c : StepContext)
    (key : Option String) :
    Exchange hasCache ledger key
      ((((runFresh w s c key).run j).1, false), ((runFresh w s c key).run j).2) := by
  cases hrun : (w.registry.run c).start.1 with
  | error f =>
      rw [runFresh_outcome, hrun]
      refine .failed (h.of_cache ?_)
      rw [runFresh]
      simp only [StateT.run_bind]
      have hsend : (Recorded.send (w.registry.run c)).run j =
          (.error f, { j with sent := j.sent ++ (w.registry.run c).start.2 }) := by
        rw [← hrun]
        rfl
      rw [hsend]
      rfl
  | ok output =>
      cases key with
      | none =>
          rw [runFresh_outcome, hrun]
          exact .unkept rfl (h.of_cache (runFresh_unkeyed s c j).2)
      | some k =>
          rw [runFresh_stored hrun]
          refine .left rfl fun d hd => ?_
          have hsent : Journal.Follows { j with
              events := j.events ++ [.stepCompleted s.name s.kind.name output.rows.length]
              sent := j.sent ++ (w.registry.run c).start.2 } hasCache ledger := h.of_cache rfl
          exact hsent.store k _ hd

theorem runStep_exchange (h : j.Follows hasCache ledger) (w : Workshop) (settings : RunSettings)
    (s : Step) (c : StepContext) :
    Exchange hasCache ledger (cacheKey? w settings hasCache s c) ((runStep w settings s c).run j) := by
  rw [runStep_run, h.cached]
  dsimp only
  generalize hstarted : ({ j with events := j.events ++ [.stepStarted s.name s.kind.name] } :
    Journal) = started
  have h : started.Follows hasCache ledger := h.of_cache (hstarted ▸ rfl)
  cases cacheKey? w settings hasCache s c with
  | none => exact runFresh_exchange h w s c none
  | some k =>
      rw [recallOutput_run]
      have hread := h.find k
      have hfound := (h.filed.find k).2
      generalize (Recorded.find k).run started = read at hread hfound
      obtain ⟨v, j'⟩ := read
      rcases v with _ | output | r
      · exact runFresh_exchange hread w s c (some k)
      · exact .recalled rfl (hfound _ rfl) (hread.of_cache rfl)
      · exact runFresh_exchange hread w s c (some k)

end Run

/-! ## One run -/

namespace RunCase

variable {o : RunCase}

/-- The result of a step. -/
def resultOf? (o : RunCase) (s : Step) : Option StepResult :=
  o.progress.results.find? fun t => t.stepName == s.name

/-- The key under which the output of a step is kept, if it may be kept. -/
def stepKey? (o : RunCase) (s : Step) : Option String :=
  Run.cacheKey? o.workshop o.settings o.journal.cache.isSome s (o.context s)

/-- What a step left in the cache: its output, if it has one that was not recalled and may be kept. -/
def stepDeposit? (o : RunCase) (s : Step) : Option (String × Deposit) :=
  match o.stepKey? s, o.resultOf? s, o.progress.outputs.get? s.name with
  | some key, some t, some output => if t.cacheHit then none else some (key, .step o s output)
  | _, _, _ => none

/-- What some steps left, the last first. -/
def stepDeposits (o : RunCase) (steps : List Step) : Ledger :=
  (steps.filterMap o.stepDeposit?).reverse

/-- The key under which the result is kept, if it may be kept. -/
def resultKey? (o : RunCase) : Option String :=
  if o.settings.useCache && o.workshop.config.pipelineCacheEnabled && o.journal.cache.isSome then
    some o.key
  else none

/-- What the run as a whole left in the cache: its result, if nothing failed and it may be kept. -/
def resultDeposit? (o : RunCase) : Option (String × Deposit) :=
  match o.resultKey? with
  | some key =>
      if o.result.success && o.result.failures.isEmpty then some (key, .run o) else none
  | none => none

/-- All that a run left. -/
def ledger (o : RunCase) : Ledger :=
  o.resultDeposit?.toList ++ o.stepDeposits o.pipeline.orderedSteps

theorem stepDeposits_concat (o : RunCase) (front : List Step) (s : Step) :
    o.stepDeposits (front ++ [s]) = (o.stepDeposit? s).toList ++ o.stepDeposits front := by
  rw [stepDeposits, List.filterMap_append, List.reverse_append, stepDeposits]
  cases hd : o.stepDeposit? s with
  | none => rw [List.filterMap_cons_none hd]; rfl
  | some d => rw [List.filterMap_cons_some hd]; rfl

/-- The result of a step is the one under its name. -/
theorem resultOf?_of_mem (wellFormed : o.pipeline.WellFormed) {t : StepResult}
    (ht : t ∈ o.progress.results) {s : Step} (hname : t.stepName = s.name) :
    o.resultOf? s = some t := by
  obtain ⟨found, hfound⟩ : ∃ found, o.resultOf? s = some found := by
    rw [← Option.isSome_iff_exists, resultOf?, List.find?_isSome]
    exact ⟨t, ht, by simpa using hname⟩
  have hsame : found.stepName = t.stepName := by
    have hnamed := List.find?_some hfound
    exact (eq_of_beq hnamed).trans hname.symm
  rw [hfound, result_unique wellFormed (List.mem_of_find?_eq_some hfound) ht hsame]

/-- A step without success left nothing. -/
theorem stepDeposit?_of_unsuccess (wellFormed : o.pipeline.WellFormed) {t : StepResult}
    (ht : t ∈ o.progress.results) {s : Step} (hname : t.stepName = s.name)
    (unsuccess : t.status ≠ .success) : o.stepDeposit? s = none := by
  rw [stepDeposit?, ← hname, no_output wellFormed ht unsuccess]
  cases o.stepKey? s <;> cases o.resultOf? s <;> rfl

/-- No number in the outputs of a run is infinite or no number at all. -/
def FiniteOutputs (o : RunCase) : Prop :=
  ∀ name output, o.progress.outputs.get? name = some output → ∀ row ∈ output.rows, row.Finite

/-- The result of a step shows what was left last under its key: a success with these rows, warnings and
details. -/
def Replays (o : RunCase) (before : Ledger) (s : Step) (t : StepResult) : Prop :=
  ∃ key o' s' output, o.stepKey? s = some key ∧ before.last? key = some (.step o' s' output) ∧
    t = .succeeded s output true ∧ o.progress.outputs.get? s.name = some output

/-- What is entered for a step before the rest of the run is what the run ends with. -/
theorem entered_stays (wellFormed : o.pipeline.WellFormed) {s : Step} {rest : List Step}
    (later : s.name ∉ rest.map Step.name) {progress : Progress} {j : Journal}
    (hfinal : ((Run.runSteps o.workshop o.settings o.pipeline o.params rest progress).run j).1 =
      o.progress) :
    o.progress.outputs.get? s.name = progress.outputs.get? s.name ∧
      ∀ t ∈ progress.results, t.stepName = s.name → t ∈ o.progress.results ∧
        ∀ t' ∈ o.progress.results, t'.stepName = s.name → t' = t := by
  have houtput : o.progress.outputs.get? s.name = progress.outputs.get? s.name := by
    rw [← hfinal]
    exact Run.runSteps_outputs later _ _
  have hresults : progress.results <+: o.progress.results := by
    rw [← hfinal]
    exact Run.runSteps_results rest _ _
  refine ⟨houtput, fun t ht hname => ⟨hresults.subset ht, fun t' ht' hname' => ?_⟩⟩
  exact Option.some.inj ((resultOf?_of_mem wellFormed ht' hname').symm.trans
    (resultOf?_of_mem wellFormed (hresults.subset ht) hname))

section

variable (wellFormed : o.pipeline.WellFormed) (finite : o.FiniteOutputs) {earlier : Ledger}
  {front rest : List Step} {progress : Progress} {j : Journal}

include wellFormed finite

/-- One step of a run: a hit shows the last deposit, and what the step leaves is entered. -/
theorem runStep_follows {s : Step} (hsteps : o.pipeline.orderedSteps = front ++ s :: rest)
    (hgo : progress.log.shouldStop = false)
    (hfinal : ((Run.runSteps o.workshop o.settings o.pipeline o.params (s :: rest) progress).run j).1 =
      o.progress)
    (h : j.Follows o.journal.cache.isSome (o.stepDeposits front ++ earlier)) :
    (∀ t ∈ o.progress.results, t.stepName = s.name → t.cacheHit = true →
      o.Replays (o.stepDeposits front ++ earlier) s t) ∧
    ((Run.runStep o.workshop o.settings s (Run.contextOf o.workshop o.settings o.pipeline o.params
      progress.outputs s)).run j).2.Follows o.journal.cache.isSome
        (o.stepDeposits (front ++ [s]) ++ earlier) := by
  have hrun : Runnable o.pipeline.dependenciesOf (front ++ s :: rest) := hsteps ▸ wellFormed.runnable
  have hcontext : Run.contextOf o.workshop o.settings o.pipeline o.params progress.outputs s =
      o.context s := by
    rw [context, ← hfinal]
    exact (Run.contextOf_ended hrun progress j).symm
  have hrest : s.name ∉ rest.map Step.name := by
    have hnodup := hrun.nodup
    rw [List.map_append, List.map_cons, List.nodup_append, List.nodup_cons] at hnodup
    exact hnodup.2.1.1
  rw [Run.runSteps_go hgo, hcontext] at hfinal
  rw [hcontext, stepDeposits_concat, List.append_assoc]
  have hexchange := Run.runStep_exchange h o.workshop o.settings s (o.context s)
  change Run.Exchange _ _ (o.stepKey? s) _ at hexchange
  generalize (Run.runStep o.workshop o.settings s (o.context s)).run j = ran at hfinal hexchange ⊢
  obtain ⟨houtput, hresult⟩ := entered_stays wellFormed hrest hfinal
  -- a result that is no hit is the only one of the step
  have hmiss : ∀ t, t.cacheHit = false → (∀ t' ∈ o.progress.results, t'.stepName = s.name → t' = t) →
      ∀ t' ∈ o.progress.results, t'.stepName = s.name → t'.cacheHit = true →
        o.Replays (o.stepDeposits front ++ earlier) s t' := by
    intro t hno honly t' ht' hname hhit
    rw [honly t' ht' hname, hno] at hhit
    cases hhit
  cases hexchange with
  | @recalled key output j' hkey hfiled hj =>
      rw [Progress.enter, Record.get?_insert_self] at houtput
      obtain ⟨hmem, honly⟩ := hresult (.succeeded s output true) (by simp [Progress.enter]) rfl
      have hnone : o.stepDeposit? s = none := by
        rw [stepDeposit?, hkey, resultOf?_of_mem wellFormed hmem rfl, houtput]
        rfl
      refine ⟨?_, by rwa [hnone]⟩
      intro t ht hname _
      obtain ⟨d, hlast, hd⟩ := hfiled
      cases d with
      | run o' => cases hd
      | step o' s' output' =>
          cases hd
          exact ⟨key, o', s', output, hkey, hlast, honly t ht hname, houtput⟩
  | @left key output j' hkey hj =>
      rw [Progress.enter, Record.get?_insert_self] at houtput
      obtain ⟨hmem, honly⟩ := hresult (.succeeded s output false) (by simp [Progress.enter]) rfl
      have hsome : o.stepDeposit? s = some (key, .step o s output) := by
        rw [stepDeposit?, hkey, resultOf?_of_mem wellFormed hmem rfl, houtput]
        rfl
      refine ⟨hmiss _ rfl honly, ?_⟩
      rw [hsome]
      refine hj (.step o s output) ?_
      rw [Stored.throughJson, Row.map_throughJson_finite (finite s.name output houtput)]
      rfl
  | @unkept output j' hkey hj =>
      obtain ⟨-, honly⟩ := hresult (.succeeded s output false) (by simp [Progress.enter]) rfl
      have hnone : o.stepDeposit? s = none := by
        rw [stepDeposit?, hkey]
      exact ⟨hmiss _ rfl honly, by rwa [hnone]⟩
  | @failed f j' hj =>
      obtain ⟨hmem, honly⟩ := hresult (.failed s (f.inStep s.name s.kind.name).message)
        (by simp [Progress.enter]) rfl
      have hnone := stepDeposit?_of_unsuccess wellFormed hmem rfl (by simp [StepResult.failed])
      exact ⟨hmiss _ rfl honly, by rwa [hnone]⟩

/-- The steps of a run, one after the other. -/
theorem runSteps_follows (hsteps : o.pipeline.orderedSteps = front ++ rest)
    (hfinal : ((Run.runSteps o.workshop o.settings o.pipeline o.params rest progress).run j).1 =
      o.progress)
    (h : j.Follows o.journal.cache.isSome (o.stepDeposits front ++ earlier)) :
    (∀ mid s back, rest = mid ++ s :: back → ∀ t ∈ o.progress.results, t.stepName = s.name →
      t.cacheHit = true → o.Replays (o.stepDeposits (front ++ mid) ++ earlier) s t) ∧
    ((Run.runSteps o.workshop o.settings o.pipeline o.params rest progress).run j).2.Follows
      o.journal.cache.isSome (o.stepDeposits (front ++ rest) ++ earlier) := by
  -- on the steps to come; those gone through have left their deposits
  induction rest generalizing front progress j with
  | nil =>
      refine ⟨fun mid s back hrest => ?_, by rwa [List.append_nil]⟩
      simp at hrest
  | cons s rest ih =>
      cases hstop : progress.log.shouldStop with
      | true =>
          rw [Run.runSteps_stop hstop] at hfinal ⊢
          -- the steps that are left were skipped
          have hskipped : ∀ t ∈ s :: rest, StepResult.skipped t ∈ o.progress.results := by
            intro t ht
            rw [← hfinal]
            exact List.mem_append_right _ (List.mem_map_of_mem ht)
          have hnone : (s :: rest).filterMap o.stepDeposit? = [] := by
            rw [List.filterMap_eq_nil_iff]
            intro t ht
            exact stepDeposit?_of_unsuccess wellFormed (hskipped t ht) rfl
              (by simp [StepResult.skipped])
          constructor
          · intro mid s' back hrest t ht hname hhit
            have hmem : s' ∈ s :: rest := hrest ▸ List.mem_append_right _ List.mem_cons_self
            have hsame := (resultOf?_of_mem wellFormed ht hname).symm.trans
              (resultOf?_of_mem wellFormed (hskipped s' hmem) rfl)
            cases hsame
            cases hhit
          · have hsame : o.stepDeposits (front ++ s :: rest) = o.stepDeposits front := by
              rw [stepDeposits, List.filterMap_append, hnone, List.append_nil, stepDeposits]
            rwa [hsame]
      | false =>
          obtain ⟨hhere, hnext⟩ := runStep_follows wellFormed finite hsteps hstop hfinal h
          rw [Run.runSteps_go hstop] at hfinal ⊢
          rw [List.append_cons] at hsteps
          obtain ⟨hlater, hkept⟩ := ih hsteps hfinal hnext
          constructor
          · intro mid s' back hrest t ht hname hhit
            cases mid with
            | nil =>
                cases hrest
                rw [List.append_nil]
                exact hhere t ht hname hhit
            | cons first mid =>
                cases hrest
                rw [List.append_cons]
                exact hlater mid s' back rfl t ht hname hhit
          · rw [List.append_cons]
            exact hkept

end

/-- A run whose steps went through, one deposit after the other. -/
theorem runPipeline_follows (wellFormed : o.pipeline.WellFormed) (finite : o.FiniteOutputs)
    {earlier : Ledger} (h : o.journal.Follows o.journal.cache.isSome earlier) :
    (∀ front s back, o.pipeline.orderedSteps = front ++ s :: back → ∀ t ∈ o.result.stepResults,
      t.stepName = s.name → t.cacheHit = true → o.Replays (o.stepDeposits front ++ earlier) s t) ∧
    ((Run.runPipeline o.workshop o.settings o.pipeline o.params).run o.journal).2.Follows
      o.journal.cache.isSome (o.stepDeposits o.pipeline.orderedSteps ++ earlier) :=
  @runSteps_follows o wellFormed finite earlier [] o.pipeline.orderedSteps _ _ rfl rfl h

theorem finite_result (finite : o.FiniteOutputs) :
    (Stored.run o.result).throughJson = .run o.result := by
  have hrows : ∀ row ∈ o.result.rows, row.Finite := by
    intro row hrow
    have hrow : row ∈ (Engine.pageOf (o.progress.outputs.get? o.pipeline.output) o.page).1 := hrow
    cases hget : o.progress.outputs.get? o.pipeline.output with
    | none =>
        rw [hget] at hrow
        cases hrow
    | some output =>
        rw [hget] at hrow
        exact finite _ output hget row (Engine.pageOf_subset output o.page hrow)
  rw [Stored.throughJson, Row.map_throughJson_finite hrows]

/-- The end of a run enters its result, if it is to be kept. -/
theorem conclude_follows (finite : o.FiniteOutputs) {earlier : Ledger} {j : Journal}
    {hasCache : Bool} (h : j.Follows hasCache (o.stepDeposits o.pipeline.orderedSteps ++ earlier)) :
    ((Engine.conclude o.workshop o.resultKey? o.result).run j).2.Follows hasCache
      (o.ledger ++ earlier) := by
  rw [ledger, List.append_assoc, resultDeposit?, Engine.conclude]
  cases o.resultKey? with
  | none => cases o.result.success <;> exact h.of_cache rfl
  | some key =>
      cases hsuccess : o.result.success with
      | false => exact h.of_cache rfl
      | true =>
          cases o.result.failures.isEmpty with
          | false => exact h.of_cache rfl
          | true =>
              have hstored := h.store key o.workshop.config.pipelineCacheTtl
                (d := .run o) (finite_result finite).symm
              exact hstored.of_cache rfl

end RunCase

/-! ## The calls of an engine -/

/-- A call of an engine: what it came with, and the state it was made in. -/
structure Turn where
  workshop : Workshop
  call : Call
  before : EngineState

namespace Turn

def answer (t : Turn) : Except Fault RunResult := t.call.answer t.workshop t.before

def after (t : Turn) : EngineState :=
  ((Engine.execute t.workshop t.call.document t.call.params t.call.options).run t.before).2

/-- What the call asks to be run, if it is not refused. -/
def asked? (t : Turn) : Option (Option (UInt64 × UInt64) × Pipeline × Parameters) :=
  match t.call.options.pagination t.workshop.config,
    Engine.resolve t.call.document t.call.params with
  | .ok page, .ok resolved => some (page, resolved)
  | _, _ => none

/-- The key under which the result is looked for, if it may come from the cache. -/
def key? (t : Turn) : Option String :=
  t.asked?.bind fun (page, p, params) =>
    Engine.resultKey? t.workshop p params t.call.options page t.before.journal.cache.isSome

/-- A run for the call, after the result was looked for. -/
def runFrom (t : Turn) (page : Option (UInt64 × UInt64)) (p : Pipeline) (params : Parameters)
    (j : Journal) : RunCase where
  workshop := t.workshop
  settings := Engine.settingsOf t.workshop t.call.options page
  pipeline := p
  params
  page
  number := t.before.runs + 1
  journal := { j with
    events := j.events ++ [.runStarted p.metadata.name (t.before.runs + 1) p.order] }

/-- The run that was made, if the call was not refused and its result not found in the cache. -/
def run? (t : Turn) : Option RunCase :=
  t.asked?.bind fun (page, p, params) =>
    let read := (Engine.recallResult t.key?).run t.before.journal
    if read.1.isSome then none else some (t.runFrom page p params read.2)

theorem execute_refused {t : Turn} (h : t.asked? = none) :
    ∃ f, (Engine.execute t.workshop t.call.document t.call.params t.call.options).run t.before =
      (.error f, t.before) := by
  rw [Engine.execute]
  cases hpage : t.call.options.pagination t.workshop.config with
  | error issue => exact ⟨_, rfl⟩
  | ok page =>
      cases hresolve : Engine.resolve t.call.document t.call.params with
      | error f => exact ⟨f, rfl⟩
      | ok resolved =>
          rw [asked?, hpage, hresolve] at h
          cases h

theorem execute_asked {t : Turn} {page : Option (UInt64 × UInt64)} {p : Pipeline}
    {params : Parameters} (h : t.asked? = some (page, p, params)) :
    p.WellFormed ∧
      (Engine.execute t.workshop t.call.document t.call.params t.call.options).run t.before =
        let ran := (Engine.runResolved t.workshop p params t.call.options page).run t.before
        (.ok ran.1, ran.2) := by
  rw [Engine.execute]
  rw [asked?] at h
  cases hpage : t.call.options.pagination t.workshop.config with
  | error issue =>
      rw [hpage] at h
      cases h
  | ok page' =>
      cases hresolve : Engine.resolve t.call.document t.call.params with
      | error f =>
          rw [hpage, hresolve] at h
          cases h
      | ok resolved =>
          rw [hpage, hresolve] at h
          cases h
          exact ⟨Engine.resolve_wellFormed hresolve, rfl⟩

/-- What a call asks to be run is what its document comes to. -/
theorem resolve_of_asked? {t : Turn} {page : Option (UInt64 × UInt64)} {p : Pipeline}
    {params : Parameters} (h : t.asked? = some (page, p, params)) :
    Engine.resolve t.call.document t.call.params = .ok (p, params) := by
  rw [asked?] at h
  split at h
  · rename_i hresolve
    cases h
    exact hresolve
  · cases h

/-- A run was made because nothing was found under the key of the call. -/
theorem run?_eq_some {t : Turn} {o : RunCase} (h : t.run? = some o) :
    ∃ page p params, t.asked? = some (page, p, params) ∧
      ((Engine.recallResult t.key?).run t.before.journal).1 = none ∧
        o = t.runFrom page p params ((Engine.recallResult t.key?).run t.before.journal).2 := by
  rw [run?] at h
  cases hasked : t.asked? with
  | none =>
      rw [hasked] at h
      cases h
  | some asked =>
      obtain ⟨page, p, params⟩ := asked
      rw [hasked, Option.bind_some] at h
      dsimp only at h
      split at h
      · cases h
      · rename_i hmissed
        cases h
        exact ⟨page, p, params, rfl, Option.not_isSome_iff_eq_none.mp hmissed, rfl⟩

theorem run?_wellFormed {t : Turn} {o : RunCase} (h : t.run? = some o) :
    o.pipeline.WellFormed := by
  obtain ⟨page, p, params, hasked, -, rfl⟩ := run?_eq_some h
  exact (execute_asked hasked).1

theorem key?_eq {t : Turn} {page : Option (UInt64 × UInt64)} {p : Pipeline} {params : Parameters}
    (h : t.asked? = some (page, p, params)) :
    t.key? = Engine.resultKey? t.workshop p params t.call.options page
      t.before.journal.cache.isSome := by
  rw [key?, h]
  rfl

/-- The ways in which a call is answered: it is refused, its result is found in the cache, or it makes a
run. -/
inductive Way (t : Turn) : Prop
  | refused {f : Fault} : t.run? = none → t.answer = .error f → t.after = t.before → Way t
  | found {r : RunResult} : t.run? = none →
      ((Engine.recallResult t.key?).run t.before.journal).1 = some r → t.answer = .ok r →
      t.after.journal.cache = ((Engine.recallResult t.key?).run t.before.journal).2.cache → Way t
  | made {o : RunCase} : t.run? = some o → o.pipeline.WellFormed → t.answer = .ok o.result →
      o.journal.cache = ((Engine.recallResult t.key?).run t.before.journal).2.cache →
      t.after.journal = ((Engine.conclude o.workshop t.key? o.result).run
        ((Run.runPipeline o.workshop o.settings o.pipeline o.params).run o.journal).2).2 → Way t

theorem way (t : Turn) : t.Way := by
  cases hasked : t.asked? with
  | none =>
      obtain ⟨f, hran⟩ := execute_refused hasked
      exact .refused (by rw [run?, hasked]; rfl) (congrArg Prod.fst hran) (congrArg Prod.snd hran)
  | some asked =>
      obtain ⟨page, p, params⟩ := asked
      obtain ⟨wellFormed, hran⟩ := execute_asked hasked
      rw [Engine.runResolved_run, ← key?_eq hasked] at hran
      dsimp only at hran
      have hrun : t.run? = let read := (Engine.recallResult t.key?).run t.before.journal
          if read.1.isSome then none else some (t.runFrom page p params read.2) := by
        rw [run?, hasked]
        rfl
      cases hread : (Engine.recallResult t.key?).run t.before.journal with
      | mk found j =>
          rw [hread] at hran hrun
          cases found with
          | some r =>
              refine .found hrun (congrArg Prod.fst hread) (congrArg Prod.fst hran) ?_
              rw [after, hran, hread]
          | none =>
              have hmade : t.run? = some (t.runFrom page p params j) := hrun
              refine .made hmade wellFormed (congrArg Prod.fst hran) ?_ ?_
              · rw [hread]
                rfl
              · rw [after, hran]
                rfl

/-- A run that is made answers the call. -/
theorem answer_of_run? {t : Turn} {o : RunCase} (h : t.run? = some o) :
    t.answer = .ok o.result := by
  cases t.way with
  | refused hnone _ _ => cases h.symm.trans hnone
  | found hnone _ _ _ => cases h.symm.trans hnone
  | made hrun _ hanswer _ _ =>
      cases h.symm.trans hrun
      exact hanswer

/-- The ways in which a call is answered where the cache follows a ledger. -/
inductive Course (t : Turn) (hasCache : Bool) (ledger : Ledger) : Prop
  | refused {f : Fault} : t.run? = none → t.answer = .error f → t.after = t.before →
      Course t hasCache ledger
  | recalled {key : String} {r : RunResult} : t.run? = none → t.key? = some key →
      ledger.Filed key (.run r) → t.answer = .ok { r with cacheHit := true } →
      t.after.journal.Follows hasCache ledger → Course t hasCache ledger
  | made {o : RunCase} : t.run? = some o → o.pipeline.WellFormed → t.answer = .ok o.result →
      o.journal.Follows hasCache ledger →
      t.after.journal = ((Engine.conclude o.workshop o.resultKey? o.result).run
        ((Run.runPipeline o.workshop o.settings o.pipeline o.params).run o.journal).2).2 →
      Course t hasCache ledger

theorem recallResult_follows {j : Journal} {hasCache : Bool} {ledger : Ledger}
    (h : j.Follows hasCache ledger) (key : Option String) :
    ((Engine.recallResult key).run j).2.Follows hasCache ledger := by
  refine ⟨?_, (Engine.recallResult_holds h.filed key).1⟩
  cases key with
  | none => exact h.cached
  | some k =>
      have hread := (h.find k).cached
      rw [Engine.recallResult]
      simp only [StateT.run_bind]
      generalize (Recorded.find k).run j = read at hread ⊢
      obtain ⟨v, j'⟩ := read
      rcases v with _ | v | v <;> exact hread

/-- The key under which a run leaves its result is the one under which the result was looked for. -/
theorem runFrom_resultKey? {t : Turn} {page : Option (UInt64 × UInt64)} {p : Pipeline}
    {params : Parameters} (h : t.asked? = some (page, p, params)) {j : Journal}
    (cached : j.cache.isSome = t.before.journal.cache.isSome) :
    (t.runFrom page p params j).resultKey? = t.key? := by
  rw [key?_eq h, Engine.resultKey?, ← cached]
  rfl

theorem course (t : Turn) {hasCache : Bool} {ledger : Ledger}
    (h : t.before.journal.Follows hasCache ledger) : t.Course hasCache ledger := by
  have hread := recallResult_follows h t.key?
  cases t.way with
  | refused hnone hanswer hafter => exact .refused hnone hanswer hafter
  | found hnone hfound hanswer hafter =>
      obtain ⟨k, stored, hk, hfiled, rfl⟩ := (Engine.recallResult_holds h.filed t.key?).2 _ hfound
      exact .recalled hnone hk hfiled hanswer (hread.of_cache hafter)
  | @made o hrun wellFormed hanswer hcache hafter =>
      obtain ⟨page, p, params, hasked, -, rfl⟩ := run?_eq_some hrun
      refine .made hrun wellFormed hanswer (hread.of_cache hcache) ?_
      rw [runFrom_resultKey? hasked (hread.cached.trans h.cached.symm)]
      exact hafter

end Turn

/-- The turns of an engine so far, the last first, and the state it is in. Its cache was empty at first.
Between the turns time goes on, the cache may be cleared and the connector closed. -/
inductive History : List Turn → EngineState → Prop
  | start (s : EngineState) : (∀ cache, s.journal.cache = some cache → cache.entries = {}) →
      History [] s
  | execute {turns : List Turn} {s : EngineState} (w : Workshop) (call : Call) : History turns s →
      History (⟨w, call, s⟩ :: turns) (Turn.after ⟨w, call, s⟩)
  | close {turns : List Turn} {s : EngineState} (w : Workshop) : History turns s →
      History turns ((Engine.close w).run s).2
  | clearCache {turns : List Turn} {s : EngineState} : History turns s →
      History turns (Engine.clearCache.run s).2
  | wait {turns : List Turn} {s : EngineState} (now : Nat) : History turns s →
      History turns { s with journal := { s.journal with now } }

/-- The runs that were made, the last first. -/
def runsOf (turns : List Turn) : List RunCase := turns.filterMap Turn.run?

/-- What they left. -/
def ledgerOf (turns : List Turn) : Ledger := (runsOf turns).flatMap RunCase.ledger

/-- A turn enters what its run left, if it made one. -/
theorem ledgerOf_cons (t : Turn) (turns : List Turn) :
    ledgerOf (t :: turns) = ((t.run?.map RunCase.ledger).getD []) ++ ledgerOf turns := by
  rw [ledgerOf, runsOf]
  cases hrun : t.run? with
  | none =>
      rw [List.filterMap_cons_none hrun]
      rfl
  | some o =>
      rw [List.filterMap_cons_some hrun, List.flatMap_cons]
      rfl

/-- The cache of an engine holds what its turns left. -/
theorem History.follows {turns : List Turn} {s : EngineState} (h : History turns s)
    (finite : ∀ o ∈ runsOf turns, o.FiniteOutputs) :
    s.journal.Follows s.journal.cache.isSome (ledgerOf turns) := by
  induction h with
  | start s empty => exact ⟨rfl, .of_empty empty⟩
  | @execute turns s w call _ ih =>
      have hearlier := ih fun o ho => finite o (by
        rw [runsOf, List.filterMap_cons]
        split
        · exact ho
        · exact List.mem_cons_of_mem _ ho)
      refine ⟨rfl, ?_⟩
      rw [ledgerOf_cons]
      cases Turn.course ⟨w, call, s⟩ hearlier with
      | refused hnone _ hafter =>
          rw [hnone, hafter]
          exact hearlier.filed
      | recalled hnone _ _ _ hafter =>
          rw [hnone]
          exact hafter.filed
      | @made o hrun wellFormed _ hjournal hafter =>
          have hfinite : o.FiniteOutputs := finite o (by
            rw [runsOf, List.filterMap_cons_some hrun]
            exact List.mem_cons_self)
          rw [hrun, hafter]
          have hjournal : o.journal.Follows o.journal.cache.isSome (ledgerOf turns) :=
            ⟨rfl, hjournal.filed⟩
          exact (RunCase.conclude_follows hfinite
            (RunCase.runPipeline_follows wellFormed hfinite hjournal).2).filed
  | close w _ ih => exact (ih finite).of_cache rfl
  | @clearCache turns s _ _ =>
      have hcleared : (Engine.clearCache.run s).2.journal.cache =
          s.journal.cache.map Cache.clear := rfl
      exact ⟨rfl, .cleared hcleared⟩
  | wait now _ ih => exact (ih finite).of_cache rfl

/-! ## Sound deposits -/

/-- The run behind a deposit. -/
def Deposit.source : Deposit → RunCase
  | .step o _ _ => o
  | .run o => o

/-- A deposit is a success: the output of a step that was carried out and shown no page, or the result of
a run in which nothing failed. -/
def Deposit.Sound (key : String) : Deposit → Prop
  | .step o s output => s ∈ o.pipeline.orderedSteps ∧ o.stepKey? s = some key ∧
      (o.context s).pagination = none ∧ StepResult.succeeded s output false ∈ o.result.stepResults ∧
        o.progress.outputs.get? s.name = some output
  | .run o => o.resultKey? = some key ∧ o.result.success = true ∧ o.result.failures = [] ∧
      ∀ t ∈ o.result.stepResults, t.status ≠ .failed

/-- Every entry of a journal is one of another. -/
def Journal.Entry (j : Journal) (key : String) (v : Stored) : Prop :=
  ∃ cache e, j.cache = some cache ∧ cache.entries.get? key = some e ∧ v = e.value

theorem Journal.holds_entry (j : Journal) : j.Holds j.Entry :=
  fun cache hcache _ e he => ⟨cache, e, hcache, he, rfl⟩

namespace RunCase

variable {o : RunCase}

/-- The result of a step is its account. -/
theorem account_of_mem (wellFormed : o.pipeline.WellFormed) {t : StepResult}
    (ht : t ∈ o.progress.results) {s : Step} (hs : s ∈ o.pipeline.orderedSteps)
    (hname : t.stepName = s.name) :
    Run.Account o.workshop o.settings o.pipeline o.params o.progress.outputs s t := by
  obtain ⟨hlength, haccounts⟩ := List.forall₂_iff_get.mp (ended wellFormed).accounts
  obtain ⟨i, hi, ht⟩ := List.mem_iff_getElem.mp ht
  have hi' : i < o.pipeline.orderedSteps.length := by omega
  have haccount := haccounts i hi' hi
  rw [List.get_eq_getElem, List.get_eq_getElem, ht] at haccount
  have hsame : o.pipeline.orderedSteps[i].name = s.name := haccount.name.1.symm.trans hname
  rwa [List.inj_on_of_nodup_map wellFormed.runnable.nodup (List.getElem_mem hi') hs hsame]
    at haccount

theorem unpaged_of_stepKey? {s : Step} {key : String} (h : o.stepKey? s = some key) :
    (o.context s).pagination = none := by
  rw [stepKey?, Run.cacheKey?] at h
  split at h
  · rename_i hcached
    simp only [Bool.and_eq_true, Option.isNone_iff_eq_none] at hcached
    exact hcached.2
  · cases h

/-- What a step left is the output it succeeded with. -/
theorem stepDeposit?_sound (wellFormed : o.pipeline.WellFormed) {s : Step}
    (hs : s ∈ o.pipeline.orderedSteps) {key : String} {d : Deposit}
    (h : o.stepDeposit? s = some (key, d)) : d.source = o ∧ d.Sound key := by
  have hleft := h
  rw [stepDeposit?] at h
  split at h
  · rename_i k t output hkey ht houtput
    cases hhit : t.cacheHit with
    | true => simp [hhit] at h
    | false =>
        rw [hhit] at h
        cases h
        have hmem : t ∈ o.progress.results := List.mem_of_find?_eq_some ht
        have hname : t.stepName = s.name := eq_of_beq (List.find?_some ht :)
        refine ⟨rfl, hs, hkey, unpaged_of_stepKey? hkey, ?_, houtput⟩
        have haccount := account_of_mem wellFormed hmem hs hname
        change StepResult.succeeded s output false ∈ o.progress.results
        cases haccount with
        | skipped =>
            rw [stepDeposit?_of_unsuccess wellFormed hmem rfl (by simp [StepResult.skipped])] at hleft
            cases hleft
        | failed _ hnone => cases houtput.symm.trans hnone
        | succeeded _ hsome =>
            cases hsome.symm.trans houtput
            cases hhit
            exact hmem
  · cases h

/-- What a run left is sound. -/
theorem ledger_sound (wellFormed : o.pipeline.WellFormed) {key : String} {d : Deposit}
    (h : (key, d) ∈ o.ledger) : d.source = o ∧ d.Sound key := by
  rw [ledger, List.mem_append, Option.mem_toList] at h
  rcases h with h | h
  · rw [resultDeposit?] at h
    split at h
    · rename_i k hkey
      split at h
      · rename_i hunfailed
        cases h
        rw [Bool.and_eq_true, List.isEmpty_iff] at hunfailed
        refine ⟨rfl, hkey, hunfailed.1, hunfailed.2, fun t ht hfailed => ?_⟩
        exact (ended wellFormed).failures_of_failed ht hfailed hunfailed.2
      · cases h
    · cases h
  · rw [stepDeposits, List.mem_reverse, List.mem_filterMap] at h
    obtain ⟨s, hs, h⟩ := h
    exact stepDeposit?_sound wellFormed hs h

/-- A step that failed, or was shown a page, leaves no entry. -/
theorem runStep_unkept (wellFormed : o.pipeline.WellFormed) {s : Step}
    (hs : s ∈ o.pipeline.orderedSteps)
    (h : (∃ t ∈ o.result.stepResults, t.stepName = s.name ∧ t.status = .failed) ∨
      (o.context s).pagination ≠ none) (j : Journal) :
    ((Run.runStep o.workshop o.settings s (o.context s)).run j).2.Holds j.Entry := by
  refine Run.runStep_holds j.holds_entry o.workshop o.settings s (o.context s) ?_
  intro k output hkey houtcome
  rcases h with ⟨t, ht, hname, hfailed⟩ | hpage
  · cases account_of_mem wellFormed ht hs hname with
    | skipped => cases hfailed
    | succeeded _ _ => cases hfailed
    | failed hends _ =>
        cases hends with
        | fresh hrun => cases houtcome.symm.trans hrun
  · rw [Run.cacheKey?] at hkey
    split at hkey
    · rename_i hcached
      simp only [Bool.and_eq_true, Option.isNone_iff_eq_none] at hcached
      exact absurd hcached.2 hpage
    · cases hkey

/-- A run in which a step failed leaves no result. -/
theorem conclude_unkept (wellFormed : o.pipeline.WellFormed)
    (h : ∃ t ∈ o.result.stepResults, t.status = .failed) (key : Option String) (j : Journal) :
    ((Engine.conclude o.workshop key o.result).run j).2.Holds j.Entry := by
  refine Engine.conclude_holds j.holds_entry o.workshop key ?_
  intro k _ unfailed
  obtain ⟨t, ht, hfailed⟩ := h
  exact absurd unfailed ((ended wellFormed).failures_of_failed ht hfailed)

end RunCase

/-! ## Faithful hits -/

/-- A turn is answered faithfully: what comes from the cache is what the runs before it left. -/
structure Turn.Faithful (t : Turn) (earlier : List Turn) : Prop where
  /-- A result from the cache is the last deposit under the key of the call, the result of a run in which
  nothing failed. -/
  recalled : ∀ r, t.answer = .ok r → r.cacheHit = true → ∃ key o, t.key? = some key ∧
    (ledgerOf earlier).last? key = some (.run o) ∧ r = { o.result with cacheHit := true } ∧
      r.success = true ∧ r.failures = []
  /-- Any other result is that of the run that was made. -/
  made : ∀ r, t.answer = .ok r → r.cacheHit = false → ∃ o, t.run? = some o ∧ r = o.result
  /-- In such a run, each step with a result from the cache shows the last deposit under its key. -/
  steps : ∀ o, t.run? = some o → ∀ front s back, o.pipeline.orderedSteps = front ++ s :: back →
    ∀ r ∈ o.result.stepResults, r.stepName = s.name → r.cacheHit = true →
      o.Replays (o.stepDeposits front ++ ledgerOf earlier) s r

/-- A run leaves nothing behind that failed, and no page. -/
structure RunCase.KeepsNoFailure (o : RunCase) : Prop where
  steps : ∀ s ∈ o.pipeline.orderedSteps,
    ((∃ t ∈ o.result.stepResults, t.stepName = s.name ∧ t.status = .failed) ∨
      (o.context s).pagination ≠ none) →
    ∀ j, ((Run.runStep o.workshop o.settings s (o.context s)).run j).2.Holds j.Entry
  result : (∃ t ∈ o.result.stepResults, t.status = .failed) →
    ∀ key j, ((Engine.conclude o.workshop key o.result).run j).2.Holds j.Entry

/-- The cache of an engine after some turns. -/
structure FaithfulCache (turns : List Turn) (s : EngineState) : Prop where
  answers : ∀ later t earlier, turns = later ++ t :: earlier → t.Faithful earlier
  /-- The cache holds nothing but the last deposit under each key. -/
  kept : s.journal.Holds (ledgerOf turns).Filed
  /-- The JSON of an entry is read again as the entry is. -/
  readable : s.journal.Holds fun _ v => v.Counted → v.reread = .ok v
  sound : ∀ key d, (key, d) ∈ ledgerOf turns → d.source ∈ runsOf turns ∧ d.Sound key
  unkept : ∀ o ∈ runsOf turns, o.KeepsNoFailure

/-- After turns whose runs had finite outputs, the next one is answered faithfully. -/
theorem Turn.faithful {t : Turn} {earlier : List Turn}
    (h : t.before.journal.Follows t.before.journal.cache.isSome (ledgerOf earlier))
    (sound : ∀ key d, (key, d) ∈ ledgerOf earlier → d.Sound key)
    (finite : ∀ o, t.run? = some o → o.FiniteOutputs) : t.Faithful earlier := by
  constructor
  · intro r hr hhit
    cases t.course h with
    | refused _ hf _ => cases hf.symm.trans hr
    | made _ _ ho _ _ =>
        cases ho.symm.trans hr
        cases hhit
    | @recalled key stored _ hkey hfiled hanswer _ =>
        cases hanswer.symm.trans hr
        obtain ⟨d, hlast, hd⟩ := hfiled
        cases d with
        | step o s output => cases hd
        | run o =>
            cases hd
            obtain ⟨-, hsuccess, hfailures, -⟩ := sound key _ (Assoc.mem_of_get? hlast)
            exact ⟨key, o, hkey, hlast, rfl, hsuccess, hfailures⟩
  · intro r hr hfresh
    cases t.course h with
    | refused _ hf _ => cases hf.symm.trans hr
    | @made o hrun _ ho _ _ =>
        cases ho.symm.trans hr
        exact ⟨o, hrun, rfl⟩
    | recalled _ _ _ hanswer _ =>
        cases hanswer.symm.trans hr
        cases hfresh
  · intro o hrun
    cases t.course h with
    | refused hnone _ _ => cases hnone.symm.trans hrun
    | recalled hnone _ _ _ _ => cases hnone.symm.trans hrun
    | @made o' hrun' wellFormed _ hjournal _ =>
        cases hrun'.symm.trans hrun
        exact (RunCase.runPipeline_follows wellFormed (finite o hrun) ⟨rfl, hjournal.filed⟩).1

theorem ledgerOf_sound {turns : List Turn} {key : String} {d : Deposit}
    (h : (key, d) ∈ ledgerOf turns) : d.source ∈ runsOf turns ∧ d.Sound key := by
  obtain ⟨o, ho, h⟩ := List.mem_flatMap.mp h
  obtain ⟨t, -, hrun⟩ := List.mem_filterMap.mp ho
  obtain ⟨rfl, hsound⟩ := o.ledger_sound (Turn.run?_wellFormed hrun) h
  exact ⟨ho, hsound⟩

/-- A deposit of a run with finite outputs goes through JSON as it is. -/
theorem Deposit.throughJson_stored {key : String} {d : Deposit} (sound : d.Sound key)
    (finite : d.source.FiniteOutputs) : d.stored.throughJson = d.stored := by
  cases d with
  | step o s output =>
      obtain ⟨-, -, -, -, houtput⟩ := sound
      rw [stored, Stored.throughJson, Row.map_throughJson_finite (finite s.name output houtput)]
  | run o => exact RunCase.finite_result finite

/-- Every turn of a history was made after the turns before it. -/
theorem History.before {turns later earlier : List Turn} {t : Turn} {s : EngineState}
    (h : History turns s) (hturns : turns = later ++ t :: earlier) : History earlier t.before := by
  induction h generalizing later with
  | start s empty => simp at hturns
  | @execute turns s w call hbefore ih =>
      cases later with
      | nil =>
          cases hturns
          exact hbefore
      | cons _ later =>
          cases hturns
          exact ih rfl
  | close w _ ih => exact ih hturns
  | clearCache _ ih => exact ih hturns
  | wait now _ ih => exact ih hturns

/-- A call whose run left its result is answered from the cache when it is made again at once. -/
theorem Turn.again {t : Turn} {o : RunCase} {key : String} {ledger : Ledger}
    (h : t.before.journal.Follows true ledger) (hrun : t.run? = some o) (hkey : t.key? = some key)
    (finite : o.FiniteOutputs) (unfailed : o.result.failures = [])
    (lasting : 0 < t.workshop.config.pipelineCacheTtl.toNat) :
    let next : Turn := ⟨t.workshop, t.call, t.after⟩
    next.run? = none ∧ ∃ r, next.answer = .ok r ∧ r.cacheHit = true := by
  intro next
  obtain ⟨page, p, params, hasked, -, ho⟩ := run?_eq_some hrun
  have wellFormed := run?_wellFormed hrun
  have hsuccess := RunCase.success_of_unfailed wellFormed unfailed
  cases t.course h with
  | refused hnone _ _ => cases hnone.symm.trans hrun
  | recalled hnone _ _ _ _ => cases hnone.symm.trans hrun
  | @made o' hrun' _ _ hjournal hafter =>
      cases hrun'.symm.trans hrun
      have hcached := hjournal.cached
      have hleft : o.resultKey? = some key := by
        rw [← hkey, ho, runFrom_resultKey? hasked]
        exact (recallResult_follows h t.key?).cached.trans h.cached.symm
      have hran := (RunCase.runPipeline_follows wellFormed finite
        (⟨rfl, hjournal.filed⟩ : o.journal.Follows _ ledger)).2
      have hkept := RunCase.conclude_follows finite hran
      rw [← hafter, hcached] at hkept
      -- the result is the last thing that was stored
      have hfound : ((Recorded.find key).run t.after.journal).1 =
          some (Stored.run o.result).throughJson := by
        have hshop : o.workshop = t.workshop := by rw [ho]; rfl
        rw [hafter, hleft, Engine.conclude, hsuccess, unfailed, Recorded.find_result]
        have hstored := @Recorded.find_store _ key (Stored.run o.result)
          o.workshop.config.pipelineCacheTtl (hran.cached.trans hcached) (hshop ▸ lasting)
        rw [Recorded.find_result] at hstored
        exact hstored
      have hnext : next.key? = some key := by
        rw [← hkey, key?_eq hasked, key?_eq (t := next) hasked, h.cached, hkept.cached]
      have hread : ((Engine.recallResult next.key?).run next.before.journal).1.isSome = true := by
        rw [hnext, Engine.recallResult]
        simp only [StateT.run_bind]
        change ((Recorded.find key).run next.before.journal).1 = _ at hfound
        generalize (Recorded.find key).run next.before.journal = read at hfound ⊢
        obtain ⟨v, j⟩ := read
        cases hfound
        rfl
      have hnone : next.run? = none := by
        rw [run?, show next.asked? = some (page, p, params) from hasked, Option.bind_some]
        dsimp only
        rw [if_pos hread]
      refine ⟨hnone, ?_⟩
      cases next.course hkept with
      | refused _ hf _ =>
          have hok := congrArg Prod.fst (execute_asked (t := next) hasked).2
          cases hf.symm.trans hok
      | recalled _ _ _ hanswer _ => exact ⟨_, hanswer, rfl⟩
      | made hsome _ _ _ _ => cases hnone.symm.trans hsome

/-- A cache hit replays a success. In every history of an engine whose runs have finite outputs, what is
answered from the cache, for a call or for a step of a run, is what a run left last under its key. That
is never a failure or a page. -/
theorem cache_hits_replay {turns : List Turn} {s : EngineState} (h : History turns s)
    (finite : ∀ o ∈ runsOf turns, o.FiniteOutputs) : FaithfulCache turns s where
  answers := by
    rintro later t earlier rfl
    have hruns : runsOf (later ++ t :: earlier) = runsOf later ++ (t.run?.toList ++ runsOf earlier) := by
      rw [runsOf, List.filterMap_append, List.filterMap_cons]
      cases t.run? <;> rfl
    rw [hruns] at finite
    have hbefore := (h.before rfl).follows fun o ho =>
      finite o (List.mem_append_right _ (List.mem_append_right _ ho))
    refine Turn.faithful hbefore (fun key d hd => (ledgerOf_sound hd).2) fun o ho => finite o ?_
    rw [ho]
    exact List.mem_append_right _ (List.mem_append_left _ (List.mem_singleton.mpr rfl))
  kept := (h.follows finite).filed
  readable := by
    intro cache hcache key e he counted
    obtain ⟨d, hlast, hd⟩ := (h.follows finite).filed cache hcache key e he
    obtain ⟨hsource, hsound⟩ := ledgerOf_sound (Assoc.mem_of_get? hlast)
    rw [Stored.reread_eq counted, hd, Deposit.throughJson_stored hsound (finite _ hsource)]
  sound := fun key d => ledgerOf_sound
  unkept := by
    intro o ho
    obtain ⟨t, -, hrun⟩ := List.mem_filterMap.mp ho
    have wellFormed := Turn.run?_wellFormed hrun
    exact ⟨fun s hs => o.runStep_unkept wellFormed hs, o.conclude_unkept wellFormed⟩

/-- Two calls of one query, the second of which is answered from the cache. -/
theorem cache_hits_replay_twice :
    let w : Workshop := ⟨.standard, some oneNumber, {}⟩
    let first : Turn := ⟨w, echoCall 1, { journal := { cache := some {} } }⟩
    let second : Turn := ⟨w, echoCall 1, first.after⟩
    History [second, first] second.after ∧ (∀ o ∈ runsOf [second, first], o.FiniteOutputs) ∧
      (∃ r, second.answer = .ok r ∧ r.cacheHit = true) ∧
      FaithfulCache [second, first] second.after := by
  intro w first second
  have hstart : History [] first.before := .start _ fun cache hcache => by cases hcache; rfl
  have history : History [second, first] second.after :=
    .execute w (echoCall 1) (.execute w (echoCall 1) hstart)
  have hasked : first.asked? = some (none, echoPipeline, (echoCall 1).params) := rfl
  obtain ⟨key, hkey⟩ : ∃ key, first.key? = some key := ⟨_, (Turn.key?_eq hasked).trans (if_pos rfl)⟩
  let o : RunCase := first.runFrom none echoPipeline (echoCall 1).params
    { cache := some (({} : Cache Stored).get 0 key).2 }
  have hrun : first.run? = some o := by
    rw [Turn.run?, hasked, hkey]
    rfl
  -- the first call finds nothing, so it carries the query out
  let s : Step := ⟨"out", .query, echoConfig, true⟩
  let c : StepContext := Run.contextOf o.workshop o.settings o.pipeline o.params {} s
  obtain ⟨output, houtcome, hrows⟩ : ∃ output, (o.workshop.registry.run c).start.1 = .ok output ∧
      output.rows = [echoRow 1] := ⟨_, rfl, rfl⟩
  have hstep : ∃ k, Run.cacheKey? o.workshop o.settings o.journal.cache.isSome s c = some k :=
    ⟨_, if_pos rfl⟩
  obtain ⟨stepKey, hstep⟩ := hstep
  have lasting : 0 < ({} : EngineConfig).stepCacheTtl.toNat := by decide
  have hran : ((Run.runStep o.workshop o.settings s c).run o.journal).1 = (.ok output, false) :=
    (Run.runStep_kept rfl hstep rfl houtcome lasting).1
  have hprogress : o.progress =
      Progress.enter { log := { mode := .failFast } } s (.ok output) false := by
    rw [RunCase.progress, Run.runPipeline_single (s := s) rfl]
    dsimp only
    rw [hran]
    rfl
  have hfinite : o.FiniteOutputs := by
    intro name found hfound row hrow
    rw [hprogress, Progress.enter, Record.get?_insert] at hfound
    split at hfound
    · cases hfound
      rw [hrows, List.mem_singleton] at hrow
      subst hrow
      intro entry hentry
      have hentry : entry ∈ [("n", Value.int 1), ("v", .object [("k", .int 1)])] := hentry
      rcases List.mem_cons.mp hentry with rfl | hentry
      · trivial
      · rw [List.mem_singleton.mp hentry]
        exact ⟨trivial, trivial⟩
    · cases hfound
  have hunfailed : o.result.failures = [] := by
    have hfailures : o.result.failures = o.progress.log.failures := rfl
    rw [hfailures, hprogress]
    rfl
  have hbefore : first.before.journal.Follows true (ledgerOf []) :=
    hstart.follows fun _ ho => absurd ho List.not_mem_nil
  obtain ⟨hnone, hhit⟩ := first.again hbefore hrun hkey hfinite hunfailed (by decide)
  have finite : ∀ o' ∈ runsOf [second, first], o'.FiniteOutputs := by
    intro o' ho'
    rw [runsOf, List.filterMap_cons_none hnone, List.filterMap_cons_some hrun] at ho'
    rwa [List.mem_singleton.mp ho']
  exact ⟨history, finite, hhit, cache_hits_replay history finite⟩

end RowPipeline
