import RowPipeline.Proofs.CacheKeys
import RowPipeline.Proofs.CachedRuns
import RowPipeline.Proofs.StepReads

/-!
# When the caches cannot be told

An engine keeps what steps and runs came to under keys: that of a step tells its settings and the rows it
reads up to the order of names, and that of a run its document, parameters and page. Where this is all
that tells the steps and runs of some calls apart, every call is answered as it is without the caches,
whatever calls came before it and however much time went by. What the key of a step leaves out are the
parameters its expressions mention. A step that reads one of them can be answered with the output of
another.
-/

namespace RowPipeline

/-! ## Calls -/

/-- A call of an engine. -/
structure Call where
  document : Json
  params : Parameters
  options : RunOptions

namespace RunCase

/-- A run without the caches, of a pipeline read for a call. -/
def ofCall (w : Workshop) (options : RunOptions) (page : Option (UInt64 × UInt64)) (p : Pipeline)
    (params : Parameters) : RunCase where
  workshop := w
  settings := { Engine.settingsOf w options page with useCache := false }
  pipeline := p
  params
  page
  number := 0
  journal := {}

/-- What a step of a run gets to see. -/
def context (o : RunCase) (s : Step) : StepContext :=
  Run.contextOf o.workshop o.settings o.pipeline o.params o.progress.outputs s

/-- The text whose digest is the key of a run. -/
def keyText (o : RunCase) : String :=
  (runMaterial o.pipeline.toJson o.params (o.page.map Prod.fst) (o.page.map Prod.snd)).canonical

/-- The key under which the result of a run is kept. -/
def key (o : RunCase) : String :=
  runKey o.pipeline.toJson o.params (o.page.map Prod.fst) (o.page.map Prod.snd)

end RunCase

namespace Call

/-- What an engine answers. -/
def answer (call : Call) (w : Workshop) (s : EngineState) : Except Fault RunResult :=
  ((Engine.execute w call.document call.params call.options).run s).1

/-- The same call with the caches off. -/
def uncached (call : Call) : Call :=
  { call with options := { call.options with useCache := some false } }

/-- A run that a call asks for, carried out without the caches. -/
inductive Asks (w : Workshop) (call : Call) : RunCase → Prop
  | mk {page : Option (UInt64 × UInt64)} {p : Pipeline} {params : Parameters} :
      call.options.pagination w.config = .ok page →
      Engine.resolve call.document call.params = .ok (p, params) →
      Asks w call (.ofCall w call.options page p params)

end Call

/-- The states of an engine between calls, each one of some. Its cache was empty at first; time may go
on, and the cache may be cleared. -/
inductive Served (w : Workshop) (among : Call → Prop) : EngineState → Prop
  | start (s : EngineState) : (∀ cache, s.journal.cache = some cache → cache.entries = {}) →
      Served w among s
  | execute {s : EngineState} {call : Call} : among call → Served w among s →
      Served w among ((Engine.execute w call.document call.params call.options).run s).2
  | clearCache {s : EngineState} : Served w among s → Served w among (Engine.clearCache.run s).2
  | wait {s : EngineState} (now : Nat) : Served w among s →
      Served w among { s with journal := { s.journal with now } }

/-! ## What keys have to tell -/

section

variable (w : Workshop) (among : Call → Prop)

/-- The runs that some calls ask for. -/
def RunOf (o : RunCase) : Prop := ∃ call, among call ∧ call.Asks w o

/-- The steps of these runs, as their engines see them. -/
def StepOf (c : StepContext) : Prop :=
  ∃ o, RunOf w among o ∧ ∃ s ∈ o.pipeline.orderedSteps, c = o.context s

/-- No two of the texts that are made into keys have the same digest. -/
structure DigestsTell : Prop where
  steps : ∀ c c', StepOf w among c → StepOf w among c' →
    Sha256.ofText c.keyText = Sha256.ofText c'.keyText → c.keyText = c'.keyText
  rows : ∀ c c', StepOf w among c → StepOf w among c' → ∀ name rows rows',
    c.inputs.get? name = some rows → c'.inputs.get? name = some rows' →
      rowsFingerprint rows = rowsFingerprint rows' → canonicalRows rows = canonicalRows rows'
  runs : ∀ o o', RunOf w among o → RunOf w among o' →
    Sha256.ofText o.keyText = Sha256.ofText o'.keyText → o.keyText = o'.keyText

/-- What keys leave out is the same wherever what they tell is: the order of names in settings and rows,
the parameters that the expressions of a step mention, and for a whole run also what its pipeline
depends on beyond its document. -/
structure KeysTell : Prop where
  steps : ∀ c c', StepOf w among c → StepOf w among c' → c.Akin c' →
    c.config = c'.config ∧ (∀ name ∈ c.dependencies, c.inputs.get? name = c'.inputs.get? name) ∧
      ∀ name ∈ c.mentioned, c.params.get? name = c'.params.get? name
  runs : ∀ o o', RunOf w among o → RunOf w among o' →
    o.pipeline.toJson.canonical = o'.pipeline.toJson.canonical →
    (Row.toJson o.params).canonical = (Row.toJson o'.params).canonical → o.page = o'.page →
      o.pipeline = o'.pipeline ∧ o.params = o'.params

/-- No number in the output of a step is infinite or no number at all. -/
def FiniteOutputs : Prop :=
  ∀ c, StepOf w among c → ∀ output, (w.registry.run c).start.1 = .ok output →
    ∀ row ∈ output.rows, row.Finite

end

variable {w : Workshop} {among : Call → Prop}

/-! ## Steps with one key -/

/-- The inputs of a step are told by the rows of its dependencies. -/
theorem StepOf.inputs_eq {c : StepContext} (h : StepOf w among c) :
    c.inputs = Record.ofList (c.dependencies.filterMap fun name =>
      (c.inputs.get? name).map fun rows => (name, rows)) := by
  obtain ⟨o, -, s, -, rfl⟩ := h
  refine congrArg Record.ofList (List.filterMap_congr fun name hname => ?_)
  rw [RunCase.context, Run.contextOf_inputs, if_pos hname, Option.map_map]
  rfl

/-- The steps share what belongs to the engine. -/
theorem StepOf.shared {c : StepContext} (h : StepOf w among c) :
    c.connector = w.connector ∧ c.dialect = w.dialect ∧
      c.expressionFailure = w.config.expressionFailure := by
  obtain ⟨o, ⟨call, -, hasks⟩, s, -, rfl⟩ := h
  cases hasks
  exact ⟨rfl, rfl, rfl⟩

/-- Where keys tell steps, one that has the key of another gives what that one gives. -/
theorem KeysTell.same_output (hw : w.registry = .standard) (digests : DigestsTell w among)
    (keys : KeysTell w among) {c c' : StepContext} (hc : StepOf w among c)
    (hc' : StepOf w among c') (hpage : c.pagination = none) (hpage' : c'.pagination = none)
    (hkey : c.key = c'.key) {output : StepOutput} (h : (w.registry.run c).start.1 = .ok output) :
    (w.registry.run c').start.1 = .ok output := by
  rw [StepContext.key, StepContext.key, stepKey_eq, stepKey_eq] at hkey
  have htext : c.keyText = c'.keyText :=
    digests.steps c c' hc hc' ((String.append_right_inj _).mp hkey)
  have hakin := StepContext.akin_of_keyText htext (digests.rows c c' hc hc')
  obtain ⟨hconfig, hinputs, hparams⟩ := keys.steps c c' hc hc' hakin
  have hsame : c.inputs = c'.inputs := by
    rw [hc.inputs_eq, hc'.inputs_eq, ← hakin.dependencies]
    refine congrArg Record.ofList (List.filterMap_congr fun name hname => ?_)
    rw [hinputs name hname]
  -- the two differ in their names and in parameters that they do not read
  have hrenamed : c.renamed c'.stepName c'.params = c' := by
    obtain ⟨hconnector, hdialect, hfailure⟩ := hc.shared
    obtain ⟨hconnector', hdialect', hfailure'⟩ := hc'.shared
    rw [StepContext.renamed, hakin.kind, hconfig, hakin.dependencies, hsame, hconnector, hdialect,
      hfailure, hpage, ← hconnector', ← hdialect', ← hfailure', ← hpage']
  rw [hw] at h ⊢
  rw [← hrenamed]
  exact (StepRegistry.standard_renamed c'.stepName hparams).start h

/-! ## Runs with one key -/

namespace RunCase

variable {o : RunCase}

/-- An output that a run without the cache ends with is what the engine of a step gave. -/
theorem output_of_step (wellFormed : o.pipeline.WellFormed) (off : o.settings.useCache = false)
    {name : String} {output : StepOutput} (h : o.progress.outputs.get? name = some output) :
    ∃ s ∈ o.pipeline.orderedSteps, (o.workshop.registry.run (o.context s)).start.1 = .ok output := by
  have hended := ended wellFormed
  have hname : name ∈ o.progress.outputs.keys := by
    rw [← Record.contains_iff_mem_keys, Record.contains, h]
    rfl
  -- by the books, one result succeeded with this output, and without the cache its step was carried out
  obtain ⟨t, ht, rfl, hsuccess⟩ := hended.success_of_output hname
  have hfresh := hended.recalled off t ht
  obtain ⟨hlength, haccounts⟩ := List.forall₂_iff_get.mp hended.accounts
  obtain ⟨i, hi, ht⟩ := List.mem_iff_getElem.mp ht
  have hi' : i < o.pipeline.orderedSteps.length := by omega
  have haccount := haccounts i hi' hi
  refine ⟨o.pipeline.orderedSteps[i], List.getElem_mem hi', ?_⟩
  rw [List.get_eq_getElem, List.get_eq_getElem, ht] at haccount
  generalize o.pipeline.orderedSteps[i] = s at haccount
  cases haccount with
  | skipped => cases hsuccess
  | failed hends hnone => cases hsuccess
  | succeeded hends hout =>
      cases hends with
      | recalled output' => cases hfresh
      | fresh hrun =>
          cases Option.some.inj (hout.symm.trans h)
          exact hrun

/-- A run in which nothing failed is a success. -/
theorem success_of_unfailed (wellFormed : o.pipeline.WellFormed) (unfailed : o.result.failures = []) :
    o.result.success = true := by
  cases hsuccess : o.result.success with
  | true => rfl
  | false => exact absurd unfailed (failures_of_unsuccess wellFormed hsuccess)

/-- The same run in another mode of failure. -/
def inMode (o : RunCase) (mode : FailureMode) : RunCase :=
  { o with settings := { o.settings with failureMode := mode } }

/-- A run in which nothing failed has the same result in the other mode of failure. -/
theorem result_inMode (wellFormed : o.pipeline.WellFormed) (off : o.settings.useCache = false)
    (unfailed : o.result.failures = []) (mode : FailureMode) :
    (o.inMode mode).result = o.result := by
  have hprogress : (o.inMode mode).progress = { o.progress with log.mode := mode } :=
    Run.runSteps_mode off mode rfl unfailed
  -- beyond the progress, which is the same, a result sees the mode in its success alone
  have hresult : (o.inMode mode).result =
      { o.result with success := (o.inMode mode).result.success } := by
    simp only [result, hprogress]
    rfl
  have unfailed' : (o.inMode mode).result.failures = [] := by
    rw [hresult]
    exact unfailed
  have hsuccess := success_of_unfailed wellFormed unfailed
  have hsuccess' := @success_of_unfailed (o.inMode mode) wellFormed unfailed'
  rw [hresult, hsuccess', ← hsuccess]

end RunCase

/-- Where keys tell runs, one in which nothing failed and one that has its key have the same result. -/
theorem KeysTell.same_result (digests : DigestsTell w among) (keys : KeysTell w among)
    {o o' : RunCase} (ho : RunOf w among o) (ho' : RunOf w among o') (hkey : o.key = o'.key)
    (unfailed : o.result.failures = []) : o'.result = o.result := by
  rw [RunCase.key, RunCase.key, runKey_eq, runKey_eq] at hkey
  have htext : o.keyText = o'.keyText :=
    digests.runs o o' ho ho' ((String.append_right_inj _).mp hkey)
  obtain ⟨hdocument, hparams, hnumber, hsize⟩ := runMaterial_told htext
  have hpage : o.page = o'.page := by
    cases hp : o.page with
    | none =>
        rw [hp] at hnumber
        exact (Option.map_eq_none_iff.mp hnumber.symm).symm
    | some page =>
        rw [hp] at hnumber hsize
        obtain ⟨page', hp', hnumber⟩ := Option.map_eq_some_iff.mp hnumber.symm
        rw [hp', Option.map_some, Option.map_some, Option.some.injEq] at hsize
        rw [hp', Prod.ext hnumber.symm hsize]
  obtain ⟨hpipeline, hparams⟩ := keys.runs o o' ho ho' hdocument hparams hpage
  obtain ⟨call, -, hasks⟩ := ho
  obtain ⟨call', -, hasks'⟩ := ho'
  cases hasks with
  | @mk page p params _ hresolve =>
      cases hasks' with
      | @mk page' p' params' _ hresolve' =>
          obtain rfl : page = page' := hpage
          obtain rfl : p = p' := hpipeline
          obtain rfl : params = params' := hparams
          exact RunCase.result_inMode (Engine.resolve_wellFormed hresolve) rfl unfailed _

/-! ## What the cache holds -/

/-- What is kept under a key: what the engine of a step with this key gave, and of a run with this key in
which nothing failed the result. -/
def Vouched (w : Workshop) (among : Call → Prop) (key : String) : Stored → Prop
  | .step output => ∃ c, StepOf w among c ∧ c.pagination = none ∧ c.key = key ∧
      (w.registry.run c).start.1 = .ok output
  | .run r => ∃ o, RunOf w among o ∧ o.key = key ∧ o.result.failures = [] ∧
      r.core = o.result.core

theorem StepOf.honest (hw : w.registry = .standard) (digests : DigestsTell w among)
    (keys : KeysTell w among) (finite : FiniteOutputs w among) {c : StepContext}
    (hc : StepOf w among c) : Run.Honest (Vouched w among) w c where
  recalled := by
    rintro hpage output ⟨c', hc', hpage', hkey, hrun⟩
    exact keys.same_output hw digests hc' hc hpage' hpage hkey hrun
  stored := by
    intro hpage output hrun
    have hsame : (Stored.step output).throughJson = .step output := by
      rw [Stored.throughJson, Row.map_throughJson_finite (finite c hc output hrun)]
    rw [hsame]
    exact ⟨c, hc, hpage, rfl, hrun⟩

/-- The rows of a page are rows of the output. -/
theorem Engine.pageOf_subset (output : StepOutput) (page : Option (UInt64 × UInt64)) :
    (pageOf (some output) page).1 ⊆ output.rows := by
  cases page with
  | none => exact List.Subset.refl _
  | some page =>
      rw [pageOf]
      cases output.totalCount with
      | some total => exact List.Subset.refl _
      | none => exact List.Subset.trans (List.take_subset _ _) (List.drop_subset _ _)

/-- The rows of the result of a run are finite. -/
theorem RunOf.rows_finite (finite : FiniteOutputs w among) {o : RunCase} (ho : RunOf w among o) :
    ∀ row ∈ o.result.rows, row.Finite := by
  have hrows : o.result.rows = (Engine.pageOf (o.progress.outputs.get? o.pipeline.output) o.page).1 :=
    rfl
  rw [hrows]
  cases hget : o.progress.outputs.get? o.pipeline.output with
  | none => exact nofun
  | some output =>
      intro row hrow
      have hasks := ho
      obtain ⟨call, -, hasks⟩ := hasks
      cases hasks with
      | mk hpage hresolve =>
          obtain ⟨s, hs, hrun⟩ := RunCase.output_of_step (Engine.resolve_wellFormed hresolve) rfl hget
          exact finite _ ⟨_, ho, s, hs, rfl⟩ output hrun row (Engine.pageOf_subset output _ hrow)

/-- A result that may be kept for a run. -/
theorem RunOf.vouched (finite : FiniteOutputs w among) {o : RunCase} (ho : RunOf w among o)
    {r : RunResult} (hcore : r.core = o.result.core) (unfailed : r.failures = []) :
    Vouched w among o.key (Stored.run r).throughJson := by
  have hrows : r.rows = o.result.rows := (congrArg RunResult.rows hcore :)
  have hfailures : r.failures = o.result.failures := (congrArg RunResult.failures hcore :)
  rw [Stored.throughJson, Row.map_throughJson_finite (hrows ▸ ho.rows_finite finite)]
  exact ⟨o, ho, rfl, hfailures.symm.trans unfailed, hcore⟩

/-! ## Calls with the caches -/

/-- Without the caches a call is answered with the result of its run, whatever the state. -/
theorem Call.uncached_answer {call : Call} {page : Option (UInt64 × UInt64)} {p : Pipeline}
    {params : Parameters} (hpage : call.options.pagination w.config = .ok page)
    (hresolve : Engine.resolve call.document call.params = .ok (p, params)) (s : EngineState) :
    (call.uncached.answer w s).map RunResult.core =
      .ok (RunCase.ofCall w call.options page p params).result.core := by
  obtain ⟨j, h⟩ := Engine.execute_uncached w call.uncached.options rfl hpage hresolve s
  have hanswer : call.uncached.answer w s = _ := h
  have hrun : ((Run.runPipeline w (Engine.settingsOf w call.uncached.options page) p params).run j).1 =
      (RunCase.ofCall w call.options page p params).progress :=
    Run.runSteps_uncached rfl p.orderedSteps _ j {}
  rw [hanswer, hrun]
  rfl

section

variable (hw : w.registry = .standard) (digests : DigestsTell w among) (keys : KeysTell w among)
  (finite : FiniteOutputs w among)

include hw digests keys finite

/-- A run of a call has the result it has without the caches, and keeps what it vouches for. -/
theorem RunOf.runFresh_core {options : RunOptions} {page : Option (UInt64 × UInt64)} {p : Pipeline}
    {params : Parameters} (wellFormed : p.WellFormed)
    (ho : RunOf w among (.ofCall w options page p params)) {key : Option String}
    (hkey : ∀ k, key = some k → k = (RunCase.ofCall w options page p params).key)
    {s : EngineState} (hs : s.journal.Holds (Vouched w among)) :
    let ran := (Engine.runFresh w p params (Engine.settingsOf w options page) page key).run s
    ran.1.core = (RunCase.ofCall w options page p params).result.core ∧
      ran.2.journal.Holds (Vouched w among) := by
  let o := RunCase.ofCall w options page p params
  let started : Journal := { s.journal with
    events := s.journal.events ++ [.runStarted p.metadata.name (s.runs + 1) p.order] }
  have hstarted : started.Holds (Vouched w among) := hs.of_cache rfl
  -- what each step sees is told from the outputs the run without the caches ends with
  have honest : ∀ t ∈ p.orderedSteps, Run.Honest (Vouched w among) w
      (Run.contextOf w (Engine.settingsOf w options page) p params o.progress.outputs t) :=
    fun t ht => StepOf.honest hw digests keys finite ⟨o, ho, t, ht, rfl⟩
  obtain ⟨habreast, hkept⟩ := @Run.runSteps_abreast w (Engine.settingsOf w options page) p params
    (Vouched w among) [] p.orderedSteps _ _ o.progress wellFormed.runnable started {} hstarted
    ⟨rfl, rfl, rfl⟩ rfl honest
  rw [Engine.runFresh_run]
  have hcore := habreast.result p (Engine.settingsOf w options page).failureMode page (s.runs + 1) 0
  refine ⟨hcore, ?_⟩
  refine Engine.conclude_holds hkept w key ?_
  intro k hk unfailed
  rw [hkey k hk]
  exact ho.vouched finite hcore unfailed

/-- A call that asks for a run has the result of this run without the caches, and keeps what the cache
vouches for. -/
theorem RunOf.runResolved_core {options : RunOptions} {page : Option (UInt64 × UInt64)} {p : Pipeline}
    {params : Parameters} (wellFormed : p.WellFormed)
    (ho : RunOf w among (.ofCall w options page p params)) {s : EngineState}
    (hs : s.journal.Holds (Vouched w among)) :
    let ran := (Engine.runResolved w p params options page).run s
    ran.1.core = (RunCase.ofCall w options page p params).result.core ∧
      ran.2.journal.Holds (Vouched w among) := by
  have hkey : ∀ k, Engine.resultKey? w p params options page s.journal.cache.isSome = some k →
      k = (RunCase.ofCall w options page p params).key := by
    intro k hk
    rw [Engine.resultKey?] at hk
    split at hk
    · exact (Option.some.inj hk).symm
    · cases hk
  dsimp only
  rw [Engine.runResolved_run]
  obtain ⟨hkept, hfound⟩ := Engine.recallResult_holds hs
    (Engine.resultKey? w p params options page s.journal.cache.isSome)
  dsimp only
  split
  · rename_i r j hrecall
    rw [hrecall] at hkept hfound
    obtain ⟨k, stored, hk, ⟨o, ho', hsame, unfailed, hcore⟩, rfl⟩ := hfound r rfl
    -- the run that left this result has the key of the call, and so the result that the call asks for
    rw [hkey k hk] at hsame
    rw [keys.same_result digests ho' ho hsame unfailed]
    exact ⟨hcore, hkept.of_cache rfl⟩
  · rename_i j hrecall
    rw [hrecall] at hkept
    exact RunOf.runFresh_core hw digests keys finite wellFormed ho hkey hkept

/-- A call is answered as it is without the caches, and keeps what the cache vouches for. -/
theorem Call.answer_core {call : Call} (hcall : among call) {s : EngineState}
    (hs : s.journal.Holds (Vouched w among)) (s' : EngineState) :
    (call.answer w s).map RunResult.core = (call.uncached.answer w s').map RunResult.core ∧
      ((Engine.execute w call.document call.params call.options).run s).2.journal.Holds
        (Vouched w among) := by
  cases hpage : call.options.pagination w.config with
  | error issue =>
      have hpage' : call.uncached.options.pagination w.config = .error issue := hpage
      rw [Call.answer, Call.answer, Engine.execute, Engine.execute, hpage, hpage']
      exact ⟨rfl, hs⟩
  | ok page =>
      cases hresolve : Engine.resolve call.document call.params with
      | error f =>
          have hpage' : call.uncached.options.pagination w.config = .ok page := hpage
          have hresolve' : Engine.resolve call.uncached.document call.uncached.params = .error f :=
            hresolve
          rw [Call.answer, Call.answer, Engine.execute, Engine.execute, hpage, hpage']
          dsimp only
          rw [hresolve, hresolve']
          exact ⟨rfl, hs⟩
      | ok resolved =>
          obtain ⟨p, params⟩ := resolved
          have ho : RunOf w among (.ofCall w call.options page p params) :=
            ⟨call, hcall, .mk hpage hresolve⟩
          obtain ⟨hcore, hkept⟩ := RunOf.runResolved_core hw digests keys finite
            (Engine.resolve_wellFormed hresolve) ho hs
          have hrun : (Engine.execute w call.document call.params call.options).run s =
              let ran := (Engine.runResolved w p params call.options page).run s
              (.ok ran.1, ran.2) := by
            rw [Engine.execute, hpage]
            dsimp only
            rw [hresolve]
            rfl
          rw [call.uncached_answer hpage hresolve, Call.answer, hrun]
          exact ⟨congrArg Except.ok hcore, hkept⟩

/-- Whatever calls were made, the cache vouches for what it holds. -/
theorem Served.vouched {s : EngineState} (hs : Served w among s) :
    s.journal.Holds (Vouched w among) := by
  induction hs with
  | start s empty => exact .of_empty empty
  | @execute s call hcall _ ih => exact (Call.answer_core hw digests keys finite hcall ih s).2
  | @clearCache s _ _ =>
      have hcleared : (Engine.clearCache.run s).2.journal.cache =
          s.journal.cache.map Cache.clear := rfl
      exact .cleared hcleared
  | wait now _ ih => exact ih.of_cache rfl

end

/-- The caches of an engine cannot be told: where keys tell the steps and runs of some calls, each of
these calls, after any others of them, is answered as it is without the caches. -/
theorem caching_transparent (hw : w.registry = .standard) (digests : DigestsTell w among)
    (finite : FiniteOutputs w among) (keys : KeysTell w among) {s : EngineState}
    (hs : Served w among s) {call : Call} (hcall : among call) (s' : EngineState) :
    (call.answer w s).map RunResult.core = (call.uncached.answer w s').map RunResult.core :=
  (Call.answer_core hw digests keys finite hcall (hs.vouched hw digests keys finite) s').1

/-- A database that answers with one row. -/
def oneNumber : Connector := ⟨.generic, fun _ => .ok [Record.empty.insert "n" (.int 1)]⟩

/-- Two queries that have one key. -/
def twinDocument : Json :=
  let step (name : String) : Json := .object [("name", .string name), ("type", .string "query"),
    ("config", .object [("data_source", .string "numbers")])]
  .object [("steps", .array [step "first", step "second"])]

def twinStep (name : String) : Step :=
  ⟨name, .query, .object [("data_source", .string "numbers")], true⟩

def twinPipeline : Pipeline where
  metadata := {}
  parameters := []
  steps := [twinStep "first", twinStep "second"]
  output := "second"
  order := ["first", "second"]
  dependencies := Record.ofList [("first", []), ("second", [])]

theorem caching_transparent_twins :
    let w : Workshop := ⟨.standard, some oneNumber, {}⟩
    let call : Call := ⟨twinDocument, {}, {}⟩
    let s := ((Engine.execute w twinDocument {} {}).run { journal := { cache := some {} } }).2
    DigestsTell w (· = call) ∧ FiniteOutputs w (· = call) ∧ KeysTell w (· = call) ∧
      Served w (· = call) s ∧
      (call.answer w s).map RunResult.core = (call.uncached.answer w s).map RunResult.core := by
  intro w call s
  have hresolve : Engine.resolve call.document call.params = .ok (twinPipeline, {}) := rfl
  let o : RunCase := .ofCall w {} none twinPipeline {}
  have hruns : ∀ o', RunOf w (· = call) o' → o' = o := by
    rintro o' ⟨call', rfl, hasks⟩
    cases hasks with
    | mk hpage hresolve' =>
        cases hpage
        cases hresolve.symm.trans hresolve'
        rfl
  -- both steps are one, but for the name
  let shared : StepContext := o.context (twinStep "first")
  have hsteps : ∀ c, StepOf w (· = call) c → ∃ name, c = shared.renamed name {} := by
    rintro c ⟨o', ho', t, ht, rfl⟩
    rw [hruns o' ho'] at ht ⊢
    rcases List.mem_cons.mp (ht : t ∈ [twinStep "first", twinStep "second"]) with rfl | ht
    · exact ⟨"first", rfl⟩
    · rw [List.mem_singleton.mp ht]
      exact ⟨"second", rfl⟩
  have digests : DigestsTell w (· = call) := by
    constructor
    · intro c c' hc hc' _
      obtain ⟨name, rfl⟩ := hsteps c hc
      obtain ⟨name', rfl⟩ := hsteps c' hc'
      rfl
    · intro c c' hc _ name rows rows' hrows
      obtain ⟨name, rfl⟩ := hsteps c hc
      cases hrows
    · intro o o' ho ho' _
      rw [hruns o ho, hruns o' ho']
  have keys : KeysTell w (· = call) := by
    constructor
    · intro c c' hc hc' _
      obtain ⟨name, rfl⟩ := hsteps c hc
      obtain ⟨name', rfl⟩ := hsteps c' hc'
      exact ⟨rfl, fun _ _ => rfl, fun _ _ => rfl⟩
    · intro o o' ho ho' _ _ _
      rw [hruns o ho, hruns o' ho']
      exact ⟨rfl, rfl⟩
  have finite : FiniteOutputs w (· = call) := by
    intro c hc output houtput row hrow
    obtain ⟨name, rfl⟩ := hsteps c hc
    have hgiven : ∃ given, (w.registry.run (shared.renamed name {})).start.1 = .ok given ∧
        given.rows = [Record.empty.insert "n" (.int 1)] := ⟨_, rfl, rfl⟩
    obtain ⟨given, hgiven, hrows⟩ := hgiven
    cases hgiven.symm.trans houtput
    rw [hrows, List.mem_singleton] at hrow
    subst hrow
    intro entry hentry
    cases List.mem_singleton.mp hentry
    trivial
  have empty : Served w (· = call) { journal := { cache := some {} } } :=
    .start _ fun cache hcache => by cases hcache; rfl
  have served : Served w (· = call) s := @Served.execute w (· = call) _ call rfl empty
  exact ⟨digests, finite, keys, served, caching_transparent rfl digests finite keys served rfl s⟩

end RowPipeline
