import Mathlib.Logic.Relation
import RowPipeline.Proofs.CacheHits
import RowPipeline.Proofs.CanonicalPlaces
import RowPipeline.Proofs.StepInputs

/-!
# Failures of dependencies

A step that asks for the rows of a failed step fails in turn, and so do the steps that ask for its rows.
The cache is no way around: the key of a step tells which rows it is missing, so what is recalled for a
step was left by one that was missing the same rows, and no step succeeds while it is missing rows that
it asks for. A dependency for whose rows a step does not ask is another matter: the step goes on
without them.
-/

namespace RowPipeline

open Json Document

/-! ## Missing rows in a key -/

/-- The canonical text of its settings tells what a step asks for. -/
theorem StepKind.Asks.told {config config' : Json} (same : config.canonical = config'.canonical)
    {kind : StepKind} {name : String} (h : kind.Asks config name) : kind.Asks config' name :=
  h.of_places fun _ _ _ _ hat => string_at?_told same hat

/-- Of two steps with one key, both have the rows they ask for or neither. -/
theorem StepContext.Supplied.told {c c' : StepContext} (same : c.keyText = c'.keyText)
    (h : c.Supplied) : c'.Supplied := by
  obtain ⟨hkind, hconfig, hdependencies, hinputs⟩ := keyText_told same
  intro name hname asks
  rw [← hdependencies] at hname
  rw [← hkind] at asks
  have hhas := h name hname (asks.told hconfig.symm)
  have hprints := congrArg Option.isSome (hinputs name hname)
  rw [Option.isSome_map, Option.isSome_map] at hprints
  rwa [Has, ← hprints]

/-! ## One run -/

/-- The step of some name asks for the rows of a step it depends on. -/
def Pipeline.Reads (p : Pipeline) (name dependency : String) : Prop :=
  ∃ s, p.step? name = some s ∧ dependency ∈ p.dependenciesOf name ∧ s.kind.Asks s.config dependency

/-- In the pipeline of a document, a step asks for the rows of each of its dependencies, apart from those
that it overlooks in the document and those whose names refer to parameters. -/
theorem Engine.resolve_reads {document : Json} {params params' : Parameters} {p q : Pipeline}
    (hread : Pipeline.ofJson document = .ok p)
    (hresolve : resolve document params = .ok (q, params')) {s : Step} (hs : s ∈ p.steps)
    {dependency : String} (hdependency : dependency ∈ q.dependenciesOf s.name) :
    q.Reads s.name dependency ∨ s.kind.Overlooks s.config dependency ∨ Mentions params' dependency := by
  have hdocument := Pipeline.read_of_ofJson hread
  obtain ⟨hdependencies, hnames, hsteps⟩ := resolve_steps hread hresolve
  -- the step of the pipeline whose settings were rewritten from those of this one
  obtain ⟨resolved, hstep⟩ := q.step?_of_mem (hnames ▸ List.mem_map_of_mem hs)
  obtain ⟨written, hwritten, hname, hkind, path, config, hfilters, hconfig⟩ :=
    hsteps resolved (List.mem_of_find?_eq_some hstep)
  obtain rfl : written = s :=
    List.inj_on_of_nodup_map (Pipeline.WellFormed.of_read hdocument).names_nodup hwritten hs
      (hname.trans (Pipeline.name_of_step? hstep))
  obtain ⟨i, hvalue, -⟩ := Pipeline.dependenciesOf_read hdocument hs
  have hlisted : dependency ∈ p.dependenciesOf written.name := by
    rwa [Pipeline.dependenciesOf, hdependencies] at hdependency
  rw [hvalue] at hlisted
  by_cases hmentions : Mentions params' dependency
  · exact .inr (.inr hmentions)
  · rcases readDependencies_asked hlisted with asks | overlooks
    · left
      refine ⟨resolved, hstep, hdependency, hkind ▸ asks.of_places ?_⟩
      -- what the document says there stays, gates resolved and parameters put in
      intro places plain text htext hat
      rw [hconfig]
      refine at?_substituteValue_string plain ((Resolves.at?_iff plain ⟨_, hfilters⟩).mpr hat) ?_
      rcases List.mem_cons.mp htext with rfl | htext
      · exact hmentions
      · rw [List.mem_singleton.mp htext]
        rintro ⟨parameter, hparameter, -⟩
        have hnone : Piece.names "relationship" = [] := by decide
        rw [hnone] at hparameter
        cases hparameter
    · exact .inr (.inl overlooks)

/-- A result tells that a step failed. -/
def RunResult.Failed (r : RunResult) (name : String) : Prop :=
  ∃ t ∈ r.stepResults, t.stepName = name ∧ t.status = .failed

/-- Steps of some runs that have one key have it made from one text. -/
def KeysTellTexts (runs : List RunCase) : Prop :=
  ∀ o ∈ runs, ∀ o' ∈ runs, ∀ s ∈ o.pipeline.orderedSteps, ∀ s' ∈ o'.pipeline.orderedSteps, ∀ key,
    o.stepKey? s = some key → o'.stepKey? s' = some key →
      (o.context s).keyText = (o'.context s').keyText

/-- Nothing is to be told apart where a single step has a key. -/
theorem KeysTellTexts.of_keyed {o : RunCase} {keyed : Step}
    (alone : ∀ s ∈ o.pipeline.orderedSteps, ∀ key, o.stepKey? s = some key → s = keyed) :
    KeysTellTexts [o] := by
  intro o₁ ho₁ o₂ ho₂ s hs s' hs' key hkey hkey'
  obtain rfl := List.mem_singleton.mp ho₁
  obtain rfl := List.mem_singleton.mp ho₂
  rw [alone s hs key hkey, alone s' hs' key hkey']

/-- What runs leave in the cache: outputs of steps that had the rows they ask for, and results without
failed steps. -/
def Provided (runs : List RunCase) (key : String) : Stored → Prop
  | .step _ => ∃ o ∈ runs, ∃ s ∈ o.pipeline.orderedSteps, o.stepKey? s = some key ∧
      (o.context s).Supplied
  | .run r => ∀ t ∈ r.stepResults, t.status ≠ .failed

namespace RunCase

variable {o : RunCase}

/-- Every step with an output has the rows it asks for. -/
def SuppliedIn (o : RunCase) (outputs : Record StepOutput) : Prop :=
  ∀ s ∈ o.pipeline.orderedSteps, (outputs.get? s.name).isSome = true → (o.context s).Supplied

section

variable {runs : List RunCase} (ho : o ∈ runs) (standard : o.workshop.registry = .standard)
  (tell : KeysTellTexts runs) (wellFormed : o.pipeline.WellFormed)

include ho standard tell

/-- A step that succeeds has the rows it asks for, whether it was carried out or its output recalled. -/
theorem runStep_provided {s : Step} (hs : s ∈ o.pipeline.orderedSteps) {j : Journal}
    (cached : j.cache.isSome = o.journal.cache.isSome) (h : j.Holds (Provided runs)) :
    (∀ output, ((Run.runStep o.workshop o.settings s (o.context s)).run j).1.1 = .ok output →
      (o.context s).Supplied) ∧
    ((Run.runStep o.workshop o.settings s (o.context s)).run j).2.Holds (Provided runs) := by
  have hkey : Run.cacheKey? o.workshop o.settings j.cache.isSome s (o.context s) = o.stepKey? s := by
    rw [cached, stepKey?]
  have hcarried : ∀ output, (o.workshop.registry.run (o.context s)).start.1 = .ok output →
      (o.context s).Supplied := by
    intro output houtcome
    rw [standard] at houtcome
    exact StepRegistry.standard_supplied houtcome
  constructor
  · intro output
    have hstarted : Journal.Holds (Provided runs)
        { j with events := j.events ++ [.stepStarted s.name s.kind.name] } := h.of_cache rfl
    have hrecall := (Run.recallOutput_holds hstarted (o.stepKey? s)).2
    rw [Run.runStep_run, hkey]
    dsimp only
    split
    · rename_i recalled j' hfound
      intro _
      rw [hfound] at hrecall
      obtain ⟨k, hk, o', ho', s', hs', hk', hsupplied⟩ := hrecall recalled rfl
      exact hsupplied.told (tell o' ho' o ho s' hs' s hs k hk' hk)
    · intro houtcome
      exact hcarried output ((Run.runFresh_outcome _ s _ _ _).symm.trans houtcome)
  · refine Run.runStep_holds h o.workshop o.settings s (o.context s) ?_
    intro k output hk houtcome
    exact ⟨o, ho, s, hs, hkey ▸ hk, hcarried output houtcome⟩

include wellFormed

/-- The steps of a run, one after the other. -/
theorem runSteps_provided {front rest : List Step} {progress : Progress} {j : Journal}
    (hsteps : o.pipeline.orderedSteps = front ++ rest)
    (hfinal : ((Run.runSteps o.workshop o.settings o.pipeline o.params rest progress).run j).1 =
      o.progress)
    (cached : j.cache.isSome = o.journal.cache.isSome) (h : j.Holds (Provided runs))
    (supplied : o.SuppliedIn progress.outputs) :
    o.SuppliedIn o.progress.outputs ∧
      ((Run.runSteps o.workshop o.settings o.pipeline o.params rest progress).run j).2.Holds
        (Provided runs) := by
  -- on the steps to come; those gone through have the rows they ask for
  induction rest generalizing front progress j with
  | nil =>
      rw [← hfinal]
      exact ⟨supplied, h⟩
  | cons s rest ih =>
      cases hstop : progress.log.shouldStop with
      | true =>
          rw [Run.runSteps_stop hstop] at hfinal ⊢
          rw [← hfinal]
          exact ⟨supplied, h⟩
      | false =>
          have hrun : Runnable o.pipeline.dependenciesOf (front ++ s :: rest) :=
            hsteps ▸ wellFormed.runnable
          have hcontext : Run.contextOf o.workshop o.settings o.pipeline o.params progress.outputs s =
              o.context s := by
            rw [context, ← hfinal]
            exact (Run.contextOf_ended hrun progress j).symm
          have hs : s ∈ o.pipeline.orderedSteps := by
            rw [hsteps]
            exact List.mem_append_right _ List.mem_cons_self
          obtain ⟨hstep, hkept⟩ := runStep_provided ho standard tell hs cached h
          have hcached := (Run.runStep_cached o.workshop o.settings s (o.context s) j).trans cached
          rw [Run.runSteps_go hstop, hcontext] at hfinal ⊢
          rw [List.append_cons] at hsteps
          refine ih hsteps hfinal hcached hkept ?_
          intro s' hs' houtput
          by_cases hname : s'.name = s.name
          · -- the step itself, which has an output only if it succeeded
            obtain rfl := List.inj_on_of_nodup_map wellFormed.runnable.nodup hs' hs hname
            cases houtcome : ((Run.runStep o.workshop o.settings s' (o.context s')).run j).1.1 with
            | ok output => exact hstep output houtcome
            | error f =>
                rw [houtcome] at houtput
                exact supplied s' hs' houtput
          · rw [Progress.enter_outputs _ hname] at houtput
            exact supplied s' hs' houtput

/-- A run ends with every successful step supplied, and leaves what it may. -/
theorem runPipeline_provided (h : o.journal.Holds (Provided runs)) (key : Option String) :
    o.SuppliedIn o.progress.outputs ∧
      ((Engine.conclude o.workshop key o.result).run
        ((Run.runPipeline o.workshop o.settings o.pipeline o.params).run o.journal).2).2.Holds
          (Provided runs) := by
  have hnone : o.SuppliedIn {} := fun s _ houtput => by cases houtput
  obtain ⟨hsupplied, hkept⟩ := @runSteps_provided o runs ho standard tell wellFormed []
    o.pipeline.orderedSteps { log := { mode := o.settings.failureMode } } o.journal rfl rfl rfl h hnone
  refine ⟨hsupplied, Engine.conclude_holds hkept o.workshop key ?_⟩
  intro k _ unfailed t ht hfailed
  exact (ended wellFormed).failures_of_failed ht hfailed unfailed

end

/-- Where a run goes on after failures, a step that asks for the rows of a failed step fails. -/
theorem failed_of_reads (wellFormed : o.pipeline.WellFormed)
    (mode : o.settings.failureMode = .continueOnError) (supplied : o.SuppliedIn o.progress.outputs)
    {name dependency : String} (reads : o.pipeline.Reads name dependency)
    (failed : o.result.Failed dependency) : o.result.Failed name := by
  obtain ⟨s, hstep, hdepends, asks⟩ := reads
  obtain rfl := Pipeline.name_of_step? hstep
  have hs : s ∈ o.pipeline.orderedSteps := by
    have hknown := List.mem_map_of_mem (f := Step.name) (List.mem_of_find?_eq_some hstep)
    exact List.mem_filterMap.mpr ⟨s.name, (wellFormed.mem_order _).mpr hknown, hstep⟩
  obtain ⟨t, ht, hname⟩ : ∃ t ∈ o.progress.results, t.stepName = s.name := by
    have hmem : s.name ∈ o.progress.results.map StepResult.stepName := by
      rw [(ended wellFormed).names]
      exact List.mem_map_of_mem hs
    exact List.mem_map.mp hmem
  refine ⟨t, ht, hname, ?_⟩
  cases hstatus : t.status with
  | failed => rfl
  | skipped => exact absurd hstatus ((ended wellFormed).continueOnError mode t ht)
  | success =>
      obtain ⟨output, houtput⟩ := (ended wellFormed).output_of_success ht hstatus
      rw [hname] at houtput
      -- a success has the rows it asks for, but a failed step has none
      have hhas := supplied s hs (by rw [houtput]; rfl) dependency hdepends asks
      rw [StepContext.Has, context, Run.contextOf_inputs, if_pos hdepends] at hhas
      obtain ⟨u, hu, rfl, hfailed⟩ := failed
      rw [no_output wellFormed hu (by rw [hfailed]; decide)] at hhas
      cases hhas

/-- So does every step that asks for its rows, and so on. -/
theorem failed_of_chain (wellFormed : o.pipeline.WellFormed)
    (mode : o.settings.failureMode = .continueOnError) (supplied : o.SuppliedIn o.progress.outputs)
    {name dependency : String} (reads : Relation.TransGen o.pipeline.Reads name dependency)
    (failed : o.result.Failed dependency) : o.result.Failed name := by
  -- along the chain, from the failed step on
  induction reads using Relation.TransGen.head_induction_on with
  | single hreads => exact failed_of_reads wellFormed mode supplied hreads failed
  | head hreads _ ih => exact failed_of_reads wellFormed mode supplied hreads ih

end RunCase

/-! ## The calls of an engine -/

/-- A call leaves in the cache what it may, and is answered with a result without failed steps or with
that of a run whose successful steps are supplied. -/
theorem Turn.provided {t : Turn} {runs : List RunCase} (h : t.before.journal.Holds (Provided runs))
    (standard : t.workshop.registry = .standard) (tell : KeysTellTexts runs)
    (made : ∀ o, t.run? = some o → o ∈ runs) :
    t.after.journal.Holds (Provided runs) ∧
      ∀ r, t.answer = .ok r → (∀ u ∈ r.stepResults, u.status ≠ .failed) ∨
        ∃ o, t.run? = some o ∧ r = o.result ∧ o.SuppliedIn o.progress.outputs := by
  obtain ⟨hread, hrecalled⟩ := Engine.recallResult_holds h t.key?
  cases t.way with
  | refused _ hanswer hafter =>
      refine ⟨hafter ▸ h, fun r hr => ?_⟩
      cases hanswer.symm.trans hr
  | found _ hfound hanswer hafter =>
      refine ⟨hread.of_cache hafter, fun r hr => .inl ?_⟩
      cases hanswer.symm.trans hr
      obtain ⟨k, stored, -, unfailed, rfl⟩ := hrecalled _ hfound
      exact unfailed
  | @made o hrun wellFormed hanswer hcache hafter =>
      have hstandard : o.workshop.registry = .standard := by
        obtain ⟨page, p, params, -, -, rfl⟩ := run?_eq_some hrun
        exact standard
      obtain ⟨hsupplied, hkept⟩ := RunCase.runPipeline_provided (made o hrun) hstandard tell wellFormed
        (hread.of_cache hcache) t.key?
      refine ⟨hafter ▸ hkept, fun r hr => .inr ?_⟩
      cases hanswer.symm.trans hr
      exact ⟨o, hrun, rfl, hsupplied⟩

theorem runsOf_cons (t : Turn) (turns : List Turn) :
    runsOf (t :: turns) = t.run?.toList ++ runsOf turns := by
  rw [runsOf, List.filterMap_cons]
  cases t.run? <;> rfl

/-- The cache of an engine holds what its runs may leave. -/
theorem History.provided {turns : List Turn} {s : EngineState} (h : History turns s)
    (standard : ∀ t ∈ turns, t.workshop.registry = .standard) {runs : List RunCase}
    (sub : runsOf turns ⊆ runs) (tell : KeysTellTexts runs) : s.journal.Holds (Provided runs) := by
  induction h with
  | start s empty => exact .of_empty empty
  | @execute turns s w call _ ih =>
      rw [runsOf_cons] at sub
      rw [List.forall_mem_cons] at standard
      have hbefore := ih standard.2 fun o ho => sub (List.mem_append_right _ ho)
      refine (Turn.provided (t := ⟨w, call, s⟩) hbefore standard.1 tell fun o ho => sub ?_).1
      exact List.mem_append_left _ (by rw [ho]; exact List.mem_singleton.mpr rfl)
  | close w _ ih => exact (ih standard sub).of_cache rfl
  | @clearCache turns s _ _ =>
      have hcleared : (Engine.clearCache.run s).2.journal.cache =
          s.journal.cache.map Cache.clear := rfl
      exact .cleared hcleared
  | wait now _ ih => exact (ih standard sub).of_cache rfl

/-- Failures cascade along the rows that steps ask for. In every history of an engine with the engines of
this library, where a call goes on after failures, every step that asks for the rows of a failed step,
or for those of a step that does, and so on, is failed, and no result of it tells of a success. A step
asks for the rows of all its dependencies but those that it overlooks and those whose names refer to
parameters. -/
theorem failures_cascade {turns : List Turn} {s : EngineState} (h : History turns s)
    (standard : ∀ t ∈ turns, t.workshop.registry = .standard) (tell : KeysTellTexts (runsOf turns))
    {t : Turn} (ht : t ∈ turns) {page : Option (UInt64 × UInt64)} {p : Pipeline} {params : Parameters}
    (asked : t.asked? = some (page, p, params))
    (goesOn : t.call.options.continueOnError.getD t.workshop.config.continueOnError = true)
    {r : RunResult} (answer : t.answer = .ok r) :
    (∀ failed, r.Failed failed → ∀ name, Relation.TransGen p.Reads name failed →
      r.Failed name ∧ ∀ u ∈ r.stepResults, u.stepName = name → u.status = .failed) ∧
    ∃ document, Pipeline.ofJson t.call.document = .ok document ∧
      ∀ s ∈ document.steps, ∀ dependency ∈ p.dependenciesOf s.name, p.Reads s.name dependency ∨
        s.kind.Overlooks s.config dependency ∨ Mentions params dependency := by
  have hresolve := Turn.resolve_of_asked? asked
  obtain ⟨document, -, hdocument, -, -⟩ := Engine.resolve_eq_ok hresolve
  refine ⟨?_, document, hdocument, fun s hs dependency hdependency =>
    Engine.resolve_reads hdocument hresolve hs hdependency⟩
  intro failed hfailed name reads
  obtain ⟨later, earlier, rfl⟩ := List.append_of_mem ht
  have hruns : runsOf (later ++ t :: earlier) = runsOf later ++ runsOf (t :: earlier) :=
    List.filterMap_append
  have hsub : runsOf (t :: earlier) ⊆ runsOf (later ++ t :: earlier) := by
    rw [hruns]
    exact List.subset_append_right _ _
  have hearlier : t.before.journal.Holds (Provided (runsOf (later ++ t :: earlier))) := by
    refine (h.before rfl).provided (fun u hu => standard u ?_) (fun o ho => hsub ?_) tell
    · exact List.mem_append_right _ (List.mem_cons_of_mem t hu)
    · rw [runsOf_cons]
      exact List.mem_append_right _ ho
  have hmade : ∀ o, t.run? = some o → o ∈ runsOf (later ++ t :: earlier) := by
    intro o hrun
    refine hsub ?_
    rw [runsOf_cons, hrun]
    exact List.mem_cons_self
  rcases (Turn.provided hearlier (standard t ht) tell hmade).2 r answer with
    hnone | ⟨o, hrun, rfl, hsupplied⟩
  · -- a result from the cache tells of no failure
    obtain ⟨u, hu, -, hstatus⟩ := hfailed
    exact absurd hstatus (hnone u hu)
  · have wellFormed := Turn.run?_wellFormed hrun
    obtain ⟨page', p', params', hasked, -, ho⟩ := Turn.run?_eq_some hrun
    cases asked.symm.trans hasked
    have hmode : o.settings.failureMode = .continueOnError := by
      rw [ho, Turn.runFrom, Engine.settingsOf, goesOn]
      rfl
    have hpipeline : o.pipeline = p := by
      rw [ho]
      rfl
    rw [← hpipeline] at reads
    have hname := RunCase.failed_of_chain wellFormed hmode hsupplied reads hfailed
    refine ⟨hname, fun u hu hstep => ?_⟩
    obtain ⟨u', hu', hstep', hstatus⟩ := hname
    rw [RunCase.result_unique wellFormed hu hu' (hstep.trans hstep'.symm)]
    exact hstatus

/-- A source in which the orders cannot be read. -/
def withoutOrders : Connector where
  dialect := .generic
  answer sql :=
    if sql = "SELECT *\nFROM orders_table" then .error (.connection "Connection lost")
    else .ok [Record.empty.insert "n" (.int 1)]

def ordersWorkshop : Workshop := ⟨.standard, some withoutOrders, {}⟩

/-- A step that cannot but fail. -/
def ordersStep : Step := ⟨"orders", .query, .object [("data_source", .string "orders_table")], false⟩

def copyStep : Step := ⟨"copy", .query, .object [("data_source", .string "orders")], true⟩

/-- A query on the orders, and a union of its rows. -/
def chainPipeline : Pipeline where
  metadata := {}
  parameters := []
  steps := [ordersStep, copyStep, ⟨"all", .union, .object [("sources", .array [.string "copy"])], false⟩]
  output := "all"
  order := ["orders", "copy", "all"]
  dependencies := Record.ofList [("orders", []), ("copy", ["orders"]), ("all", ["copy"])]

theorem failures_cascade_chain :
    let t : Turn := ⟨ordersWorkshop, ⟨chainPipeline.toJson, {}, { continueOnError := some true }⟩,
      { journal := { cache := some {} } }⟩
    History [t] t.after ∧ KeysTellTexts (runsOf [t]) ∧ t.asked? = some (none, chainPipeline, {}) ∧
      Relation.TransGen chainPipeline.Reads "all" "orders" ∧
      ∃ r, t.answer = .ok r ∧ r.Failed "orders" ∧ r.Failed "all" := by
  intro t
  have history : History [t] t.after :=
    .execute ordersWorkshop t.call (.start _ fun cache hcache => by cases hcache; rfl)
  have asked : t.asked? = some (none, chainPipeline, {}) := rfl
  obtain ⟨key, hkey⟩ : ∃ key, t.key? = some key := ⟨_, (Turn.key?_eq asked).trans (if_pos rfl)⟩
  let o : RunCase := t.runFrom none chainPipeline {} { cache := some (({} : Cache Stored).get 0 key).2 }
  have hrun : t.run? = some o := by
    rw [Turn.run?, asked, hkey]
    rfl
  have tell : KeysTellTexts (runsOf [t]) := by
    rw [runsOf, List.filterMap_cons_some hrun]
    have alone : ∀ s ∈ chainPipeline.steps, ∀ k, o.stepKey? s = some k → s = copyStep := by
      intro s hs k hk
      rcases List.mem_cons.mp hs with rfl | hs
      · cases hk
      · rcases List.mem_cons.mp hs with rfl | hs
        · rfl
        · rw [List.mem_singleton.mp hs] at hk
          cases hk
    exact .of_keyed alone
  have reads : Relation.TransGen chainPipeline.Reads "all" "orders" := by
    have hcopy : chainPipeline.Reads "copy" "orders" :=
      ⟨_, rfl, List.mem_singleton.mpr rfl, .dataSource rfl⟩
    have hall : chainPipeline.Reads "all" "copy" :=
      ⟨_, rfl, List.mem_singleton.mpr rfl, .sources (.inr ⟨_, rfl, List.mem_singleton.mpr rfl⟩)⟩
    exact .head hall (.single hcopy)
  have failed : o.result.Failed "orders" := by
    have hprogress : o.progress = ((Run.runSteps o.workshop o.settings o.pipeline o.params
        chainPipeline.steps { log := { mode := .continueOnError } }).run o.journal).1 := rfl
    rw [chainPipeline, Run.runSteps_go rfl] at hprogress
    have hfirst : ∃ u ∈ o.progress.results, u.stepName = "orders" ∧ u.status = .failed := by
      rw [hprogress]
      exact ⟨_, (Run.runSteps_results _ _ _).subset List.mem_cons_self, rfl, rfl⟩
    exact hfirst
  have hcascade := (failures_cascade history (by simp [t, ordersWorkshop]) tell List.mem_cons_self asked
    rfl (Turn.answer_of_run? hrun)).1
  exact ⟨history, tell, asked, reads, o.result, Turn.answer_of_run? hrun, failed,
    (hcascade "orders" failed "all" reads).1⟩

/-- The orders, and a query on a table whose settings name the orders as a source. -/
def overlookingPipeline : Pipeline where
  metadata := {}
  parameters := []
  steps := [ordersStep, ⟨"regions", .query,
    .object [("data_source", .string "regions_table"), ("source", .string "orders")], true⟩]
  output := "regions"
  order := ["orders", "regions"]
  dependencies := Record.ofList [("orders", []), ("regions", ["orders"])]

/-- A query looks for no source: this one succeeds although the only step it depends on failed. -/
theorem overlooked_dependency_succeeds :
    Engine.resolve overlookingPipeline.toJson {} = .ok (overlookingPipeline, {}) ∧
      overlookingPipeline.dependenciesOf "regions" = ["orders"] ∧
      ∃ r, ((Engine.execute ordersWorkshop overlookingPipeline.toJson {}
          { continueOnError := some true }).run {}).1 = .ok r ∧
        (r.stepResults.map fun t => (t.stepName, t.status)) =
          [("orders", .failed), ("regions", .success)] :=
  ⟨rfl, rfl, _, rfl, rfl⟩

end RowPipeline
