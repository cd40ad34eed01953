import Mathlib.Data.List.Basic
import RowPipeline.Proofs.ParameterReads
import RowPipeline.Proofs.StepEngines

/-!
# What a step reads

The output of a step depends on its settings, the rows of the steps before it, the connector, the page,
and the parameters that its expressions mention; these are expressions of queries and of assertions. The
name of the step and the other parameters go into messages of failures at most.
-/

namespace RowPipeline

/-! ## Parameters in settings -/

namespace Query

def Metric.params : Metric → List String
  | .expression e _ => e.params
  | .aggregate .. | .column .. => []

def Calculated.params (f : Calculated) : List String :=
  match f.expr with
  | .ok e => e.params
  | .error _ => []

def Plan.params (p : Plan) : List String :=
  p.metrics.flatMap Metric.params ++ p.calculated.flatMap Calculated.params

/-- The parameters that the expressions of a query mention. -/
def paramsOf (config : Json) : List String :=
  match Config.ofJson config with
  | .error _ => []
  | .ok config =>
      match Plan.ofConfig config with
      | .error _ => []
      | .ok plan => plan.params

end Query

namespace Assert

def Check.params : Check → List String
  | .custom text =>
      match Expr.parse text with
      | .ok e => e.params
      | .error _ => []
  | _ => []

/-- The parameters that the expressions of assertions mention. -/
def paramsOf (config : Json) : List String :=
  match Config.ofJson config with
  | .error _ => []
  | .ok config => config.assertions.flatMap fun a => a.check.params

end Assert

namespace StepContext

/-- The parameters that the expressions of a step mention. -/
def mentioned (c : StepContext) : List String :=
  match c.kind with
  | .query => Query.paramsOf c.config
  | .assert => Assert.paramsOf c.config
  | .enrich | .pivot | .unpivot | .union => []

/-- A step of another name with other parameters. -/
def renamed (c : StepContext) (name : String) (params : Parameters) : StepContext :=
  { c with stepName := name, params }

variable {c : StepContext} (name : String) (params : Parameters)

theorem readConfig_renamed {α : Type} {decode : Json → Json.Decoded α} (config : α)
    (h : c.readConfig decode = .ok config) :
    (c.renamed name params).readConfig decode = .ok config := by
  rw [readConfig_eq_ok] at h ⊢
  exact h

theorem input_renamed {source : String} (rows : List Row) (h : c.input source = .ok rows) :
    (c.renamed name params).input source = .ok rows := by
  have hinputs : (c.renamed name params).inputs = c.inputs := rfl
  rw [input] at h ⊢
  rw [hinputs]
  cases hget : c.inputs.get? source with
  | none =>
      rw [hget] at h
      cases h
  | some rows' =>
      rw [hget] at h
      exact h

theorem requireConnector_renamed (connector : Connector) (h : c.requireConnector = .ok connector) :
    (c.renamed name params).requireConnector = .ok connector := by
  have hsame : (c.renamed name params).connector = c.connector := rfl
  rw [requireConnector] at h ⊢
  rw [hsame]
  cases hconnector : c.connector with
  | none =>
      rw [hconnector] at h
      cases h
  | some connector' =>
      rw [hconnector] at h
      exact h

end StepContext

/-! ## Steps without expressions -/

section

variable (c : StepContext) (name : String) (params : Parameters)

theorem Enrich.lookupRows_renamed (lookup : Lookup) :
    (lookupRows lookup c).Leads (lookupRows lookup (c.renamed name params)) := by
  cases lookup with
  | step source => exact .bind_lift (StepContext.input_renamed name params) fun _ _ => .refl _
  | unspecified => exact .refl _
  | table table fields filter =>
      refine .bind (.refl _) fun filter => .bind (.refl _) fun sql => ?_
      exact .bind_lift (StepContext.requireConnector_renamed name params) fun _ _ => .refl _

theorem Enrich.run_renamed : (Enrich.run c).Leads (Enrich.run (c.renamed name params)) := by
  unfold Enrich.run
  refine .bind_lift (StepContext.readConfig_renamed name params) fun config _ => ?_
  refine .bind_lift (StepContext.input_renamed name params) fun source _ => ?_
  exact .bind (lookupRows_renamed c name params config.lookup) fun _ => .refl _

theorem Pivot.run_renamed : (Pivot.run c).Leads (Pivot.run (c.renamed name params)) := by
  unfold Pivot.run
  refine .bind_lift (StepContext.readConfig_renamed name params) fun config _ => ?_
  exact .bind_lift (StepContext.input_renamed name params) fun _ _ => .refl _

theorem Unpivot.run_renamed : (Unpivot.run c).Leads (Unpivot.run (c.renamed name params)) := by
  unfold Unpivot.run
  refine .bind_lift (StepContext.readConfig_renamed name params) fun config _ => ?_
  exact .bind_lift (StepContext.input_renamed name params) fun _ _ => .refl _

theorem Union.run_renamed : (Union.run c).Leads (Union.run (c.renamed name params)) := by
  unfold Union.run
  refine .bind_lift (StepContext.readConfig_renamed name params) fun config _ => ?_
  have hsets : Sending.Leads (config.sources.mapM fun source => liftM (c.input source))
      (config.sources.mapM fun source => liftM ((c.renamed name params).input source)) :=
    .mapM fun source => .lift (StepContext.input_renamed name params)
  dsimp only
  split
  · exact .bind (.refl _) fun _ => .bind hsets fun _ => .refl _
  · exact .bind hsets fun _ => .refl _

end

/-! ## Assertions -/

namespace Assert

variable {c : StepContext} (name : String) {params : Parameters}

theorem checkCustom_agree {text : String} {p q : Parameters}
    (h : ∀ name ∈ (Check.custom text).params, p.get? name = q.get? name) (rows : List Row) :
    checkCustom text rows p = checkCustom text rows q := by
  rw [checkCustom, checkCustom]
  cases hparse : Expr.parse text with
  | error problem =>
      -- said in full, or the two ways to go on without the error are compared
      show Except.error (Fault.expression problem) = Except.error (Fault.expression problem)
      rfl
  | ok e =>
      rw [Check.params, hparse] at h
      simp only [Except.mapError, bind, Except.bind, Expr.evalRows_agree h]

theorem Check.run_renamed {check : Check} {rows : List Row}
    (h : ∀ name ∈ check.params, c.params.get? name = params.get? name) {finding : Finding}
    (hrun : check.run rows c = .ok finding) : check.run rows (c.renamed name params) = .ok finding := by
  cases check with
  | custom text => exact (checkCustom_agree h rows).symm.trans hrun
  | relationship field reference referenceField =>
      rw [Check.run, checkRelationship] at hrun ⊢
      obtain ⟨referenced, hreferenced, hrun⟩ := bind_eq_ok hrun
      rw [StepContext.input_renamed name params referenced hreferenced]
      exact hrun
  | _ => exact hrun

theorem runAll_renamed {config : Config} {rows : List Row} {index : Nat}
    {assertions : List Assertion}
    (h : ∀ a ∈ assertions, ∀ name ∈ a.check.params, c.params.get? name = params.get? name)
    {results : List Result} (hrun : runAll config rows c index assertions = .ok results) :
    runAll config rows (c.renamed name params) index assertions = .ok results := by
  induction assertions generalizing index results with
  | nil => exact hrun
  | cons a rest ih =>
      rw [runAll] at hrun ⊢
      obtain ⟨finding, hfinding, hrun⟩ := bind_eq_ok hrun
      obtain ⟨others, hothers, hrun⟩ := bind_eq_ok hrun
      rw [Check.run_renamed name (h a List.mem_cons_self) hfinding]
      have hrest := ih (fun a ha => h a (List.mem_cons_of_mem _ ha)) hothers
      change (runAll config rows (c.renamed name params) (index + 1) rest >>= _) = _
      rw [hrest]
      exact hrun

theorem run_renamed (h : ∀ name ∈ paramsOf c.config, c.params.get? name = params.get? name) :
    (Assert.run c).Leads (Assert.run (c.renamed name params)) := by
  unfold Assert.run
  refine .bind_lift (StepContext.readConfig_renamed name params) fun config hconfig => ?_
  refine .bind_lift (StepContext.input_renamed name params) fun source _ => ?_
  rw [paramsOf, StepContext.readConfig_eq_ok.mp hconfig] at h
  have hchecks : ∀ a ∈ config.assertions, ∀ name ∈ a.check.params,
      c.params.get? name = params.get? name :=
    fun a ha name hname => h name (List.mem_flatMap.mpr ⟨a, ha, hname⟩)
  exact .bind_lift (fun results => runAll_renamed name hchecks) fun _ _ => .refl _

end Assert

/-! ## Queries -/

namespace Query

variable {p q : Parameters}

/-- Two maps give the same parameters under some names. -/
abbrev AgreeOn (p q : Parameters) (names : List String) : Prop :=
  ∀ name ∈ names, p.get? name = q.get? name

theorem calculatedValues_agree {f : Calculated} (h : AgreeOn p q f.params) (seen : List Row)
    (groups : Option (List (List Row))) (policy : ExpressionFailure) :
    calculatedValues f seen groups p policy = calculatedValues f seen groups q policy := by
  obtain ⟨name, expr⟩ := f
  cases expr with
  | error problem => rfl
  | ok e => simp only [calculatedValues, Expr.evalRows_agree h]

theorem applyCalculated_agree {fields : List Calculated}
    (h : ∀ f ∈ fields, AgreeOn p q f.params) (groups : Option (List (List Row)))
    (policy : ExpressionFailure) (rows : PairedRows) :
    applyCalculated groups p policy fields rows = applyCalculated groups q policy fields rows := by
  induction fields generalizing rows with
  | nil => rfl
  | cons f rest ih =>
      simp only [applyCalculated, calculatedValues_agree (h f List.mem_cons_self),
        ih fun f hf => h f (List.mem_cons_of_mem _ hf)]

theorem valueOrNull_agree {e : Expr} (h : Expr.AgreeIn p q e.subterms) (row : Row) :
    valueOrNull e row p = valueOrNull e row q := by
  rw [valueOrNull, Expr.eval_agree e h, valueOrNull]

theorem metricValue_agree {m : Metric} (h : AgreeOn p q m.params) (group : List Row) :
    metricValue m group p = metricValue m group q := by
  cases m with
  | aggregate func field label =>
      have hfield : Expr.AgreeIn p q (Expr.subtermsOfOption (field.map Expr.field)) := by
        cases field with
        | none => exact .nil
        | some field => exact .cons (fun name heq => by cases heq) .nil
      rw [metricValue, Expr.evalAggregate_agree func hfield, metricValue]
  | expression e label =>
      have hin := Expr.agreeIn_params h
      rw [metricValue, Expr.fillAggregates_agree e hin, metricValue]
      cases hfill : e.fillAggregates group (some q) with
      | error problem => rfl
      | ok e' => exact congrArg Except.ok (valueOrNull_agree (Expr.agreeIn_filled e hin hfill) _)
  | column field label => rfl

theorem projectedMetric_agree {m : Metric} (h : AgreeOn p q m.params) (row : Row) :
    projectedMetric m row p = projectedMetric m row q := by
  cases m with
  | expression e label => exact valueOrNull_agree (Expr.agreeIn_params h) row
  | _ => rfl

section

variable {plan : Plan}

theorem groupRow_agree (h : ∀ m ∈ plan.metrics, AgreeOn p q m.params) (group : List Row) :
    groupRow plan p group = groupRow plan q group := by
  refine foldlM_congr (fun row m hm => ?_) _
  rw [metricValue_agree (h m hm)]

theorem projectRow_agree (h : ∀ m ∈ plan.metrics, AgreeOn p q m.params) (row : Row) :
    projectRow plan p row = projectRow plan q row := by
  rw [projectRow, projectRow]
  split
  · rfl
  · refine List.foldl_ext _ _ _ fun out m hm => ?_
    rw [projectedMetric_agree (h m hm)]

theorem shapeRows_agree (h : ∀ m ∈ plan.metrics, AgreeOn p q m.params) (rows : List Row) :
    shapeRows plan p rows = shapeRows plan q rows := by
  have hgroups : groupRow plan p = groupRow plan q := funext (groupRow_agree h)
  simp only [shapeRows, groupRows, hgroups, projectRow_agree h]

end

section

variable {c : StepContext} (name : String) {params : Parameters} {plan : Plan}

theorem joinAll_renamed {joins : List JoinClause} {rows joined : List Row}
    (hrun : joinAll plan c joins rows = .ok joined) :
    joinAll plan (c.renamed name params) joins rows = .ok joined := by
  induction joins generalizing rows with
  | nil => exact hrun
  | cons j rest ih =>
      rw [joinAll] at hrun ⊢
      cases hdepends : c.dependsOn j.table with
      | false =>
          rw [hdepends] at hrun
          cases hrun
      | true =>
          have hdepends' : (c.renamed name params).dependsOn j.table = true := hdepends
          rw [hdepends] at hrun
          obtain ⟨right, hright, hrun⟩ := bind_eq_ok hrun
          obtain ⟨rows', hrows, hrun⟩ := bind_eq_ok hrun
          rw [hdepends', StepContext.input_renamed name params right hright]
          change (joinRows rows right j >>= fun rows => joinAll plan (c.renamed name params) rest rows)
            = _
          rw [hrows]
          exact ih hrun

theorem runInMemory_renamed (h : AgreeOn c.params params plan.params) {policy : ExpressionFailure}
    {output : StepOutput} (hrun : runInMemory plan c policy = .ok output) :
    runInMemory plan (c.renamed name params) policy = .ok output := by
  have hmetrics : ∀ m ∈ plan.metrics, AgreeOn c.params params m.params := fun m hm name hname =>
    h name (List.mem_append_left _ (List.mem_flatMap.mpr ⟨m, hm, hname⟩))
  have hcalculated : ∀ f ∈ plan.calculated, AgreeOn c.params params f.params :=
    fun f hf name hname => h name (List.mem_append_right _ (List.mem_flatMap.mpr ⟨f, hf, hname⟩))
  rw [runInMemory] at hrun ⊢
  obtain ⟨source, hsource, hrun⟩ := bind_eq_ok hrun
  obtain ⟨joined, hjoined, hrun⟩ := bind_eq_ok hrun
  rw [StepContext.input_renamed name params source hsource]
  change (joinAll plan (c.renamed name params) plan.joins source >>= _) = _
  rw [joinAll_renamed name hjoined]
  simp only [shapeRows_agree hmetrics, applyCalculated_agree hcalculated] at hrun
  exact hrun

theorem runOnTable_renamed (h : AgreeOn c.params params plan.params) (policy : ExpressionFailure) :
    (runOnTable plan c policy).Leads (runOnTable plan (c.renamed name params) policy) := by
  have hcalculated : ∀ f ∈ plan.calculated, AgreeOn c.params params f.params :=
    fun f hf name hname => h name (List.mem_append_right _ (List.mem_flatMap.mpr ⟨f, hf, hname⟩))
  have hsame : applyCalculated none (c.renamed name params).params policy plan.calculated =
      applyCalculated none c.params policy plan.calculated :=
    funext fun rows => (applyCalculated_agree hcalculated none policy rows).symm
  have hdepends : (c.renamed name params).dependsOn = c.dependsOn := rfl
  unfold runOnTable
  rw [hsame, hdepends]
  cases plan.joins.find? fun j => c.dependsOn j.table with
  | some j =>
      intro sent output sent' hrun
      cases hrun
  | none =>
      exact .bind_lift (StepContext.requireConnector_renamed name params) fun connector _ => .refl _

end

theorem run_renamed {c : StepContext} (name : String) {params : Parameters}
    (h : AgreeOn c.params params (paramsOf c.config)) :
    (Query.run c).Leads (Query.run (c.renamed name params)) := by
  unfold Query.run
  refine .bind_lift (StepContext.readConfig_renamed name params) fun config hconfig => ?_
  refine .bind_lift (fun _ hplan => hplan) fun plan hplan => ?_
  -- the plan whose parameters the hypothesis is about is the one that is carried out
  simp only [paramsOf, StepContext.readConfig_eq_ok.mp hconfig, hplan] at h
  change Sending.Leads (if c.dependsOn plan.source then _ else _)
    (if c.dependsOn plan.source then _ else _)
  split
  · exact .lift fun _ => runInMemory_renamed name h
  · exact runOnTable_renamed name h _

end Query

/-- The output of a step depends neither on its name nor on parameters that its expressions do not
mention. -/
theorem StepRegistry.standard_renamed {c : StepContext} (name : String) {params : Parameters}
    (h : ∀ name ∈ c.mentioned, c.params.get? name = params.get? name) :
    (standard.run c).Leads (standard.run (c.renamed name params)) := by
  rw [StepContext.mentioned] at h
  have hengine : ∀ {engine : StepEngine}, standard c.kind = some engine →
      (engine c).Leads (engine (c.renamed name params)) →
        (standard.run c).Leads (standard.run (c.renamed name params)) := by
    intro engine hkind hleads
    have hkind' : standard (c.renamed name params).kind = some engine := hkind
    rw [run_eq hkind, run_eq hkind']
    exact hleads
  cases hkind : c.kind with
  | query =>
      rw [hkind] at h
      exact hengine (congrArg standard hkind) (Query.run_renamed name h)
  | assert =>
      rw [hkind] at h
      exact hengine (congrArg standard hkind) (Assert.run_renamed name h)
  | enrich => exact hengine (congrArg standard hkind) (Enrich.run_renamed c name params)
  | pivot => exact hengine (congrArg standard hkind) (Pivot.run_renamed c name params)
  | unpivot => exact hengine (congrArg standard hkind) (Unpivot.run_renamed c name params)
  | union => exact hengine (congrArg standard hkind) (Union.run_renamed c name params)

end RowPipeline
