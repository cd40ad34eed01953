import Mathlib.Data.List.Basic
import RowPipeline.Proofs.QueryRuns

/-!
# Failing expressions of queries

A query over the rows of other steps evaluates expressions in two places: the metrics over every group, or
over every row where there are no groups, and the calculated fields over the rows that come of them. A policy
says what a failure leads to. Beside the run of a query stands what a policy asks for: the rows with null for
every failure, and the names of what fails. Calculated fields follow the policy; a metric that fails follows
none, so a query does what its policy says exactly if no metric of it fails.
-/

namespace RowPipeline

/-! ## Expressions without aggregates -/

namespace Expr

variable (group : List Row) (params : Option Parameters)

mutual

/-- An expression without aggregates has nothing to fill. -/
theorem fillAggregates_of_free : ∀ e : Expr, e.containsAggregate = false →
    e.fillAggregates group params = .ok e
  | .aggregate .., h => nomatch h
  | .literal _, _ | .field _, _ | .param _, _ | .window .., _ => rfl
  | .unary op e, h => by rw [fillAggregates, fillAggregates_of_free e h]; rfl
  | .binary op l r, h => by
      rw [containsAggregate, Bool.or_eq_false_iff] at h
      rw [fillAggregates, fillAggregates_of_free l h.1, fillAggregates_of_free r h.2]
      rfl
  | .call f args, h => by rw [fillAggregates, fillList_of_free args h]; rfl
  | .case operand branches otherwise, h => by
      rw [containsAggregate, Bool.or_eq_false_iff, Bool.or_eq_false_iff] at h
      rw [fillAggregates, fillOption_of_free operand h.1.1, fillBranches_of_free branches h.1.2,
        fillOption_of_free otherwise h.2]
      rfl
  | .inList e list negated, h => by
      rw [containsAggregate, Bool.or_eq_false_iff] at h
      rw [fillAggregates, fillAggregates_of_free e h.1, fillList_of_free list h.2]
      rfl
  | .between e low high negated, h => by
      rw [containsAggregate, Bool.or_eq_false_iff, Bool.or_eq_false_iff] at h
      rw [fillAggregates, fillAggregates_of_free e h.1.1, fillAggregates_of_free low h.1.2,
        fillAggregates_of_free high h.2]
      rfl
  | .like e pattern negated, h => by
      rw [containsAggregate, Bool.or_eq_false_iff] at h
      rw [fillAggregates, fillAggregates_of_free e h.1, fillAggregates_of_free pattern h.2]
      rfl
  | .isNull e negated, h => by rw [fillAggregates, fillAggregates_of_free e h]; rfl

theorem fillList_of_free : ∀ es : List Expr, anyAggregate es = false → fillList group params es = .ok es
  | [], _ => rfl
  | e :: rest, h => by
      rw [anyAggregate, Bool.or_eq_false_iff] at h
      rw [fillList, fillAggregates_of_free e h.1, fillList_of_free rest h.2]
      rfl

theorem fillOption_of_free : ∀ e : Option Expr, optionAggregate e = false →
    fillOption group params e = .ok e
  | none, _ => rfl
  | some e, h => by rw [fillOption, fillAggregates_of_free e h]; rfl

theorem fillBranches_of_free : ∀ branches : List (Expr × Expr), branchesAggregate branches = false →
    fillBranches group params branches = .ok branches
  | [], _ => rfl
  | (whenExpr, thenExpr) :: rest, h => by
      rw [branchesAggregate, Bool.or_eq_false_iff, Bool.or_eq_false_iff] at h
      rw [fillBranches, fillAggregates_of_free whenExpr h.1.1, fillAggregates_of_free thenExpr h.1.2,
        fillBranches_of_free rest h.2]
      rfl

end

end Expr

namespace Query

/-! ## Outcomes -/

/-- The value that an outcome stands for under the null policy. -/
def nulled : Expr.Outcome Value → Value
  | .ok v => v
  | .error _ => .null

def failed {α : Type} : Expr.Outcome α → Bool
  | .ok _ => false
  | .error _ => true

/-- The value of a metric over a group of rows, or how it fails. -/
def Metric.outcome (m : Metric) (group : List Row) (params : Parameters) : Expr.Outcome Value :=
  match m with
  | .aggregate func field _ => Expr.evalAggregate func (field.map .field) group (some params)
  | .expression e _ => do
      let filled ← e.fillAggregates group (some params)
      filled.eval ⟨some (group.headD .empty), some params, fun _ => none⟩
  | .column field _ => .ok (firstField group field)

variable {m : Metric} {group : List Row} {groups : List (List Row)} {params : Parameters} {p : Plan}
  {c : StepContext} {rows : List Row}

theorem metricValue_of_outcome {v : Value} (h : m.outcome group params = .ok v) :
    metricValue m group params = .ok v := by
  cases m with
  | aggregate func field label =>
      rw [Metric.outcome] at h
      rw [metricValue, h]
      rfl
  | expression e label =>
      obtain ⟨filled, hfilled, hvalue⟩ := bind_eq_ok h
      rw [metricValue, hfilled]
      show Except.ok (valueOrNull filled (group.headD .empty) params) = _
      rw [valueOrNull, hvalue]
  | column field label =>
      obtain rfl := Except.ok.inj h
      rfl

/-- Where a metric has a value in the end, it is that of its outcome or null. -/
theorem nulled_outcome {v : Value} (h : metricValue m group params = .ok v) :
    nulled (m.outcome group params) = v := by
  cases m with
  | aggregate func field label =>
      rw [Metric.outcome, mapError_eq_ok h]
      rfl
  | expression e label =>
      obtain ⟨filled, hfilled, hvalue⟩ := bind_eq_ok h
      obtain rfl := Except.ok.inj hvalue
      rw [Metric.outcome, mapError_eq_ok hfilled]
      show nulled (filled.eval _) = valueOrNull filled _ params
      rw [valueOrNull]
      cases filled.eval ⟨some (group.headD .empty), some params, fun _ => none⟩ <;> rfl
  | column field label => exact Except.ok.inj h

/-- Without aggregates, a metric over a single row is projected with null for a failure. -/
theorem projectedMetric_eq (h : m.isAggregate = false) (row : Row) :
    projectedMetric m row params = nulled (m.outcome [row] params) := by
  cases m with
  | aggregate func field label => cases h
  | expression e label =>
      rw [Metric.outcome, e.fillAggregates_of_free [row] (some params) h]
      show valueOrNull e row params = nulled (e.eval ⟨some row, some params, fun _ => none⟩)
      rw [valueOrNull]
      cases e.eval ⟨some row, some params, fun _ => none⟩ <;> rfl
  | column field label => rfl

/-- An aggregate of a field does not fail: where a row lacks the field, it counts as null. -/
theorem outcome_aggregate (func : AggregateFunction) (field : Option String) (label : String)
    (group : List Row) (params : Parameters) :
    ∃ v, (Metric.aggregate func field label).outcome group params = .ok v := by
  cases field with
  | none => exact ⟨_, rfl⟩
  | some name =>
      have hvalues : (group.mapM fun row => (Expr.field name).evalLenient row (some params)) =
          .ok (group.map fun row => row.lookupD name) := by
        refine mapM_eq_map fun row _ => ?_
        have hfield : (Scope.mk (some row) (some params) fun _ => none).field? name = row.lookup? name := rfl
        rw [Expr.evalLenient, Expr.eval, hfield, Row.lookupD]
        cases row.lookup? name <;> rfl
      refine ⟨aggregateValues func (group.map fun row => row.lookupD name), ?_⟩
      show (group.mapM fun row => (Expr.field name).evalLenient row (some params)) >>= _ = _
      rw [hvalues]
      rfl

/-! ## Rows that stand for groups -/

/-- The groups that the metrics of a plan are evaluated over; without grouping each row is one. -/
def Plan.groupsOf (p : Plan) (rows : List Row) : List (List Row) :=
  if p.isGrouped then
    let groups := (groupByKey (groupRowKey p.groupKey) rows).map Prod.snd
    if groups.isEmpty && p.groupKey.isEmpty then [[]] else groups
  else rows.map ([·])

/-- Enter the metrics of a group into a row, null for those that fail. -/
def enterMetrics (metrics : List Metric) (group : List Row) (params : Parameters) (row : Row) : Row :=
  metrics.foldl (fun row m => row.insert m.label (nulled (m.outcome group params))) row

/-- The columns of a group that are no metrics. -/
def Plan.keyColumns (p : Plan) (group : List Row) : Row :=
  if p.dimensions.isEmpty then Record.ofList (p.groupKey.map fun f => (f, firstField group f))
  else Record.ofList (p.dimensions.map fun d => (d.outputName, firstField group d.field))

/-- The result row that stands for a group, with null for the metrics that fail, and what expressions see
of it. -/
def Plan.reduced (p : Plan) (params : Parameters) (group : List Row) : Row × Row :=
  let out := enterMetrics p.metrics group params (p.keyColumns group)
  if p.isGrouped then (out, out)
  else
    let row := group.headD .empty
    let out := if p.dimensions.isEmpty && p.metrics.isEmpty then row else out
    (out, row.insertAll out.entries)

/-- The groups whose rows the aggregates of calculated fields range over. -/
def Plan.aggregated (p : Plan) (groups : List (List Row)) : Option (List (List Row)) :=
  if p.isGrouped then some groups else none

theorem foldlM_metrics {metrics : List Metric} {row out : Row}
    (h : metrics.foldlM (fun row m => do return row.insert m.label (← metricValue m group params)) row =
      .ok out) : out = enterMetrics metrics group params row := by
  induction metrics generalizing row with
  | nil => exact (Except.ok.inj h).symm
  | cons m rest ih =>
      rw [List.foldlM_cons] at h
      obtain ⟨entered, hentered, h⟩ := bind_eq_ok h
      obtain ⟨v, hv, hentered⟩ := bind_eq_ok hentered
      obtain rfl := Except.ok.inj hentered
      rw [ih h, enterMetrics, enterMetrics, List.foldl_cons, nulled_outcome hv]

theorem foldlM_metrics_ok {metrics : List Metric}
    (h : ∀ m ∈ metrics, ∃ v, m.outcome group params = .ok v) (row : Row) :
    ∃ out, metrics.foldlM
      (fun row m => do return row.insert m.label (← metricValue m group params)) row = .ok out := by
  induction metrics generalizing row with
  | nil => exact ⟨row, rfl⟩
  | cons m rest ih =>
      rw [List.forall_mem_cons] at h
      obtain ⟨v, hv⟩ := h.1
      obtain ⟨out, hout⟩ := ih h.2 (row.insert m.label v)
      refine ⟨out, ?_⟩
      rw [List.foldlM_cons, metricValue_of_outcome hv]
      exact hout

theorem projectRow_eq (ungrouped : p.isGrouped = false) (row : Row) :
    (projectRow p params row, row.insertAll (projectRow p params row).entries) =
      p.reduced params [row] := by
  obtain ⟨hkey, hmetrics⟩ : p.groupBy.isEmpty = true ∧ p.metrics.any Metric.isAggregate = false := by
    simpa [Plan.isGrouped] using ungrouped
  have hout : projectRow p params row = if p.dimensions.isEmpty && p.metrics.isEmpty then row
      else enterMetrics p.metrics [row] params (p.keyColumns [row]) := by
    rw [projectRow]
    split
    · rfl
    · have hkeys : p.keyColumns [row] =
          Record.ofList (p.dimensions.map fun d => (d.outputName, row.lookupD d.field)) := by
        rw [Plan.keyColumns]
        split
        · rename_i hempty
          rw [Plan.groupKey, if_pos hkey, List.isEmpty_iff.mp hempty]
          rfl
        · rfl
      rw [hkeys, enterMetrics]
      refine List.foldl_ext _ _ _ fun out m hm => ?_
      rw [List.any_eq_false] at hmetrics
      rw [projectedMetric_eq (Bool.eq_false_iff.mpr (hmetrics m hm))]
  rw [Plan.reduced, ungrouped, hout]
  rfl

theorem groupRow_eq (grouped : p.isGrouped = true) {out : Row} (h : groupRow p params group = .ok out) :
    (out, out) = p.reduced params group := by
  rw [Plan.reduced, if_pos grouped, foldlM_metrics h]
  rfl

theorem groupRows_of_grouped (grouped : p.isGrouped = true) :
    groupRows p params rows = (do
      p.groupKey.forM fun f => requireField rows f "group_by"
      let output ← (p.groupsOf rows).mapM (groupRow p params)
      return (output, p.groupsOf rows)) := by
  rw [groupRows, Plan.groupsOf, if_pos grouped]

/-- Rows that are shaped stand for their groups. -/
theorem shapeRows_eq {shaped : PairedRows × Option (List (List Row))}
    (h : shapeRows p params rows = .ok shaped) :
    shaped = ((p.groupsOf rows).map (p.reduced params), p.aggregated (p.groupsOf rows)) := by
  rw [shapeRows] at h
  by_cases grouped : p.isGrouped = true
  · rw [if_pos grouped] at h
    obtain ⟨⟨output, groups⟩, hgroups, h⟩ := bind_eq_ok h
    obtain rfl := Except.ok.inj h
    rw [groupRows_of_grouped grouped] at hgroups
    obtain ⟨-, -, hgroups⟩ := bind_eq_ok hgroups
    obtain ⟨output', houtput, hgroups⟩ := bind_eq_ok hgroups
    obtain ⟨rfl, rfl⟩ := Prod.mk.inj (Except.ok.inj hgroups)
    have hrows := map_of_mapM (p.reduced params) (fun r => (r, r))
      (fun _ _ hrow => groupRow_eq grouped hrow) houtput
    rw [Plan.aggregated, if_pos grouped, ← hrows]
  · rw [if_neg grouped] at h
    obtain rfl := Except.ok.inj h
    rw [Plan.aggregated, Plan.groupsOf, if_neg grouped, if_neg grouped, List.map_map]
    have hrow (row : Row) : (projectRow p params row, row.insertAll (projectRow p params row).entries) =
        p.reduced params [row] := projectRow_eq (Bool.eq_false_iff.mpr grouped) row
    simp only [hrow]
    rfl

/-- Whether the rows have the fields that they are grouped by. -/
def Plan.requireKey (p : Plan) (rows : List Row) : Except Fault Unit :=
  if p.isGrouped then p.groupKey.forM fun f => requireField rows f "group_by" else .ok ()

theorem shapeRows_of_no_key {fault : Fault} (hkey : p.requireKey rows = .error fault) :
    shapeRows p params rows = .error fault := by
  by_cases grouped : p.isGrouped = true
  · rw [Plan.requireKey, if_pos grouped] at hkey
    rw [shapeRows, if_pos grouped, groupRows, hkey]
    rfl
  · rw [Plan.requireKey, if_neg grouped] at hkey
    cases hkey

theorem shapeRows_ok (hkey : p.requireKey rows = .ok ())
    (h : ∀ g ∈ p.groupsOf rows, ∀ m ∈ p.metrics, ∃ v, m.outcome g params = .ok v) :
    ∃ shaped, shapeRows p params rows = .ok shaped := by
  rw [shapeRows]
  by_cases grouped : p.isGrouped = true
  · rw [Plan.requireKey, if_pos grouped] at hkey
    have hrow : ∀ g ∈ p.groupsOf rows, groupRow p params g = .ok (p.reduced params g).1 := by
      intro g hg
      obtain ⟨out, hout⟩ := foldlM_metrics_ok (h g hg) (p.keyColumns g)
      rw [← groupRow_eq grouped hout]
      exact hout
    rw [if_pos grouped, groupRows_of_grouped grouped, hkey, mapM_eq_map hrow]
    exact ⟨_, rfl⟩
  · rw [if_neg grouped]
    exact ⟨_, rfl⟩

/-! ## Calculated fields -/

/-- The outcomes of a calculated field on the rows; one that does not read fails on each. -/
def Calculated.outcomes (f : Calculated) (groups : Option (List (List Row))) (params : Parameters)
    (seen : List Row) : List (Expr.Outcome Value) :=
  match f.expr with
  | .ok e => e.evalRows seen groups (some params)
  | .error err => seen.map fun _ => .error err

/-- Whether a calculated field does not read or fails on a row. -/
def Calculated.fails (f : Calculated) (groups : Option (List (List Row))) (params : Parameters)
    (seen : List Row) : Bool :=
  failed f.expr || (f.outcomes groups params seen).any failed

/-- Enter a calculated field into the rows, null where it fails. -/
def Calculated.entered (f : Calculated) (groups : Option (List (List Row))) (params : Parameters)
    (rows : PairedRows) : PairedRows :=
  (rows.zip ((f.outcomes groups params (rows.map Prod.snd)).map nulled)).map fun r =>
    (r.1.1.insert f.name r.2, r.1.2.insert f.name r.2)

/-- Enter calculated fields one after the other. -/
def enteredAll (groups : Option (List (List Row))) (params : Parameters) (fields : List Calculated)
    (rows : PairedRows) : PairedRows :=
  fields.foldl (fun rows f => f.entered groups params rows) rows

/-- The names of the calculated fields that fail. -/
def failingFields (groups : Option (List (List Row))) (params : Parameters) :
    List Calculated → PairedRows → List String
  | [], _ => []
  | f :: rest, rows =>
      (if f.fails groups params (rows.map Prod.snd) then [f.name] else []) ++
        failingFields groups params rest (f.entered groups params rows)

/-- Whether a warning names a field. -/
def Names (name warning : String) : Prop :=
  ∃ before after, warning = before ++ "'" ++ name ++ "'" ++ after

variable {f : Calculated} {ranges : Option (List (List Row))} {seen : List Row}

theorem nullFailures_values (outcomes : List (Expr.Outcome Value)) :
    (nullFailures outcomes).1 = outcomes.map nulled := by
  induction outcomes with
  | nil => rfl
  | cons outcome rest ih =>
      cases outcome with
      | ok v => exact congrArg (v :: ·) ih
      | error e => exact congrArg (Value.null :: ·) ih

theorem nullFailures_first (outcomes : List (Expr.Outcome Value)) :
    (nullFailures outcomes).2.2.isSome = outcomes.any failed := by
  induction outcomes with
  | nil => rfl
  | cons outcome rest ih =>
      cases outcome with
      | ok v => exact ih
      | error e => rfl

/-- Under the null policy a calculated field has values, and there is a warning that names it if it
fails. -/
theorem calculatedValues_null (f : Calculated) (ranges : Option (List (List Row))) (params : Parameters)
    (seen : List Row) :
    ∃ warning, calculatedValues f seen ranges params .null =
        .ok ((f.outcomes ranges params seen).map nulled, warning) ∧
      List.Forall₂ Names (if f.fails ranges params seen then [f.name] else []) warning.toList := by
  rw [calculatedValues, Calculated.fails, Calculated.outcomes]
  cases f.expr with
  | error err =>
      refine ⟨some ("Calculated field '" ++ f.name ++ "' is invalid: " ++ err.message), ?_,
        .cons ⟨"Calculated field ", " is invalid: " ++ err.message, ?_⟩ .nil⟩
      · rw [List.map_map]
        rfl
      · simp [← String.toList_inj]
  | ok e =>
      have hvalues := nullFailures_values (e.evalRows seen ranges (some params))
      have hfirst := nullFailures_first (e.evalRows seen ranges (some params))
      dsimp only [failed, Bool.false_or]
      rw [← hvalues, ← hfirst]
      generalize nullFailures (e.evalRows seen ranges (some params)) = found
      obtain ⟨values, count, first⟩ := found
      cases first with
      | none => exact ⟨none, rfl, .nil⟩
      | some err =>
          refine ⟨some ("Calculated field '" ++ f.name ++ "' failed on " ++ toString count ++ " row(s): " ++
            err.message), rfl, .cons ⟨"Calculated field ",
              " failed on " ++ toString count ++ " row(s): " ++ err.message, ?_⟩ .nil⟩
          simp [← String.toList_inj]

/-- Under the error policy a calculated field has values if it does not fail. -/
theorem calculatedValues_error (h : f.fails ranges params seen = false) :
    calculatedValues f seen ranges params .error =
      .ok ((f.outcomes ranges params seen).map nulled, none) := by
  rw [Calculated.fails, Bool.or_eq_false_iff, List.any_eq_false] at h
  rw [calculatedValues, Calculated.outcomes] at *
  cases hexpr : f.expr with
  | error err =>
      rw [hexpr] at h
      cases h.1
  | ok e =>
      rw [hexpr] at h
      have hvalues : (e.evalRows seen ranges (some params)).mapM (fun r => r.mapError Fault.expression) =
          .ok ((e.evalRows seen ranges (some params)).map nulled) := by
        refine mapM_eq_map fun outcome houtcome => ?_
        cases outcome with
        | ok v => rfl
        | error err => exact absurd rfl (h.2 _ houtcome)
      dsimp only
      rw [hvalues]
      rfl

theorem calculatedValues_stops (h : f.fails ranges params seen = true) :
    ∃ fault, calculatedValues f seen ranges params .error = .error fault := by
  rw [Calculated.fails, Calculated.outcomes] at h
  rw [calculatedValues]
  cases hexpr : f.expr with
  | error err => exact ⟨_, rfl⟩
  | ok e =>
      rw [hexpr] at h
      obtain ⟨outcome, houtcome, hfailed⟩ := List.any_eq_true.mp h
      dsimp only
      cases hvalues : (e.evalRows seen ranges (some params)).mapM
        (fun r => r.mapError Fault.expression) with
      | error fault => exact ⟨fault, rfl⟩
      | ok values =>
          -- each outcome would have a value
          obtain ⟨v, -, hv⟩ := exists_of_mapM hvalues houtcome
          rw [mapError_eq_ok hv] at hfailed
          cases hfailed

/-- A calculated field that has values is entered before the others. -/
theorem applyCalculated_cons {policy : ExpressionFailure} {rows : PairedRows} {warning : Option String}
    (h : calculatedValues f (rows.map Prod.snd) ranges params policy =
      .ok ((f.outcomes ranges params (rows.map Prod.snd)).map nulled, warning)) (rest : List Calculated) :
    applyCalculated ranges params policy (f :: rest) rows =
      (applyCalculated ranges params policy rest (f.entered ranges params rows)).map
        fun r => (r.1, warning.toList ++ r.2) := by
  rw [applyCalculated, h]
  show (applyCalculated ranges params policy rest (f.entered ranges params rows) >>= _) = _
  cases applyCalculated ranges params policy rest (f.entered ranges params rows) <;> rfl

/-- Under the null policy every field is entered, and there is a warning for each one that fails. -/
theorem applyCalculated_null (ranges : Option (List (List Row))) (params : Parameters)
    (fields : List Calculated) (rows : PairedRows) :
    ∃ warnings, applyCalculated ranges params .null fields rows =
        .ok (enteredAll ranges params fields rows, warnings) ∧
      List.Forall₂ Names (failingFields ranges params fields rows) warnings := by
  induction fields generalizing rows with
  | nil => exact ⟨[], rfl, .nil⟩
  | cons f rest ih =>
      obtain ⟨warning, hvalues, hwarning⟩ :=
        calculatedValues_null f ranges params (rows.map Prod.snd)
      obtain ⟨warnings, hrest, hwarnings⟩ := ih (f.entered ranges params rows)
      refine ⟨warning.toList ++ warnings, ?_, List.rel_append hwarning hwarnings⟩
      rw [applyCalculated_cons hvalues, hrest]
      rfl

/-- Under the error policy every field is entered if none fails. -/
theorem applyCalculated_error {fields : List Calculated} {rows : PairedRows}
    (h : failingFields ranges params fields rows = []) :
    applyCalculated ranges params .error fields rows = .ok (enteredAll ranges params fields rows, []) := by
  induction fields generalizing rows with
  | nil => rfl
  | cons f rest ih =>
      rw [failingFields, List.append_eq_nil_iff] at h
      have hfails : f.fails ranges params (rows.map Prod.snd) = false := by
        by_contra hfails
        rw [Bool.not_eq_false] at hfails
        rw [if_pos hfails] at h
        cases h.1
      rw [applyCalculated_cons (calculatedValues_error hfails), ih h.2]
      rfl

/-- Under the error policy the first field that fails ends the step. -/
theorem applyCalculated_stops {fields : List Calculated} {rows : PairedRows}
    (h : failingFields ranges params fields rows ≠ []) :
    ∃ fault, applyCalculated ranges params .error fields rows = .error fault := by
  induction fields generalizing rows with
  | nil => exact absurd rfl h
  | cons f rest ih =>
      cases hfails : f.fails ranges params (rows.map Prod.snd) with
      | true =>
          obtain ⟨fault, hfault⟩ := calculatedValues_stops hfails
          exact ⟨fault, by rw [applyCalculated, hfault]; rfl⟩
      | false =>
          rw [failingFields, hfails] at h
          obtain ⟨fault, hfault⟩ := ih h
          exact ⟨fault, by rw [applyCalculated_cons (calculatedValues_error hfails), hfault]; rfl⟩

/-! ## What a policy asks for -/

/-- The rows of a query, joined and filtered. -/
def Plan.kept (p : Plan) (c : StepContext) : Except Fault (List Row) := do
  let source ← c.input p.source
  let joined ← joinAll p c p.joins source
  return admitted p.filter joined

/-- The groups that a query evaluates its expressions over. -/
def Plan.reading (p : Plan) (c : StepContext) : Except Fault (List (List Row)) := do
  let rows ← p.kept c
  p.requireKey rows
  return p.groupsOf rows

/-- The rows that groups come to if every failure counts as null. -/
def Plan.nulledRows (p : Plan) (params : Parameters) (groups : List (List Row)) : List Row :=
  p.arranged ((enteredAll (p.aggregated groups) params p.calculated
    (groups.map (p.reduced params))).map Prod.fst)

/-- The names of the metrics that fail for some group. -/
def Plan.failingMetrics (p : Plan) (params : Parameters) (groups : List (List Row)) : List String :=
  (p.metrics.filter fun m => groups.any fun g => failed (m.outcome g params)).map Metric.label

/-- The names of the calculated fields that fail for some group. -/
def Plan.failingCalculated (p : Plan) (params : Parameters) (groups : List (List Row)) : List String :=
  failingFields (p.aggregated groups) params p.calculated (groups.map (p.reduced params))

/-- The names of the metrics and of the calculated fields that fail. -/
def Plan.failures (p : Plan) (params : Parameters) (groups : List (List Row)) : List String :=
  p.failingMetrics params groups ++ p.failingCalculated params groups

/-- The query does over these groups what its policy asks for. -/
structure Governed (p : Plan) (c : StepContext) (groups : List (List Row)) : Prop where
  /-- Under the error policy it fails if anything fails. -/
  stops : p.failures c.params groups ≠ [] → ∃ fault, runInMemory p c .error = .error fault
  /-- Under the null policy failures are null, and for each there is a warning that names it. -/
  warns : ∃ warnings named, runInMemory p c .null =
      .ok (paged c.pagination (p.nulledRows c.params groups) warnings) ∧
    named.Sublist warnings ∧ List.Forall₂ Names (p.failures c.params groups) named
  /-- Without a failure the policies do the same. -/
  agrees : p.failures c.params groups = [] → runInMemory p c .error = runInMemory p c .null

theorem paged_warnings (page : Option Pagination) (rows : List Row) (warnings : List String) :
    (paged page rows warnings).warnings = warnings := by
  cases page <;> rfl

theorem runInMemory_kept (p : Plan) (c : StepContext) (policy : ExpressionFailure) :
    runInMemory p c policy = (do
      let rows ← p.kept c
      let shaped ← shapeRows p c.params rows
      let calculated ← applyCalculated shaped.2 c.params policy p.calculated shaped.1
      return paged c.pagination (p.arranged (calculated.1.map Prod.fst)) calculated.2) := by
  rw [runInMemory_eq, Plan.kept]
  simp only [bind_assoc, pure_bind]

theorem runInMemory_of_kept (kept : p.kept c = .ok rows) (policy : ExpressionFailure) :
    runInMemory p c policy = (do
      let shaped ← shapeRows p c.params rows
      let calculated ← applyCalculated shaped.2 c.params policy p.calculated shaped.1
      return paged c.pagination (p.arranged (calculated.1.map Prod.fst)) calculated.2) := by
  rw [runInMemory_kept, kept]
  rfl

theorem failingMetrics_eq_nil_iff :
    p.failingMetrics params groups = [] ↔
      ∀ m ∈ p.metrics, ∀ g ∈ groups, ∃ v, m.outcome g params = .ok v := by
  rw [Plan.failingMetrics, List.map_eq_nil_iff, List.filter_eq_nil_iff]
  refine forall₂_congr fun m _ => ?_
  rw [Bool.not_eq_true, List.any_eq_false]
  refine forall₂_congr fun g _ => ?_
  cases m.outcome g params <;> simp [failed]

/-- A query that cannot be read evaluates nothing and fails under both policies. -/
theorem runInMemory_of_unread {fault : Fault} (reading : p.reading c = .error fault)
    (policy : ExpressionFailure) : runInMemory p c policy = .error fault := by
  rw [Plan.reading] at reading
  cases hkept : p.kept c with
  | error e =>
      rw [hkept] at reading
      cases reading
      rw [runInMemory_kept, hkept]
      rfl
  | ok rows =>
      have hkey : p.requireKey rows = .error fault := by
        rw [hkept] at reading
        change (p.requireKey rows >>= fun _ => .ok (p.groupsOf rows)) = .error fault at reading
        cases hkey : p.requireKey rows with
        | error e =>
            rw [hkey] at reading
            cases reading
            rfl
        | ok =>
            rw [hkey] at reading
            cases reading
      rw [runInMemory_of_kept hkept, shapeRows_of_no_key hkey]
      rfl

/-- Once the rows are shaped, what a query does is what its calculated fields do. -/
theorem runInMemory_of_shaped {shaped : PairedRows × Option (List (List Row))} (kept : p.kept c = .ok rows)
    (h : shapeRows p c.params rows = .ok shaped) (policy : ExpressionFailure) :
    runInMemory p c policy =
      (applyCalculated (p.aggregated (p.groupsOf rows)) c.params policy p.calculated
        ((p.groupsOf rows).map (p.reduced c.params))).map
        fun r => paged c.pagination (p.arranged (r.1.map Prod.fst)) r.2 := by
  obtain rfl := shapeRows_eq h
  rw [runInMemory_of_kept kept, h]
  rfl

/-- Once the rows are shaped, a query succeeds under the null policy, with null for every failure; but the
warnings are those of the calculated fields only. -/
theorem runInMemory_null {shaped : PairedRows × Option (List (List Row))} (kept : p.kept c = .ok rows)
    (h : shapeRows p c.params rows = .ok shaped) :
    ∃ warnings, runInMemory p c .null =
        .ok (paged c.pagination (p.nulledRows c.params (p.groupsOf rows)) warnings) ∧
      List.Forall₂ Names (p.failingCalculated c.params (p.groupsOf rows)) warnings := by
  obtain ⟨warnings, hentered, hfields⟩ := applyCalculated_null (p.aggregated (p.groupsOf rows)) c.params
    p.calculated ((p.groupsOf rows).map (p.reduced c.params))
  refine ⟨warnings, ?_, hfields⟩
  rw [runInMemory_of_shaped kept h, hentered]
  rfl

/-- A metric that fails leaves too few warnings, or none at all when the step fails with it. -/
theorem Governed.failingMetrics (kept : p.kept c = .ok rows) (h : Governed p c (p.groupsOf rows)) :
    p.failingMetrics c.params (p.groupsOf rows) = [] := by
  obtain ⟨warnings, named, hnull, hsub, hnamed⟩ := h.warns
  obtain ⟨shaped, hshaped, -⟩ := bind_eq_ok ((runInMemory_of_kept kept .null).symm.trans hnull)
  obtain ⟨warned, hrun, hfields⟩ := runInMemory_null kept hshaped
  have hwarnings : warned = warnings := by
    have houtput := congrArg StepOutput.warnings (Except.ok.inj (hrun.symm.trans hnull))
    rwa [paged_warnings, paged_warnings] at houtput
  have hlength := hsub.length_le
  rw [← hnamed.length_eq, ← hwarnings, ← hfields.length_eq, Plan.failures,
    List.length_append] at hlength
  exact List.length_eq_zero_iff.mp (by omega)

theorem Governed.of_outcomes (kept : p.kept c = .ok rows) (hkey : p.requireKey rows = .ok ())
    (h : ∀ m ∈ p.metrics, ∀ g ∈ p.groupsOf rows, ∃ v, m.outcome g c.params = .ok v) :
    Governed p c (p.groupsOf rows) := by
  obtain ⟨shaped, hshaped⟩ := shapeRows_ok hkey fun g hg m hm => h m hm g hg
  obtain ⟨warnings, hnull, hfields⟩ := runInMemory_null kept hshaped
  have hfailures : p.failures c.params (p.groupsOf rows) =
      p.failingCalculated c.params (p.groupsOf rows) := by
    rw [Plan.failures, failingMetrics_eq_nil_iff.mpr h, List.nil_append]
  rw [← hfailures] at hfields
  constructor
  case stops =>
    intro hfail
    rw [hfailures] at hfail
    obtain ⟨fault, hfault⟩ := applyCalculated_stops hfail
    refine ⟨fault, ?_⟩
    rw [runInMemory_of_shaped kept hshaped, hfault]
    rfl
  case warns => exact ⟨warnings, warnings, hnull, List.Sublist.refl _, hfields⟩
  case agrees =>
    intro hnone
    rw [hnone] at hfields
    obtain rfl := List.forall₂_nil_left_iff.mp hfields
    rw [hfailures] at hnone
    rw [hnull, runInMemory_of_shaped kept hshaped, applyCalculated_error hnone]
    rfl

/-- Only an expression can keep a query from what its policy asks for. -/
theorem governed_iff (reading : p.reading c = .ok groups) :
    Governed p c groups ↔
      ∀ e label, .expression e label ∈ p.metrics → ∀ g ∈ groups,
        ∃ v, (Metric.expression e label).outcome g c.params = .ok v := by
  obtain ⟨rows, kept, reading⟩ := bind_eq_ok reading
  obtain ⟨⟨⟩, hkey, reading⟩ := bind_eq_ok reading
  obtain rfl := Except.ok.inj reading
  constructor
  · intro h e label hm
    exact failingMetrics_eq_nil_iff.mp (h.failingMetrics kept) _ hm
  · intro h
    refine Governed.of_outcomes kept hkey fun m hm g hg => ?_
    cases m with
    | aggregate func field label => exact outcome_aggregate func field label g c.params
    | expression e label => exact h e label hm g hg
    | column field label => exact ⟨_, rfl⟩

/-- A query whose input cannot be joined or grouped fails under both policies, before any expression. Of any
other one each expression is evaluated over groups of rows, and the query does what its policy asks for
exactly if no expression metric fails on one of them. -/
theorem policy_governs_iff (p : Plan) (c : StepContext) :
    (∀ fault, p.reading c = .error fault → ∀ policy, runInMemory p c policy = .error fault) ∧
      ∀ groups, p.reading c = .ok groups →
        (Governed p c groups ↔
          ∀ e label, .expression e label ∈ p.metrics → ∀ g ∈ groups,
            ∃ v, (Metric.expression e label).outcome g c.params = .ok v) :=
  ⟨fun _ reading policy => runInMemory_of_unread reading policy, fun _ reading => governed_iff reading⟩

/-! A metric and a calculated field over divisors, one of which is zero. -/

def divisor (n : Int64) : Row := Record.ofList [("v", .int n)]

/-- The remainder of an integer by the column. -/
def remainder (n : Int64) : Expr := .binary .mod (.literal (.int n)) (.field "v")

def queryOf (metrics : List Metric) (calculated : List Calculated) : Plan where
  source := "sales"
  dimensions := []
  metrics
  filter := none
  joins := []
  groupBy := []
  having := none
  calculated
  orderBy := []
  limit := none
  offset := none
  distinct := false

theorem policy_governs_iff_remainders :
    let p := queryOf [.column "v" "v", .expression (.binary .add (.field "v") (.literal (.int 1))) "next"]
      [⟨"rest", .ok (remainder 7)⟩]
    let c := salesContext [divisor 2, divisor 0]
    let groups := [[divisor 2], [divisor 0]]
    p.reading c = .ok groups ∧ p.failures c.params groups = ["rest"] ∧ Governed p c groups := by
  intro p c groups
  refine ⟨rfl, rfl, ((policy_governs_iff p c).2 groups rfl).mpr fun e label hmetric g hg => ?_⟩
  obtain ⟨rfl, rfl⟩ : e = .binary .add (.field "v") (.literal (.int 1)) ∧ label = "next" := by
    simpa [p, queryOf] using hmetric
  obtain rfl | rfl : g = [divisor 2] ∨ g = [divisor 0] := by simpa [groups] using hg
  · exact ⟨.int 3, rfl⟩
  · exact ⟨.int 1, rfl⟩

/-- A metric that fails on a row is null without a warning, also under the error policy; one that fails
inside of an aggregate ends the step, also under the null policy. -/
theorem failing_metric_ungoverned :
    let p := queryOf [.expression (remainder 7) "rest"] []
    let q := queryOf [.expression (.aggregate .sum (some (remainder 7))) "rest"] []
    let c := salesContext [divisor 0]
    let groups := [[divisor 0]]
    (p.reading c = .ok groups ∧ p.failures c.params groups = ["rest"] ∧
      runInMemory p c .error = .ok (paged none [Record.ofList [("rest", .null)]] []) ∧
      ¬ Governed p c groups) ∧
    q.reading c = .ok groups ∧ q.failures c.params groups = ["rest"] ∧
      runInMemory q c .null = .error (.expression .divisionByZero) ∧ ¬ Governed q c groups := by
  intro p q c groups
  have ungoverned : ∀ {p : Plan} {e : Expr}, p.metrics = [.expression e "rest"] →
      p.reading c = .ok groups →
      (Metric.expression e "rest").outcome [divisor 0] c.params = .error .divisionByZero →
      ¬ Governed p c groups := by
    intro p e hmetrics reading hfails governed
    obtain ⟨v, hv⟩ := (governed_iff reading).mp governed e "rest" (by simp [hmetrics]) [divisor 0]
      (by simp [groups])
    rw [hfails] at hv
    cases hv
  exact ⟨⟨rfl, rfl, rfl, ungoverned rfl rfl rfl⟩, rfl, rfl, rfl, ungoverned rfl rfl rfl⟩

end Query

end RowPipeline
