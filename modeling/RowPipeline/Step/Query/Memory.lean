import RowPipeline.Step.Query.Plan

/-!
# Queries over the rows of other steps

Join, filter, group or project, calculate, filter again, drop repeated rows, sort, and cut.
-/

namespace RowPipeline.Query

/-! ## Joins -/

/-- A row with null in every column. -/
def nullRow (columns : List String) : Row := Record.ofList (columns.map fun c => (c, .null))

/-- Both rows in one. A column that the left row has too goes under its qualified name. -/
def mergeRows (qualifier : String) (left right : Row) : Row :=
  right.entries.foldl (fun merged p =>
    if left.contains p.1 then merged.insert (qualifier ++ "." ++ p.1) p.2
    else merged.insert p.1 p.2) left

/-- Join two row sets. A row without a partner is kept where its side is an outer one, with nulls
for the other side. -/
def joinRows (left right : List Row) (j : JoinClause) : Except Fault (List Row) := do
  let leftFields := j.on.map (·.left)
  let rightFields := j.on.map (·.right)
  leftFields.forM fun f => requireField left f "join"
  rightFields.forM fun f => requireField right f "join"
  let qualifier := j.qualifier
  let index := indexByKey rightFields right
  let matched := left.map fun l => (l, matchesIn index (joinKey? leftFields l))
  let fromLeft := matched.flatMap fun (l, partners) =>
    if partners.isEmpty then
      if j.type = .left || j.type = .full then
        [mergeRows qualifier l (nullRow (columnNames right))]
      else []
    else partners.map fun r => mergeRows qualifier l r.2
  let used := matched.flatMap fun m => m.2.map Prod.fst
  let fromRight :=
    if j.type = .right || j.type = .full then
      (right.zipIdx.filter fun r => r.2 ∉ used).map fun r =>
        mergeRows qualifier (nullRow (columnNames left)) r.1
    else []
  return fromLeft ++ fromRight

/-- Join the rows with each of the steps a plan names. -/
def joinAll (p : Plan) (c : StepContext) : List JoinClause → List Row → Except Fault (List Row)
  | [], rows => .ok rows
  | j :: rest, rows => do
      if !c.dependsOn j.table then
        throw (.failed ("Cannot join table '" ++ j.table ++
          "' in memory; only upstream steps can be joined to '" ++ p.source ++ "'"))
      let right ← c.input j.table
      joinAll p c rest (← joinRows rows right j)

/-! ## Groups and projections -/

/-- The value of an expression on a row; any failure is null. -/
def valueOrNull (e : Expr) (row : Row) (params : Parameters) : Value :=
  match e.eval ⟨some row, some params, fun _ => none⟩ with
  | .ok v => v
  | .error _ => .null

def firstField (group : List Row) (field : String) : Value :=
  match group with
  | [] => .null
  | row :: _ => row.lookupD field

/-- The value of a metric over a group. -/
def metricValue (m : Metric) (group : List Row) (params : Parameters) : Except Fault Value :=
  match m with
  | .aggregate func field _ =>
      (Expr.evalAggregate func (field.map Expr.field) group (some params)).mapError .expression
  | .expression e _ => do
      let filled ← (e.fillAggregates group (some params)).mapError Fault.expression
      return valueOrNull filled (group.headD .empty) params
  | .column field _ => .ok (firstField group field)

def groupRowKey (fields : List String) (row : Row) : String :=
  compositeKey (fields.map row.lookupD)

/-- The dimensions and metrics of a group as a row. -/
def groupRow (p : Plan) (params : Parameters) (group : List Row) : Except Fault Row := do
  let keys : Row :=
    if p.dimensions.isEmpty then
      Record.ofList (p.groupKey.map fun f => (f, firstField group f))
    else Record.ofList (p.dimensions.map fun d => (d.outputName, firstField group d.field))
  p.metrics.foldlM (fun row m => do return row.insert m.label (← metricValue m group params)) keys

/-- The groups of the rows in order of first appearance, and a result row for each. Without a key
all rows are one group, even when there are none. -/
def groupRows (p : Plan) (params : Parameters) (rows : List Row) :
    Except Fault (List Row × List (List Row)) := do
  p.groupKey.forM fun f => requireField rows f "group_by"
  let groups := (groupByKey (groupRowKey p.groupKey) rows).map Prod.snd
  let groups := if groups.isEmpty && p.groupKey.isEmpty then [[]] else groups
  let output ← groups.mapM (groupRow p params)
  return (output, groups)

/-- The value of a metric on a single row. -/
def projectedMetric (m : Metric) (row : Row) (params : Parameters) : Value :=
  match m with
  | .column field _ => row.lookupD field
  | .expression e _ => valueOrNull e row params
  | .aggregate .. => .null

/-- The dimensions and metrics of a row; without any of them the row itself. -/
def projectRow (p : Plan) (params : Parameters) (row : Row) : Row :=
  if p.dimensions.isEmpty && p.metrics.isEmpty then row
  else
    let keys : Row := Record.ofList (p.dimensions.map fun d => (d.outputName, row.lookupD d.field))
    p.metrics.foldl (fun out m => out.insert m.label (projectedMetric m row params)) keys

/-- Result rows paired with what expressions see of them: the group's row, or the source row with
the projected columns entered. -/
def shapeRows (p : Plan) (params : Parameters) (rows : List Row) :
    Except Fault (PairedRows × Option (List (List Row))) :=
  if p.isGrouped then do
    let (output, groups) ← groupRows p params rows
    return (output.map fun r => (r, r), some groups)
  else
    .ok (rows.map fun r =>
      let projected := projectRow p params r
      (projected, r.insertAll projected.entries), none)

/-- Carry out a plan over the rows of other steps. -/
def runInMemory (p : Plan) (c : StepContext) (policy : ExpressionFailure) :
    Except Fault StepOutput := do
  let source ← c.input p.source
  let joined ← joinAll p c p.joins source
  let kept := match p.filter with
    | some n => joined.filter n.accepts
    | none => joined
  let (shaped, groups) ← shapeRows p c.params kept
  let (calculated, warnings) ← applyCalculated groups c.params policy p.calculated shaped
  let output := calculated.map Prod.fst
  let output := match p.having with
    | some n => output.filter n.accepts
    | none => output
  let output := if p.distinct then distinctRows output else output
  let output := cutWindow p.limit p.offset (sortRows p.sortKeys output)
  match c.pagination with
  | some page =>
      return {
        rows := cutWindow (some page.limit) (some page.offset) output
        totalCount := some output.length.toUInt64
        warnings }
  | none => return { rows := output, warnings }

end RowPipeline.Query
