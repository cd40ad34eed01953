import RowPipeline.Step.Query.Plan

/-!
# Queries over tables

A plan becomes one SELECT. Only an order by calculated fields, and the windows after it, are left to
be done on the rows that come back.
-/

namespace RowPipeline.Query

/-- A column name with its table, unless it names one already. -/
def qualify (table name : String) : String :=
  if name.toList.contains '.' then name else table ++ "." ++ name

mutual

def qualifyFilter (table : String) : FilterNode → FilterNode
  | .logical op children => .logical op (qualifyFilters table children)
  | .leaf c => .leaf { c with field := qualify table c.field }

def qualifyFilters (table : String) : List FilterNode → List FilterNode
  | [] => []
  | n :: rest => qualifyFilter table n :: qualifyFilters table rest

end

namespace Plan

/-- The name of a column in the statement: qualified when there are joins. -/
def columnName (p : Plan) (name : String) : String :=
  if p.joins.isEmpty then name else qualify p.source name

def selectColumn (p : Plan) (field output : String) : SelectField :=
  let name := p.columnName field
  .column name (if name = output then none else some output)

def selectMetric (p : Plan) : Metric → SelectField
  | .aggregate func field label => .aggregate func (field.map p.columnName) label
  | .expression e label => .expression e label
  | .column field label => p.selectColumn field label

/-- The statement of a plan, without its window. -/
def toSelect (p : Plan) : SelectSpec where
  fields := (p.dimensions.map fun d => p.selectColumn d.field d.outputName) ++
    p.metrics.map p.selectMetric
  table := p.source
  tableAlias := none
  joins := p.joins.map fun j =>
    { j with on := j.on.map fun on =>
        ⟨qualify p.source on.left, qualify j.qualifier on.right⟩ }
  filter := if p.joins.isEmpty then p.filter else p.filter.map (qualifyFilter p.source)
  groupBy := if p.isGrouped then p.groupKey.map p.columnName else []
  having := p.having
  orderBy := if p.ordersByCalculated then [] else p.orderBy
  limit := none
  offset := none
  distinct := p.distinct

/-- The statement with the window of the plan, if the database orders the rows. -/
def toWindowedSelect (p : Plan) : SelectSpec :=
  if p.ordersByCalculated then p.toSelect
  else { p.toSelect with limit := p.limit, offset := p.offset }

/-- Whether all rows make one group. -/
def isSingleRow (p : Plan) : Bool := p.isGrouped && p.groupKey.isEmpty

/-- The limit and offset of a page inside the window of the plan. -/
def pageWindow (p : Plan) (page : Pagination) : UInt64 × UInt64 :=
  let offset := saturate ((p.offset.getD 0).toNat + page.offset.toNat)
  let limit := match p.limit with
    | some limit => min page.limit (limit.toNat - page.offset.toNat).toUInt64
    | none => page.limit
  (limit, offset)

/-- The number of rows in the window of the plan out of `count`. -/
def windowedTotal (p : Plan) (count : UInt64) : UInt64 :=
  let available := (count.toNat - (p.offset.getD 0).toNat).toUInt64
  match p.limit with
  | some limit => min available limit
  | none => available

end Plan

/-- The SQL text a query step sends; none when it reads another step. -/
def previewSql (config : Json) (dependencies : List String) (d : Dialect) :
    Except Fault (Option String) := do
  let config ← match Config.ofJson config with
    | .ok config => pure config
    | .error e => throw (.failed ("Invalid query config: " ++ e.message))
  let plan ← Plan.ofConfig config
  if plan.source ∈ dependencies then return none
  match plan.toWindowedSelect.toSql d with
  | .ok sql => return some sql
  | .error e => throw (.failed e.message)

def rendered (r : Sql.Rendered) : Except Fault String := r.mapError fun e => .failed e.message

/-- The count in the answer to a counting query. -/
def countOf (rows : List Row) : UInt64 :=
  match rows with
  | [] => 0
  | row :: _ =>
      match (row.lookupD "total_count").toInt64? with
      | some n => n.toInt.toNat.toUInt64
      | none => 0

/-- Count the rows before a page of them is cut: the total, and the detail that shows the query. -/
def countRows (p : Plan) (connector : Connector) (d : Dialect) :
    Sending (UInt64 × List (String × Json)) := do
  if p.isSingleRow then return (1, [])
  let sql ← rendered (p.toWindowedSelect.toCountSql d)
  let rows ← connector.send sql
  return (countOf rows, [("count_sql", .string sql)])

/-- The rows of a result sorted by calculated fields, cut to the plan's window and to the page. -/
def orderInMemory (p : Plan) (page : Option Pagination) (rows : List Row) :
    List Row × Option UInt64 :=
  let rows := cutWindow p.limit p.offset (sortRows p.sortKeys rows)
  match page with
  | some page =>
      (cutWindow (some page.limit) (some page.offset) rows, some rows.length.toUInt64)
  | none => (rows, none)

/-- Carry out a plan over a table. -/
def runOnTable (p : Plan) (c : StepContext) (policy : ExpressionFailure) : Sending StepOutput := do
  if let some j := p.joins.find? fun j => c.dependsOn j.table then
    throw (.failed ("Cannot join upstream step '" ++ j.table ++ "' to table '" ++ p.source ++
      "'; query the step instead"))
  let connector ← c.requireConnector
  let (spec, total, counted) ← match p.ordersByCalculated, c.pagination with
    | false, some page => do
        let (count, counted) ← countRows p connector c.dialect
        let (limit, offset) := p.pageWindow page
        pure ({ p.toSelect with limit := some limit, offset := some offset },
          some (p.windowedTotal count), counted)
    | _, _ => pure (p.toWindowedSelect, none, [])
  let sql ← rendered (spec.toSql c.dialect)
  let rows ← connector.send sql
  let details : Json := .object (counted ++ [("sql", .string sql)])
  let (calculated, warnings) ←
    applyCalculated none c.params policy p.calculated (rows.map fun r => (r, r))
  let output := calculated.map Prod.fst
  if p.ordersByCalculated then
    let (output, total) := orderInMemory p c.pagination output
    return { rows := output, totalCount := total, warnings, details }
  else return { rows := output, totalCount := total, warnings, details }

end RowPipeline.Query
