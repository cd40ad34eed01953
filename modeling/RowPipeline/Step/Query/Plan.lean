import RowPipeline.Expr.Parser
import RowPipeline.Filter.Codec
import RowPipeline.Sql.Select
import RowPipeline.Step

/-!
# Query plans

The settings of a query step and the plan made of them, which both ways of running a query share: a
source that is another step is queried in memory, any other is a table of the database.
-/

namespace RowPipeline

namespace Query

open Json

/-- A column of the result, perhaps under another name. -/
structure Dimension where
  field : String
  label : Option String

def Dimension.outputName (d : Dimension) : String := d.label.getD d.field

def Dimension.ofJson : Json → Decoded Dimension
  | .string name => .ok ⟨name, none⟩
  | .object fields => do
      let s ← objectSlots fields [["field"], ["alias"]]
      return ⟨← s.required "field" decodeString, ← s.optional "alias" decodeString⟩
  | _ => .error (.expected "a dimension")

/-- A metric as written. -/
structure MetricConfig where
  name : String
  field : Option String
  aggregation : Option String
  expression : Option String

def MetricConfig.ofJson (j : Json) : Decoded MetricConfig := do
  let s ← slots [["name"], ["field"], ["aggregation"], ["expression"]] j
  let name ← s.required "name" decodeString
  let field ← s.optional "field" decodeString
  let aggregation ← s.optional "aggregation" decodeString
  return ⟨name, field, aggregation, ← s.optional "expression" decodeString⟩

/-- A join condition as written: a text, or its two sides. -/
inductive JoinCondition where
  | text (s : String)
  | pair (on : JoinOn)

def JoinCondition.ofJson : Json → Decoded JoinCondition
  | .string s => .ok (.text s)
  | .object fields => do
      let s ← objectSlots fields [["left"], ["right"]]
      return .pair ⟨← s.required "left" decodeString, ← s.required "right" decodeString⟩
  | _ => .error (.expected "a join condition")

structure JoinConfig where
  type : Option String
  table : String
  tableAlias : Option String
  on : List JoinCondition

def JoinConfig.ofJson (j : Json) : Decoded JoinConfig := do
  let s ← slots [["type"], ["table"], ["alias"], ["on"]] j
  let type ← s.optional "type" decodeString
  let table ← s.required "table" decodeString
  let tableAlias ← s.optional "alias" decodeString
  return ⟨type, table, tableAlias, ← s.required "on" (decodeOneOrMany JoinCondition.ofJson)⟩

/-- A sort key as a text or with a direction. -/
def orderOfJson : Json → Decoded OrderBy
  | .string s => .ok (OrderBy.ofText s)
  | .object fields => do
      let s ← objectSlots fields [["field"], ["direction"]]
      let field ← s.required "field" decodeString
      let direction ← s.optional "direction" decodeString
      return ⟨field, direction.any fun d => Text.sameIgnoringCase d "desc"⟩
  | _ => .error (.expected "a sort key")

/-- A calculated field as written. -/
structure CalculatedConfig where
  name : String
  expression : String

def CalculatedConfig.ofJson (j : Json) : Decoded CalculatedConfig := do
  let s ← slots [["name"], ["expression"]] j
  return ⟨← s.required "name" decodeString, ← s.required "expression" decodeString⟩

structure Config where
  source : String
  dimensions : List Dimension
  metrics : List MetricConfig
  filters : Option Json
  whereFilter : Option Json
  joins : List JoinConfig
  groupBy : List String
  having : Option Json
  calculated : List CalculatedConfig
  orderBy : List OrderBy
  limit : Option UInt64
  offset : Option UInt64
  distinct : Bool
  expressionFailure : Option ExpressionFailure

def Config.ofJson (j : Json) : Decoded Config := do
  let s ← slots [["data_source"], ["dimensions"], ["metrics"], ["filters"], ["where"], ["joins"],
    ["group_by"], ["having"], ["calculated_fields"], ["order_by"], ["limit"], ["offset"],
    ["distinct"], ["expression_failure"]] j
  let source ← s.required "data_source" decodeString
  let dimensions ← s.withDefault "dimensions" [] (decodeArray Dimension.ofJson)
  let metrics ← s.withDefault "metrics" [] (decodeArray MetricConfig.ofJson)
  let filters ← s.optional "filters" decodeAny
  let whereFilter ← s.optional "where" decodeAny
  let joins ← s.withDefault "joins" [] (decodeArray JoinConfig.ofJson)
  let groupBy ← s.withDefault "group_by" [] (decodeOneOrMany decodeString)
  let having ← s.optional "having" decodeAny
  let calculated ← s.withDefault "calculated_fields" [] (decodeArray CalculatedConfig.ofJson)
  let orderBy ← s.withDefault "order_by" [] (decodeOneOrMany orderOfJson)
  let limit ← s.optional "limit" decodeUInt64
  let offset ← s.optional "offset" decodeUInt64
  let distinct ← s.withDefault "distinct" false decodeBool
  let expressionFailure ← s.optional "expression_failure" EngineConfig.decodeExpressionFailure
  return ⟨source, dimensions, metrics, filters, whereFilter, joins, groupBy, having, calculated,
    orderBy, limit, offset, distinct, expressionFailure⟩

/-- A column of the result that is not just a dimension. -/
inductive Metric where
  | aggregate (func : AggregateFunction) (field : Option String) (label : String)
  | expression (e : Expr) (label : String)
  | column (field label : String)

namespace Metric

def label : Metric → String
  | .aggregate _ _ label => label
  | .expression _ label => label
  | .column _ label => label

def isAggregate : Metric → Bool
  | .aggregate .. => true
  | .expression e _ => e.containsAggregate
  | .column .. => false

/-- The argument of an aggregate: its field, for COUNT none, else the column of the metric's name. A
star stands for no field. -/
def argument (func : AggregateFunction) (field : Option String) (name : String) : Option String :=
  match field with
  | some f => if f = "*" then (if func = .count then none else some name) else some f
  | none => if func = .count then none else some name

def ofConfig (m : MetricConfig) : Except Fault Metric :=
  match m.expression, m.aggregation with
  | some text, _ =>
      match Expr.parse text with
      | .ok e => .ok (.expression e m.name)
      | .error e =>
          .error (.failed ("Invalid expression for metric '" ++ m.name ++ "': " ++ e.message))
  | none, some name =>
      match AggregateFunction.ofName? name with
      | some func => .ok (.aggregate func (argument func m.field m.name) m.name)
      | none =>
          .error (.failed ("Unknown aggregation '" ++ name ++ "' for metric '" ++ m.name ++ "'"))
  | none, none => .ok (.column (m.field.getD m.name) m.name)

end Metric

/-- A field calculated from the other columns of a row; an expression that does not read is kept as
its failure. -/
structure Calculated where
  name : String
  expr : Except ExpressionError Expr

structure Plan where
  source : String
  dimensions : List Dimension
  metrics : List Metric
  filter : Option FilterNode
  joins : List JoinClause
  groupBy : List String
  having : Option FilterNode
  calculated : List Calculated
  orderBy : List OrderBy
  limit : Option UInt64
  offset : Option UInt64
  distinct : Bool

/-- Read the filter under a key. -/
def readFilter (raw : Option Json) (key : String) : Except Fault (Option FilterNode) :=
  match FilterNode.ofJson (raw.getD .null) with
  | .ok n => .ok n
  | .error e => .error (.failed ("Invalid " ++ key ++ ": " ++ e.toParseError.text))

/-- Both filters have to hold where both are given. -/
def bothFilters : Option FilterNode → Option FilterNode → Option FilterNode
  | some a, some b => some (.logical .and [a, b])
  | some a, none => some a
  | none, b => b

def joinOfConfig (j : JoinConfig) : Except Fault JoinClause := do
  let type ← match j.type with
    | some text => (JoinType.read text).mapError .parse
    | none => pure .inner
  let on ← j.on.mapM fun
    | .text s => (JoinOn.read s).mapError Fault.parse
    | .pair on => pure on
  if on.isEmpty then throw (.failed (SqlError.joinWithoutCondition j.table).message)
  return ⟨type, j.table, j.tableAlias, on⟩

namespace Plan

def ofConfig (c : Config) : Except Fault Plan := do
  if (Text.trimBlanks c.source).isEmpty then throw (.failed "Query step requires a data_source")
  let metrics ← c.metrics.mapM Metric.ofConfig
  let filters ← readFilter c.filters "filters"
  let whereFilter ← readFilter c.whereFilter "where"
  let joins ← c.joins.mapM joinOfConfig
  let having ← readFilter c.having "having"
  return {
    source := c.source
    dimensions := c.dimensions
    metrics
    filter := bothFilters filters whereFilter
    joins
    groupBy := c.groupBy
    having
    calculated := c.calculated.map fun f => ⟨f.name, Expr.parse f.expression⟩
    orderBy := c.orderBy.filter fun key => !key.field.isEmpty
    limit := c.limit
    offset := c.offset
    distinct := c.distinct }

/-- Whether result rows stand for groups. -/
def isGrouped (p : Plan) : Bool := !p.groupBy.isEmpty || p.metrics.any Metric.isAggregate

/-- The fields that make up a group. -/
def groupKey (p : Plan) : List String :=
  if p.groupBy.isEmpty then p.dimensions.map (·.field) else p.groupBy

def ordersByCalculated (p : Plan) : Bool :=
  p.orderBy.any fun key => p.calculated.any fun c => c.name == key.field

/-- The sort keys as columns and directions. -/
def sortKeys (p : Plan) : List (String × Bool) :=
  p.orderBy.map fun key => (key.field, key.descending)

end Plan

/-! ## Calculated fields -/

/-- Rows of the result together with the rows that expressions see. -/
abbrev PairedRows := List (Row × Row)

/-- The values of results where failures count as null, the number of failures and the first one. -/
def nullFailures : List (Except ExpressionError Value) →
    List Value × Nat × Option ExpressionError
  | [] => ([], 0, none)
  | .ok v :: rest =>
      let (values, failed, first) := nullFailures rest
      (v :: values, failed, first)
  | .error e :: rest =>
      let (values, failed, _) := nullFailures rest
      (.null :: values, failed + 1, some e)

/-- The values of a calculated field and the warning they lead to. -/
def calculatedValues (f : Calculated) (seen : List Row) (groups : Option (List (List Row)))
    (params : Parameters) (policy : ExpressionFailure) :
    Except Fault (List Value × Option String) :=
  match f.expr with
  | .error e =>
      match policy with
      | .error => .error (.expression e)
      | .null =>
          .ok (seen.map fun _ => .null,
            some ("Calculated field '" ++ f.name ++ "' is invalid: " ++ e.message))
  | .ok e =>
      let results := e.evalRows seen groups (some params)
      match policy with
      | .error => do
          let values ← results.mapM fun r => r.mapError Fault.expression
          return (values, none)
      | .null =>
          let (values, failed, first) := nullFailures results
          .ok (values, first.map fun err =>
            "Calculated field '" ++ f.name ++ "' failed on " ++ toString failed ++ " row(s): " ++
              err.message)

/-- Add the calculated fields to the rows, one field after the other, so that a later one sees the
earlier ones. -/
def applyCalculated (groups : Option (List (List Row))) (params : Parameters)
    (policy : ExpressionFailure) :
    List Calculated → PairedRows → Except Fault (PairedRows × List String)
  | [], rows => .ok (rows, [])
  | f :: rest, rows => do
      let (values, warning) ← calculatedValues f (rows.map Prod.snd) groups params policy
      let added := (rows.zip values).map fun ((row, seen), v) =>
        (row.insert f.name v, seen.insert f.name v)
      let (rows, warnings) ← applyCalculated groups params policy rest added
      return (rows, warning.toList ++ warnings)

end Query

end RowPipeline
