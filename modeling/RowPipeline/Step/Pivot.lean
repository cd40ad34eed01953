import RowPipeline.Expr.Window
import RowPipeline.Step

/-!
# Pivot steps

The rows are laid out as a table: one row per combination of the index fields, one column per
combination of the column fields, and in each cell a reduction of the values that fall into it.
-/

namespace RowPipeline

/-- A reduction of the values of a cell. -/
inductive CellFunction where
  | sum
  | mean
  | count
  | min
  | max
  | std
  | var
  | first
  | last
  | median
deriving DecidableEq

namespace CellFunction

def name : CellFunction → String
  | .sum => "sum"
  | .mean => "mean"
  | .count => "count"
  | .min => "min"
  | .max => "max"
  | .std => "std"
  | .var => "var"
  | .first => "first"
  | .last => "last"
  | .median => "median"

def ofJson : Json → Json.Decoded CellFunction :=
  Json.decodeChoice [("sum", .sum), ("mean", .mean), ("avg", .mean), ("average", .mean),
    ("count", .count), ("min", .min), ("max", .max), ("std", .std), ("var", .var),
    ("first", .first), ("last", .last), ("median", .median)]

/-- The variance of a sample, none below two numbers. -/
def sampleVariance? (numbers : List Float) : Option Float :=
  if numbers.length < 2 then none
  else
    let n := Binary64.ofNat numbers.length
    let mean := sumFloats numbers / n
    some (sumFloats (numbers.map fun x => (x - mean) * (x - mean)) / (n - 1))

/-- The middle one of the sorted numbers, or the mean of the middle two. -/
def median? (numbers : List Float) : Option Float :=
  let sorted := sortBy Binary64.totalCompare numbers
  let middle := sorted.length / 2
  if sorted.length % 2 = 0 then
    match sorted[middle - 1]?, sorted[middle]? with
    | some low, some high => some ((low + high) / 2)
    | _, _ => none
  else sorted[middle]?

def floatOrNull (x : Option Float) : Value := (x.map Value.float).getD .null

/-- Reduce the values of a cell. Nulls do not count, and the numeric functions skip what is no
number. -/
def apply (f : CellFunction) (values : List Value) : Value :=
  let numbers := values.filterMap Value.toFloat?
  let present := values.filter fun v => !v.isNull
  match f with
  | .sum => aggregateValues .sum values
  | .mean => aggregateValues .avg values
  | .count => aggregateValues .count values
  | .min => aggregateValues .min values
  | .max => aggregateValues .max values
  | .var => floatOrNull (sampleVariance? numbers)
  | .std => floatOrNull ((sampleVariance? numbers).map Float.sqrt)
  | .first => present.head?.getD .null
  | .last => present.getLast?.getD .null
  | .median => floatOrNull (median? numbers)

end CellFunction

namespace Pivot

open Json

structure Config where
  source : String
  index : List String
  columns : List String
  values : List String
  functions : List CellFunction
  before : Option String
  after : Option String
  fillValue : Option Value

def Config.ofJson (j : Json) : Decoded Config := do
  let s ← slots [["source"], ["index"], ["columns"], ["values"], ["aggfunc"], ["prefix"],
    ["suffix"], ["fill_value"]] j
  let names := decodeOneOrMany decodeString
  let source ← s.required "source" decodeString
  let index ← s.required "index" names
  let columns ← s.required "columns" names
  let values ← s.required "values" names
  let functions ← s.withDefault "aggfunc" [.sum] (decodeOneOrMany CellFunction.ofJson)
  let before ← s.optional "prefix" decodeString
  let after ← s.optional "suffix" decodeString
  let fillValue ← s.optional "fill_value" fun j => .ok (Value.ofJson j)
  return ⟨source, index, columns, values, functions, before, after, fillValue⟩

/-- The values of some fields of a row. -/
def tuple (fields : List String) (row : Row) : List Value := fields.map row.lookupD

/-- The distinct combinations of some fields in ascending order. -/
def sortedTuples (fields : List String) (rows : List Row) : List (List Value) :=
  let ascending := fields.map fun _ => false
  sortBy (fun a b => compareSortKeys a b ascending)
    (distinctByKey compositeKey (rows.map (tuple fields)))

/-- A column of the table: the function and field of its cells, and the key of the column fields. -/
structure Column where
  name : String
  function : CellFunction
  field : String
  key : String

/-- The name of a column is made of what tells it from the others. -/
def columnName (config : Config) (f : CellFunction) (field : String) (values : List Value) :
    String :=
  let parts := (if 1 < config.functions.length then [f.name] else []) ++
    (if 1 < config.values.length then [field] else []) ++ values.map Value.display
  config.before.getD "" ++ "_".intercalate parts ++ config.after.getD ""

/-- The columns of the table: for every function and every value field, all combinations. -/
def tableColumns (config : Config) (rows : List Row) : List Column :=
  let tuples := sortedTuples config.columns rows
  config.functions.flatMap fun f =>
    config.values.flatMap fun field =>
      tuples.map fun values => ⟨columnName config f field values, f, field, compositeKey values⟩

/-- The value in the cell of a column, given the rows of the cell. -/
def cellValue (config : Config) (column : Column) (cell : List Row) : Value :=
  if cell.isEmpty then config.fillValue.getD .null
  else column.function.apply (cell.map fun r => r.lookupD column.field)

/-- The table as rows. -/
def table (config : Config) (rows : List Row) : Except Fault (List Row) := do
  if config.columns.isEmpty || config.values.isEmpty || config.functions.isEmpty then
    throw (.failed "Pivot needs columns, values and aggfunc")
  (config.index ++ config.columns ++ config.values).forM fun f => requireField rows f "pivot"
  let columns := tableColumns config rows
  let keyed := rows.map fun r =>
    (compositeKey (tuple config.index r), compositeKey (tuple config.columns r), r)
  return (sortedTuples config.index rows).map fun values =>
    let line := (keyed.filter fun k => k.1 = compositeKey values).map Prod.snd
    let cell (column : Column) := (line.filter fun k => k.1 = column.key).map Prod.snd
    (Record.ofList (config.index.zip values)).insertAll
      (columns.map fun column => (column.name, cellValue config column (cell column)))

/-- Carry out a pivot step. -/
def run : StepEngine := fun c => do
  let config ← c.readConfig Config.ofJson
  let source ← c.input config.source
  let rows ← table config source
  let generated := (rows.head?.map Record.size).getD 0 - config.index.length
  return { rows, details := .object [("generated_columns", .ofNat generated)] }

end Pivot

end RowPipeline
