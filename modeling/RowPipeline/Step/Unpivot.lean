import RowPipeline.Step

/-!
# Unpivot steps

Each value column of a row becomes a row of its own, with the name of the column and its value
beside the identifying columns.
-/

namespace RowPipeline.Unpivot

open Json

structure Config where
  source : String
  idColumns : List String
  valueColumns : List String
  nameColumn : String
  valueColumn : String
  dropNulls : Bool

def Config.ofJson (j : Json) : Decoded Config := do
  let s ← slots [["source"], ["id_vars"], ["value_vars"], ["var_name"], ["value_name"],
    ["dropna"]] j
  let names := decodeOneOrMany decodeString
  let source ← s.required "source" decodeString
  let idColumns ← s.withDefault "id_vars" [] names
  let valueColumns ← s.withDefault "value_vars" [] names
  let nameColumn ← s.withDefault "var_name" "variable" decodeString
  let valueColumn ← s.withDefault "value_name" "value" decodeString
  let dropNulls ← s.withDefault "dropna" false decodeBool
  return ⟨source, idColumns, valueColumns, nameColumn, valueColumn, dropNulls⟩

/-- The value columns; without any given, all that do not identify the row. -/
def valueColumnsOf (config : Config) (rows : List Row) : List String :=
  if config.valueColumns.isEmpty then
    (columnNames rows).filter fun c => c ∉ config.idColumns
  else config.valueColumns

/-- The value a row has in a column of exactly this name, else null. -/
def exactValue (row : Row) (column : String) : Value := (row.get? column).getD .null

/-- The row for one value column. -/
def longRow (config : Config) (row : Row) (column : String) : Row :=
  let ids : Row := Record.ofList (config.idColumns.map fun c => (c, exactValue row c))
  (ids.insert config.nameColumn (.string column)).insert config.valueColumn (exactValue row column)

/-- The rows for all value columns. -/
def longRows (config : Config) (rows : List Row) : Except Fault (List Row) := do
  let columns := valueColumnsOf config rows
  (config.idColumns ++ columns).forM fun f => requireField rows f "unpivot"
  if config.nameColumn ∈ config.idColumns || config.valueColumn ∈ config.idColumns then
    throw (.failed ("Unpivot output columns '" ++ config.nameColumn ++ "'/'" ++
      config.valueColumn ++ "' clash with id_vars"))
  return rows.flatMap fun row =>
    (columns.filter fun c => !(config.dropNulls && (exactValue row c).isNull)).map
      (longRow config row)

/-- Carry out an unpivot step. -/
def run : StepEngine := fun c => do
  let config ← c.readConfig Config.ofJson
  let source ← c.input config.source
  return { rows := ← longRows config source }

end RowPipeline.Unpivot
