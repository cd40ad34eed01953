import RowPipeline.Step

/-!
# Union steps

The rows of several steps are brought to common columns and combined as sets or as lists.
-/

namespace RowPipeline.Union

open Json

inductive Mode where
  | union
  | unionAll
  | intersect
  | except
deriving DecidableEq

structure Config where
  sources : List String
  mode : Mode

def decodeMode : Json → Decoded Mode :=
  decodeChoice [("union", .union), ("union_all", .unionAll), ("intersect", .intersect),
    ("except", .except)]

def Config.ofJson (j : Json) : Decoded Config := do
  let s ← slots [["sources"], ["mode"]] j
  let sources ← s.required "sources" (decodeArray decodeString)
  return ⟨sources, ← s.withDefault "mode" .union decodeMode⟩

/-- The columns of all row sets in order of first appearance. -/
def commonColumns (sets : List (List Row)) : List String := columnNames sets.flatten

/-- A row in the given columns, null where it has none. -/
def align (columns : List String) (row : Row) : Row :=
  Record.ofList (columns.map fun c => (c, (row.get? c).getD .null))

def identities (rows : List Row) : List String := rows.map Row.identity

/-- Combine aligned row sets, the first with all others. All modes but `unionAll` leave each row
once. -/
def combineAligned (mode : Mode) (first : List Row) (others : List (List Row)) : List Row :=
  match mode with
  | .unionAll => first ++ others.flatten
  | .union => distinctRows (first ++ others.flatten)
  | .intersect =>
      let known := others.map identities
      distinctRows (first.filter fun row => known.all fun ids => row.identity ∈ ids)
  | .except =>
      let excluded := identities others.flatten
      distinctRows (first.filter fun row => row.identity ∉ excluded)

/-- Combine row sets. -/
def combine (mode : Mode) (sets : List (List Row)) : List Row :=
  match sets.map fun set => set.map (align (commonColumns sets)) with
  | [] => []
  | first :: others => combineAligned mode first others

/-- Carry out a union step. -/
def run : StepEngine := fun c => do
  let config ← c.readConfig Config.ofJson
  if config.sources.isEmpty then throw (.failed "Union step needs at least one source")
  let sets ← config.sources.mapM fun name => (c.input name : Except Fault (List Row))
  return {
    rows := combine config.mode sets
    details := .object [("input_rows", .ofNat sets.flatten.length)] }

end RowPipeline.Union
