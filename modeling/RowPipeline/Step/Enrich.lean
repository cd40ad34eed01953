import RowPipeline.Filter.Codec
import RowPipeline.Sql.Select
import RowPipeline.Step

/-!
# Enrich steps

The rows of a source are joined with those of a lookup, which is another step or a table. Columns of
the lookup that the source has too get a numbered name.
-/

namespace RowPipeline

namespace Enrich

open Json

/-- Which side's rows stay without a partner. -/
inductive How where
  | left
  | right
  | inner
  | outer
deriving DecidableEq

def How.keepsLeft (h : How) : Bool := h = .left || h = .outer

def How.keepsRight (h : How) : Bool := h = .right || h = .outer

/-- What becomes of a source row without a partner that stays: null in the lookup columns, nothing,
or the fill value. -/
inductive OnMissing where
  | keep
  | drop
  | fill
deriving DecidableEq

/-- Where the lookup rows come from. -/
inductive Lookup where
  | step (name : String)
  | table (name : String) (fields : List String) (filter : Option Json)
  | unspecified

structure Config where
  source : String
  lookup : Lookup
  on : List JoinOn
  how : How
  lookupFields : Option (List String)
  onMissing : OnMissing
  fillValue : Value

/-- A join key: one name for both sides, or a name for each. -/
def decodeKey : Json → Decoded JoinOn
  | .string name => .ok ⟨name, name⟩
  | .object fields => do
      let s ← objectSlots fields [["left"], ["right"]]
      return ⟨← s.required "left" decodeString, ← s.required "right" decodeString⟩
  | _ => .error (.expected "a join key")

/-- A lookup: the name of a step, or an object. A step goes before a table. -/
def decodeLookup : Json → Decoded Lookup
  | .string name => .ok (.step name)
  | .object fields => do
      let s ← objectSlots fields [["step"], ["table"], ["fields"], ["where"]]
      let step ← s.optional "step" decodeString
      let table ← s.optional "table" decodeString
      let fields ← s.withDefault "fields" [] (decodeArray decodeString)
      let filter ← s.optional "where" decodeAny
      match step, table with
      | some step, _ => return .step step
      | none, some table => return .table table fields filter
      | none, none => return .unspecified
  | _ => .error (.expected "a lookup")

def decodeHow : Json → Decoded How :=
  decodeChoice [("left", .left), ("right", .right), ("inner", .inner), ("outer", .outer),
    ("full", .outer)]

def decodeOnMissing : Json → Decoded OnMissing :=
  decodeChoice [("keep", .keep), ("drop", .drop), ("fill", .fill)]

def Config.ofJson (j : Json) : Decoded Config := do
  let s ← slots [["source"], ["lookup"], ["on"], ["how"], ["lookup_fields"], ["on_missing"],
    ["fill_value"]] j
  let source ← s.required "source" decodeString
  let lookup ← s.required "lookup" decodeLookup
  let on ← s.required "on" (decodeOneOrMany decodeKey)
  let how ← s.withDefault "how" .left decodeHow
  let lookupFields ← s.optional "lookup_fields" (decodeArray decodeString)
  let onMissing ← s.withDefault "on_missing" .keep decodeOnMissing
  let fillValue ← s.withDefault "fill_value" .null fun j => .ok (Value.ofJson j)
  return ⟨source, lookup, on, how, lookupFields, onMissing, fillValue⟩

/-! ## Lookup rows -/

/-- The rows of the lookup and the SQL they were asked for with. -/
def lookupRows (lookup : Lookup) (c : StepContext) : Sending (List Row × Option String) :=
  match lookup with
  | .step name => do return (← c.input name, none)
  | .unspecified => throw (.failed "Enrich lookup needs a step or a table")
  | .table name fields filter => do
      let filter ← (FilterNode.ofJson (filter.getD .null)).mapError
        fun e => Fault.parse e.toParseError
      let spec := { SelectSpec.allOf name with
        fields := fields.map fun f => .column f none
        filter }
      let sql ← (spec.toSql c.dialect).mapError fun e => Fault.failed e.message
      let connector ← c.requireConnector
      return (← connector.send sql, some sql)

/-! ## The join -/

/-- The first numbered form of a name that is not taken. One of the first `taken.length + 1` forms
is free. -/
def numbered (name : String) (taken : List String) : String :=
  (((List.range (taken.length + 1)).map fun n => name ++ "_" ++ toString (n + 1)).find?
    fun candidate => candidate ∉ taken).getD name

/-- The lookup columns paired with their names in the result. -/
def renames (taken : List String) : List String → List (String × String)
  | [] => []
  | column :: rest =>
      let output := if column ∈ taken then numbered column taken else column
      (column, output) :: renames (taken ++ [output]) rest

/-- The lookup columns that go into the result: a key with one name on both sides does not, other
keys do. -/
def lookupColumns (config : Config) (right : List Row) : List String :=
  (columnNames right).filter fun column =>
    !(config.on.any fun on => on.left = column && on.right = column) &&
      config.lookupFields.all fun fields =>
        column ∈ fields || config.on.any fun on => on.right = column

/-- A row in the given columns, null where it has none. -/
def project (columns : List String) (row : Row) : Row :=
  Record.ofList (columns.map fun c => (c, (row.get? c).getD .null))

/-- Enter the lookup columns into a row. -/
def withLookup (names : List (String × String)) (base : Row) (value : String → Value) : Row :=
  base.insertAll (names.map fun n => (n.2, value n.1))

/-- The result rows of a source row with its partners. -/
def rowsOf (config : Config) (names : List (String × String)) (base : Row)
    (partners : List Row) : List Row :=
  if partners.isEmpty then
    if config.how.keepsLeft then
      match config.onMissing with
      | .keep => [withLookup names base fun _ => .null]
      | .fill => [withLookup names base fun _ => config.fillValue]
      | .drop => []
    else []
  else partners.map fun r => withLookup names base fun column => (r.get? column).getD .null

/-- The result row of a lookup row without a partner: the source columns are null but for the keys
with one name. -/
def lookupOnlyRow (config : Config) (names : List (String × String)) (leftColumns : List String)
    (row : Row) : Row :=
  let keys := (config.on.filter fun on => on.left = on.right).map fun on =>
    (on.left, row.lookupD on.right)
  let base := (Record.ofList (leftColumns.map fun c => (c, Value.null))).insertAll keys
  withLookup names base fun column => (row.get? column).getD .null

/-- The joined rows and the number of source rows with a partner. -/
structure Joined where
  rows : List Row
  matched : Nat

def join (config : Config) (left right : List Row) : Except Fault Joined := do
  if config.on.isEmpty then throw (.failed "Enrich step needs at least one join key")
  let leftKeys := config.on.map (·.left)
  let rightKeys := config.on.map (·.right)
  leftKeys.forM fun f => requireField left f "join"
  rightKeys.forM fun f => requireField right f "join"
  let leftColumns := columnNames left
  let names := renames leftColumns (lookupColumns config right)
  let index := indexByKey rightKeys right
  let paired := left.map fun l => (l, matchesIn index (joinKey? leftKeys l))
  let fromLeft := paired.flatMap fun (l, partners) =>
    rowsOf config names (project leftColumns l) (partners.map Prod.snd)
  let used := paired.flatMap fun p => p.2.map Prod.fst
  let fromRight :=
    if config.how.keepsRight then
      (right.zipIdx.filter fun r => r.2 ∉ used).map fun r =>
        lookupOnlyRow config names leftColumns r.1
    else []
  return ⟨fromLeft ++ fromRight, (paired.filter fun p => !p.2.isEmpty).length⟩

/-- Carry out an enrich step. -/
def run : StepEngine := fun c => do
  let config ← c.readConfig Config.ofJson
  let source ← c.input config.source
  let (lookup, sql) ← lookupRows config.lookup c
  let joined ← join config source lookup
  let unmatched := source.length - joined.matched
  return {
    rows := joined.rows
    warnings :=
      if 0 < unmatched && config.how = .inner then
        [toString unmatched ++ " source row(s) had no match in the lookup"]
      else []
    details := .object [("matched", .ofNat joined.matched), ("unmatched", .ofNat unmatched),
      ("lookup_rows", .ofNat lookup.length), ("sql", (sql.map Json.string).getD .null)] }

end Enrich

end RowPipeline
