import RowPipeline.Calendar
import RowPipeline.Expr.Parser
import RowPipeline.Step
import RowPipeline.Text.Pattern.Reader

/-!
# Assert steps

Checks on the rows of a step, which pass through unchanged. A check that fails stops the step,
leaves a warning or is only reported.
-/

namespace RowPipeline

namespace Assert

open Json

/-- What a failed check leads to. -/
inductive OnFailure where
  | error
  | warning
  | ignore
deriving DecidableEq

/-- What is checked. Nulls meet all checks of values but `notNull` and `unique`. -/
inductive Check where
  | rowCount (least most exactly : Option UInt64)
  | notNull (fields : List String)
  | unique (fields : List String)
  | range (field : String) (least most : Option Value)
  | pattern (field text : String)
  | custom (expression : String)
  | columnExists (fields : List String)
  | dataType (field expected : String)
  | valueIn (field : String) (values : List Value)
  | relationship (field reference : String) (referenceField : Option String)

def Check.name : Check → String
  | .rowCount .. => "row_count"
  | .notNull _ => "not_null"
  | .unique _ => "unique"
  | .range .. => "range"
  | .pattern .. => "regex"
  | .custom _ => "custom"
  | .columnExists _ => "column_exists"
  | .dataType .. => "data_type"
  | .valueIn .. => "value_in"
  | .relationship .. => "relationship"

structure Assertion where
  name : Option String
  onFailure : Option OnFailure
  check : Check

structure Config where
  source : String
  assertions : List Assertion
  onFailure : OnFailure

/-! ## Reading -/

def decodeValue (j : Json) : Decoded Value := .ok (Value.ofJson j)

/-- The fields a check looks at, one or many. -/
def decodeFields (fields : List (String × Json)) : Decoded (List String) := do
  let s ← objectSlots fields [["fields", "field"]]
  s.required "fields" (decodeOneOrMany decodeString)

def decodeRowCount (fields : List (String × Json)) : Decoded Check := do
  let s ← objectSlots fields [["min"], ["max"], ["equals"]]
  let least ← s.optional "min" decodeUInt64
  let most ← s.optional "max" decodeUInt64
  return .rowCount least most (← s.optional "equals" decodeUInt64)

def decodeRange (fields : List (String × Json)) : Decoded Check := do
  let s ← objectSlots fields [["field"], ["min"], ["max"]]
  let field ← s.required "field" decodeString
  let least ← s.optional "min" decodeValue
  return .range field least (← s.optional "max" decodeValue)

def decodePattern (fields : List (String × Json)) : Decoded Check := do
  let s ← objectSlots fields [["field"], ["pattern"]]
  return .pattern (← s.required "field" decodeString) (← s.required "pattern" decodeString)

def decodeCustom (fields : List (String × Json)) : Decoded Check := do
  let s ← objectSlots fields [["expression"]]
  return .custom (← s.required "expression" decodeString)

def decodeDataType (fields : List (String × Json)) : Decoded Check := do
  let s ← objectSlots fields [["field"], ["expected", "type"]]
  return .dataType (← s.required "field" decodeString) (← s.required "expected" decodeString)

def decodeValueIn (fields : List (String × Json)) : Decoded Check := do
  let s ← objectSlots fields [["field"], ["values"]]
  return .valueIn (← s.required "field" decodeString)
    (← s.required "values" (decodeArray decodeValue))

def decodeRelationship (fields : List (String × Json)) : Decoded Check := do
  let s ← objectSlots fields [["field"], ["reference"], ["reference_field"]]
  let field ← s.required "field" decodeString
  let reference ← s.required "reference" decodeString
  return .relationship field reference (← s.optional "reference_field" decodeString)

/-- The kinds of checks and how the fields of each are read. -/
def checks : List (String × (List (String × Json) → Decoded Check)) :=
  [("row_count", decodeRowCount),
    ("not_null", fun fields => return .notNull (← decodeFields fields)),
    ("unique", fun fields => return .unique (← decodeFields fields)),
    ("range", decodeRange), ("regex", decodePattern), ("custom", decodeCustom),
    ("column_exists", fun fields => return .columnExists (← decodeFields fields)),
    ("data_type", decodeDataType), ("value_in", decodeValueIn),
    ("relationship", decodeRelationship)]

def decodeOnFailure : Json → Decoded OnFailure :=
  decodeChoice [("error", .error), ("warning", .warning), ("warn", .warning),
    ("ignore", .ignore)]

/-- An assertion names its check in the field `check`. -/
def Assertion.ofJson : Json → Decoded Assertion
  | .object fields => do
      let s ← objectSlots fields [["name"], ["on_failure"], ["check"]]
      let name ← s.optional "name" decodeString
      let onFailure ← s.optional "on_failure" decodeOnFailure
      let read ← s.required "check" (decodeTag checks)
      return ⟨name, onFailure, ← read fields⟩
  | _ => .error (.expected "an assertion")

def Config.ofJson (j : Json) : Decoded Config := do
  let s ← slots [["source"], ["assertions"], ["on_failure"]] j
  let source ← s.required "source" decodeString
  let assertions ← s.required "assertions" (decodeArray Assertion.ofJson)
  return ⟨source, assertions, ← s.withDefault "on_failure" .error decodeOnFailure⟩

/-! ## Checking -/

/-- What a check found. -/
structure Finding where
  passed : Bool
  message : String
  details : List (String × Json)

/-- A check of values passes when it counts no violation. -/
def Finding.ofCount (count : Nat) (message : String) (details : List (String × Json)) : Finding :=
  ⟨count == 0, toString count ++ message, details⟩

/-- The values of a field that are not null. -/
def presentValues (rows : List Row) (field : String) : List Value :=
  (rows.map fun r => r.lookupD field).filter fun v => !v.isNull

/-- The number of values that fail a test. -/
def countFailing (test : Value → Bool) (values : List Value) : Nat :=
  (values.filter fun v => !test v).length

def checkRowCount (least most exactly : Option UInt64) (rows : List Row) : Finding :=
  let count := rows.length
  let limit (n : Option UInt64) : Json := (n.map fun n => Json.ofNat n.toNat).getD .null
  ⟨least.all (fun n => n.toNat ≤ count) && most.all (fun n => count ≤ n.toNat) &&
      exactly.all (fun n => count = n.toNat),
    "Row count is " ++ toString count,
    [("count", .ofNat count), ("min", limit least), ("max", limit most),
      ("equals", limit exactly)]⟩

def checkNotNull (fields : List String) (rows : List Row) : Finding :=
  let counts := fields.map fun f => (f, (rows.filter fun r => (r.lookupD f).isNull).length)
  let total := counts.foldl (fun total c => total + c.2) 0
  .ofCount total " null value(s) found"
    [("null_counts", .object (Record.ofList (counts.map fun c => (c.1, Json.ofNat c.2))).entries)]

/-- The keys of some fields of a row, one by one. -/
def keyTuple (fields : List String) (row : Row) : List String :=
  fields.map fun f => (row.lookupD f).canonicalKey

/-- The number of tuples that were seen before, each one being seen from its place on. -/
def countRepeats (seen : List (List String)) : List (List String) → Nat
  | [] => 0
  | key :: rest =>
      if key ∈ seen then countRepeats seen rest + 1 else countRepeats (key :: seen) rest

/-- The number of rows whose fields repeat those of an earlier row. -/
def duplicateCount (fields : List String) (rows : List Row) : Nat :=
  countRepeats [] (rows.map (keyTuple fields))

def checkUnique (fields : List String) (rows : List Row) : Finding :=
  let duplicates := duplicateCount fields rows
  .ofCount duplicates (" duplicate row(s) on (" ++ ", ".intercalate fields ++ ")")
    [("duplicates", .ofNat duplicates)]

/-- Whether a value lies between two bounds. What cannot be compared with a bound does not. -/
def inRange (least most : Option Value) (v : Value) : Bool :=
  least.all (fun m => v.compare? m == some .gt || v.compare? m == some .eq) &&
    most.all (fun m => v.compare? m == some .lt || v.compare? m == some .eq)

/-- The first of the values that no other value is past in a direction. -/
def extreme? (direction : Ordering) (values : List Value) : Option Value :=
  values.foldl (fun best v =>
    match best with
    | some b => if v.totalCompare b = direction then some v else best
    | none => some v) none

def checkRange (field : String) (least most : Option Value) (rows : List Row) : Finding :=
  let values := presentValues rows field
  let violations := countFailing (inRange least most) values
  let json (v : Option Value) : Json := (v.map Value.toJson).getD .null
  .ofCount violations (" value(s) of '" ++ field ++ "' outside the range")
    [("violations", .ofNat violations), ("min_found", json (extreme? .lt values)),
      ("max_found", json (extreme? .gt values))]

def checkPattern (field text : String) (rows : List Row) : Except Fault Finding :=
  match Text.Pattern.read text with
  | .error e => .error (.failed ("Invalid pattern '" ++ text ++ "': " ++ e.message))
  | .ok p =>
      let mismatches := countFailing (fun v => p.occursIn v.display) (presentValues rows field)
      .ok (.ofCount mismatches (" value(s) of '" ++ field ++ "' do not match")
        [("mismatches", .ofNat mismatches)])

def checkCustom (text : String) (rows : List Row) (params : Parameters) :
    Except Fault Finding := do
  let e ← (Expr.parse text).mapError Fault.expression
  let results := e.evalRows rows none (some params)
  let failures := (results.filter fun r =>
    match r with
    | .ok v => !v.isTruthy
    | .error _ => true).length
  return .ofCount failures (" row(s) fail '" ++ text ++ "'") [("failures", .ofNat failures)]

def checkColumns (fields : List String) (rows : List Row) : Finding :=
  let missing := fields.filter fun f => !rows.any (·.hasField f)
  ⟨missing.isEmpty,
    if missing.isEmpty then "All columns present"
    else "Missing column(s): " ++ ", ".intercalate missing,
    [("missing", .array (missing.map .string))]⟩

/-- Whether a value is of a type named in a document. -/
def hasType (expected : String) (v : Value) : Bool :=
  match Text.asciiLower expected, v with
  | "integer", .int _ | "int", .int _ => true
  | "number", v | "float", v | "numeric", v => v.isNumeric
  | "string", .string _ | "text", .string _ => true
  | "boolean", .bool _ | "bool", .bool _ => true
  | "array", .array _ => true
  | "object", .object _ => true
  | "date", .string s => Calendar.isDateText s || Calendar.isTimestampText s
  | _, _ => false

def checkType (field expected : String) (rows : List Row) : Finding :=
  let mismatches := countFailing (hasType expected) (presentValues rows field)
  .ofCount mismatches (" value(s) of '" ++ field ++ "' are not " ++ expected)
    [("mismatches", .ofNat mismatches)]

def checkValues (field : String) (allowed : List Value) (rows : List Row) : Finding :=
  let invalid := (presentValues rows field).filter fun v => !allowed.any (·.looseEq v)
  .ofCount invalid.length (" value(s) of '" ++ field ++ "' are not allowed")
    [("invalid_count", .ofNat invalid.length),
      ("examples", .array ((invalid.take 5).map Value.toJson))]

/-- The number of values of a field that do not occur in a field of other rows. -/
def orphanCount (rows : List Row) (field : String) (referenced : List Row) (target : String) :
    Nat :=
  let known := (presentValues referenced target).map Value.canonicalKey
  countFailing (fun v => v.canonicalKey ∈ known) (presentValues rows field)

def checkRelationship (field reference : String) (referenceField : Option String)
    (rows : List Row) (c : StepContext) : Except Fault Finding := do
  let referenced ← c.input reference
  let target := referenceField.getD field
  let orphans := orphanCount rows field referenced target
  return .ofCount orphans
    (" value(s) of '" ++ field ++ "' have no match in '" ++ reference ++ "." ++ target ++ "'")
    [("orphans", .ofNat orphans)]

/-- Carry out a check. -/
def Check.run (rows : List Row) (c : StepContext) : Check → Except Fault Finding
  | .rowCount least most exactly => .ok (checkRowCount least most exactly rows)
  | .notNull fields => .ok (checkNotNull fields rows)
  | .unique fields => .ok (checkUnique fields rows)
  | .range field least most => .ok (checkRange field least most rows)
  | .pattern field text => checkPattern field text rows
  | .custom text => checkCustom text rows c.params
  | .columnExists fields => .ok (checkColumns fields rows)
  | .dataType field expected => .ok (checkType field expected rows)
  | .valueIn field values => .ok (checkValues field values rows)
  | .relationship field reference referenceField =>
      checkRelationship field reference referenceField rows c

/-! ## Reporting -/

/-- The outcome of an assertion: its name, what it leads to on failure, and what was found. -/
structure Result where
  name : String
  onFailure : OnFailure
  check : String
  finding : Finding

namespace Result

/-- Whether the assertion failed with a consequence. -/
def leadsTo (r : Result) (consequence : OnFailure) : Bool :=
  !r.finding.passed && r.onFailure = consequence

def toJson (r : Result) : Json :=
  .object [("name", .string r.name), ("check", .string r.check), ("passed", .bool r.finding.passed),
    ("message", .string r.finding.message), ("details", .object r.finding.details)]

end Result

/-- The outcomes of assertions from an index on. An assertion without a name is named for its check
and its place. -/
def runAll (config : Config) (rows : List Row) (c : StepContext) :
    Nat → List Assertion → Except Fault (List Result)
  | _, [] => .ok []
  | index, a :: rest => do
      let finding ← a.check.run rows c
      let name := a.name.getD (a.check.name ++ "_" ++ toString (index + 1))
      return ⟨name, a.onFailure.getD config.onFailure, a.check.name, finding⟩
        :: (← runAll config rows c (index + 1) rest)

/-- Carry out an assert step. -/
def run : StepEngine := fun c => do
  let config ← c.readConfig Config.ofJson
  let source ← c.input config.source
  let results ← runAll config source c 0 config.assertions
  let fatal := results.filter fun r => r.leadsTo .error
  if !fatal.isEmpty then
    throw (.failed ("Assertion(s) failed: " ++
      "; ".intercalate (fatal.map fun r => r.name ++ ": " ++ r.finding.message)))
  let passed := (results.filter fun r => r.finding.passed).length
  return {
    rows := source
    warnings := (results.filter fun r => r.leadsTo .warning).map fun r =>
      "Assertion '" ++ r.name ++ "' failed: " ++ r.finding.message
    details := .object [("assertions", .array (results.map Result.toJson)),
      ("passed", .ofNat passed), ("failed", .ofNat (results.length - passed))] }

end Assert

end RowPipeline
