import RowPipeline.Calendar
import RowPipeline.Fault
import RowPipeline.Json.Decode
import RowPipeline.Row

/-!
# Declared parameters

A declaration names a parameter and says of which type it is, what it is when not supplied, and
which values it may take. Supplied values are turned into their declared type.
-/

namespace RowPipeline

inductive ParameterType where
  | string
  | integer
  | number
  | boolean
  | array
  | object
  | date
deriving DecidableEq

namespace ParameterType

def name : ParameterType → String
  | .string => "string"
  | .integer => "integer"
  | .number => "number"
  | .boolean => "boolean"
  | .array => "array"
  | .object => "object"
  | .date => "date"

def decode : Json → Json.Decoded ParameterType :=
  Json.decodeChoice [("string", .string), ("integer", .integer), ("int", .integer),
    ("number", .number), ("float", .number), ("decimal", .number), ("boolean", .boolean),
    ("bool", .boolean), ("array", .array), ("list", .array), ("object", .object), ("date", .date),
    ("datetime", .date)]

end ParameterType

/-- Why a value does not suit a declaration. -/
inductive ParameterProblem where
  | required
  | expected (type : ParameterType) (typeName : String)
  | notADate (text : String)
  | notAllowed (v : Value)

def ParameterProblem.message : ParameterProblem → String
  | .required => "is required"
  | .expected type typeName => "expected " ++ type.name ++ ", got " ++ typeName
  | .notADate text => "expected date (YYYY-MM-DD), got '" ++ text ++ "'"
  | .notAllowed v => "value " ++ v.canonicalKey ++ " is not one of the allowed values"

namespace ParameterType

/-- The integer or double in a text. -/
def numberInText? (s : String) : Option Value :=
  match Decimal.readInt64? s with
  | some i => some (.int i)
  | none => (Decimal.readFloat? s).map .float

def booleanInText? (s : String) : Option Value :=
  match Text.asciiLower s with
  | "true" => some (.bool true)
  | "false" => some (.bool false)
  | _ => none

/-- Turn a value into one of the type. Null suits every type. -/
def coerce (type : ParameterType) (v : Value) : Except ParameterProblem Value :=
  let orMismatch (r : Option Value) : Except ParameterProblem Value :=
    match r with
    | some v => .ok v
    | none => .error (.expected type v.typeName)
  match type, v with
  | _, .null => .ok .null
  | .string, .string s => .ok (.string s)
  | .integer, .int i => .ok (.int i)
  | .integer, .float x => orMismatch ((Value.float x).toInt64?.map .int)
  | .integer, .string s => orMismatch ((Decimal.readInt64? (Text.trimBlanks s)).map .int)
  | .number, .int i => .ok (.int i)
  | .number, .float x => .ok (.float x)
  | .number, .string s => orMismatch (numberInText? (Text.trimBlanks s))
  | .boolean, .bool b => .ok (.bool b)
  | .boolean, .string s => orMismatch (booleanInText? (Text.trimBlanks s))
  | .array, .array items => .ok (.array items)
  | .object, .object fields => .ok (.object fields)
  | .date, .string s =>
      if Calendar.isDateText s || Calendar.isTimestampText s then .ok (.string s)
      else .error (.notADate s)
  | _, _ => .error (.expected type v.typeName)

end ParameterType

structure ParameterDecl where
  name : String
  type : ParameterType := .string
  default : Option Value := none
  required : Bool := false
  description : Option String := none
  allowedValues : Option (List Value) := none

namespace ParameterDecl

open Json

def ofJson (j : Json) : Decoded ParameterDecl := do
  let s ← slots [["name"], ["type"], ["default"], ["required"], ["description"],
    ["allowed_values"]] j
  let value (j : Json) : Decoded Value := .ok (Value.ofJson j)
  let name ← s.required "name" decodeString
  let type ← s.withDefault "type" .string ParameterType.decode
  let default ← s.optional "default" value
  let required ← s.withDefault "required" false decodeBool
  let description ← s.optional "description" decodeString
  let allowedValues ← s.optional "allowed_values" (decodeArray value)
  return { name, type, default, required, description, allowedValues }

def toJson (p : ParameterDecl) : Json :=
  .object ([("name", Json.string p.name), ("type", .string p.type.name)] ++
    (p.default.map fun v => ("default", v.toJson)).toList ++
    [("required", .bool p.required)] ++
    (p.description.map fun s => ("description", Json.string s)).toList ++
    (p.allowedValues.map fun vs => ("allowed_values", Json.array (vs.map Value.toJson))).toList)

/-- Whether a value is among the allowed ones. Null always is, and of an array parameter every item
has to be. -/
def allows (p : ParameterDecl) (v : Value) : Bool :=
  match p.allowedValues with
  | none => true
  | some allowed =>
      let allowed (v : Value) : Bool := allowed.any (·.looseEq v)
      match v with
      | .null => true
      | .array items => if p.type = .array then items.all allowed else allowed (.array items)
      | v => allowed v

/-- A value of the declared type that is allowed. -/
def check (p : ParameterDecl) (v : Value) : Except ParameterProblem Value := do
  let coerced ← p.type.coerce v
  if p.allows coerced then return coerced else throw (.notAllowed coerced)

/-- The value a declaration starts from: the supplied one, except a null for a required parameter,
or the default. -/
def source (p : ParameterDecl) (supplied : Parameters) : Option Value :=
  match supplied.get? p.name with
  | some v => if v.isNull && p.required then p.default else some v
  | none => p.default

end ParameterDecl

namespace Parameters

def issue (p : ParameterDecl) (problem : ParameterProblem) (v : Option Value) : Issue :=
  ⟨"parameters." ++ p.name, problem.message, v.map Value.toJson⟩

/-- Go through the declarations, entering checked values and collecting problems. -/
def resolveFrom (supplied : Parameters) :
    List ParameterDecl → Parameters × List Issue → Parameters × List Issue
  | [], state => state
  | p :: rest, (resolved, issues) =>
      match p.source supplied with
      | none =>
          if p.required then
            resolveFrom supplied rest (resolved, issues ++ [issue p .required none])
          else resolveFrom supplied rest (resolved, issues)
      | some v =>
          match p.check v with
          | .ok coerced => resolveFrom supplied rest (resolved.insert p.name coerced, issues)
          | .error problem =>
              resolveFrom supplied rest (resolved, issues ++ [issue p problem (some v)])

/-- The parameters of a run: the supplied values, those declared in their types, and the defaults;
or one issue per declaration that fails. -/
def resolve (declared : List ParameterDecl) (supplied : Parameters) :
    Except (List Issue) Parameters :=
  match resolveFrom supplied declared (supplied, []) with
  | (resolved, []) => .ok resolved
  | (_, issues) => .error issues

/-- The values in the order of their names. -/
def sorted (p : Parameters) : List (String × Value) :=
  sortBy (fun a b => compare a.1 b.1) p.entries

end Parameters

end RowPipeline
