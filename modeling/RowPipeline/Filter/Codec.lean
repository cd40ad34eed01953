import RowPipeline.Filter
import RowPipeline.Fault
import RowPipeline.Json.Decode

/-!
# Filters in documents

A filter is written as a group (`logic` and `conditions`), a condition, or an array of filters,
which all have to hold. Null and the empty array are no filter.
-/

namespace RowPipeline

namespace Gate

open Json

def toJson : Gate → Json
  | .parameterExists name =>
      .object [("type", .string "parameter_exists"), ("parameter", .string name)]
  | .parameterNotEmpty name emptyValues =>
      .object [("type", .string "parameter_not_empty"), ("parameter", .string name),
        ("empty_values", .array (emptyValues.map Value.toJson))]
  | .allParametersExist names =>
      .object [("type", .string "all_parameters_exist"),
        ("parameters", .array (names.map .string))]
  | .expression text => .object [("type", .string "expression"), ("expression", .string text)]

def decodeExists (fields : Json) : Decoded Gate := do
  let s ← slots [["parameter", "param", "name"]] fields
  return .parameterExists (← s.required "parameter" decodeString)

def decodeNotEmpty (fields : Json) : Decoded Gate := do
  let s ← slots [["parameter", "param", "name"], ["empty_values"]] fields
  let name ← s.required "parameter" decodeString
  let emptyValues ← s.withDefault "empty_values" defaultEmptyValues
    (decodeArray fun j => .ok (Value.ofJson j))
  return .parameterNotEmpty name emptyValues

def decodeAllExist (fields : Json) : Decoded Gate := do
  let s ← slots [["parameters", "params", "names"]] fields
  return .allParametersExist (← s.required "parameters" (decodeArray decodeString))

def decodeExpression (fields : Json) : Decoded Gate := do
  let s ← slots [["expression", "expr"]] fields
  return .expression (← s.required "expression" decodeString)

/-- The types of gates and how the fields of each are read. -/
def types : List (String × (Json → Decoded Gate)) :=
  [("parameter_exists", decodeExists), ("parameter_not_empty", decodeNotEmpty),
    ("all_parameters_exist", decodeAllExist), ("expression", decodeExpression)]

/-- A gate names its type in the field `type`, or first in an array. -/
def ofJson : Json → Decoded Gate
  | .object fields =>
      match Assoc.get? "type" fields with
      | some type => do (← decodeTag types type) (.object (Assoc.erase "type" fields))
      | none => .error (.missing "type")
  | .array (type :: rest) => do (← decodeTag types type) (.array rest)
  | _ => .error (.expected "a gate")

end Gate

/-- Read the spelling of an operator. -/
def FilterOperator.read (text : String) : Except ParseError FilterOperator :=
  match ofName? text with
  | some op => .ok op
  | none =>
      .error ((ParseError.of ("Unknown filter operator '" ++ text ++ "'")).withValue (.string text))

namespace FilterCondition

open Json

def toJson (c : FilterCondition) : Json :=
  .object ([("field", .string c.field), ("operator", .string c.operator.sql),
    ("value", c.value.toJson)] ++ (c.gate.map fun g => ("conditional", g.toJson)).toList)

def decodeOperator (j : Json) : Decoded FilterOperator := do
  match FilterOperator.read (← decodeString j) with
  | .ok op => return op
  | .error e => throw (.rejected e.text)

def ofJson (j : Json) : Decoded FilterCondition := do
  let s ← slots [["field"], ["operator"], ["value"], ["conditional"]] j
  let field ← s.required "field" decodeString
  let operator ← s.required "operator" decodeOperator
  let value ← s.withDefault "value" .null fun j => .ok (Value.ofJson j)
  let gate ← s.optional "conditional" Gate.ofJson
  return ⟨field, operator, value, gate⟩

end FilterCondition

/-- What is wrong with a filter, and at which index of which array. -/
structure FilterError where
  path : List Nat
  problem : String
  value : Option Json

/-- The path of an array item in brackets. -/
def FilterError.field? (e : FilterError) : Option String :=
  if e.path.isEmpty then none
  else some (String.join (e.path.map fun i => "[" ++ toString i ++ "]"))

def FilterError.toParseError (e : FilterError) : ParseError := ⟨e.field?, e.problem, e.value⟩

namespace FilterNode

open Json

mutual

def toJson : FilterNode → Json
  | .leaf c => c.toJson
  | .logical op children =>
      .object [("logic", .string op.keyword), ("conditions", .array (toJsonAll children))]

def toJsonAll : List FilterNode → List Json
  | [] => []
  | n :: rest => n.toJson :: toJsonAll rest

end

def decodeLogic : Json → Decoded LogicalOp :=
  decodeChoice [("AND", .and), ("and", .and), ("OR", .or), ("or", .or)]

mutual

/-- A group or a condition. What has the two fields of a group and reads as one is a group. The
depth of the value bounds the nesting, so fuel in proportion to it is enough. -/
def decode : Nat → Json → Decoded FilterNode
  | 0, _ => .error (.expected "a shallower filter")
  | fuel + 1, j =>
      match decodeGroup fuel j with
      | .ok n => .ok n
      | .error _ =>
          match FilterCondition.ofJson j with
          | .ok c => .ok (.leaf c)
          | .error _ => .error (.expected "a group or a condition")

def decodeGroup : Nat → Json → Decoded FilterNode
  | 0, _ => .error (.expected "a shallower filter")
  | fuel + 1, j =>
      match j with
      | .object fields => do
          let s ← objectSlots fields [["logic", "op"], ["conditions", "children"]]
          let op ← s.required "logic" decodeLogic
          match s.get "conditions" with
          | .given (.array items) => return .logical op (← items.mapM (decode fuel))
          | _ => throw (.missing "conditions")
      | _ => .error (.expected "a group")

end

end FilterNode

namespace Json

mutual

/-- How deep containers are nested in a value. -/
def depth : Json → Nat
  | .array items => depthOfItems items + 1
  | .object fields => depthOfFields fields + 1
  | _ => 0

def depthOfItems : List Json → Nat
  | [] => 0
  | j :: rest => max (depth j) (depthOfItems rest)

def depthOfFields : List (String × Json) → Nat
  | [] => 0
  | (_, j) :: rest => max (depth j) (depthOfFields rest)

end

end Json

namespace FilterNode

mutual

/-- Read a filter; none when there is nothing to filter by. -/
def ofJson : Json → Except FilterError (Option FilterNode)
  | .null => .ok none
  | .array [] => .ok none
  | .array (item :: items) => do
      let children ← ofItems 0 (item :: items)
      return some (.logical .and children)
  | .object fields =>
      match decode (2 * (Json.object fields).depth + 2) (.object fields) with
      | .ok n => .ok (some n)
      | .error e => .error ⟨[], "invalid filter: " ++ e.message, some (.object fields)⟩
  | j => .error ⟨[], "filter must be an object or an array", some j⟩

/-- The items of an array from an index on. -/
def ofItems : Nat → List Json → Except FilterError (List FilterNode)
  | _, [] => .ok []
  | index, item :: rest =>
      match ofJson item with
      | .error e => .error { e with path := index :: e.path }
      | .ok none => .error ⟨[index], "empty filter node", none⟩
      | .ok (some n) => do return n :: (← ofItems (index + 1) rest)

end

end FilterNode

end RowPipeline
