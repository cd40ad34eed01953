import RowPipeline.Parameter.Placeholder
import RowPipeline.Filter.Codec
import RowPipeline.Filter.Gate

/-!
# Parameters in configurations

Parameter references in the strings of a JSON value are replaced by the parameters' values, and
filters lose the conditions whose gate is closed. Gates themselves stay as they are, and expressions
take their parameters as literals of the expression language.
-/

namespace RowPipeline

/-- The keys under which filters stand. -/
def filterKeys : List String := ["filters", "where", "having"]

/-- The key under which a gate stands. -/
def gateKey : String := "conditional"

/-- The key under which the text of an expression stands. -/
def expressionKey : String := "expression"

namespace Value

mutual

/-- The value as a literal of the expression language; an object has none. -/
def expressionLiteral? : Value → Option String
  | .null => some "NULL"
  | .bool b => some (if b then "TRUE" else "FALSE")
  | .int i => some (toString i.toInt)
  | .float x =>
      if x.isFinite then
        let text := Decimal.plainLayout.write x
        some (if text.toList.contains '.' then text else text ++ ".0")
      else some "NULL"
  | .string s =>
      some (String.ofList ('\'' :: (s.toList.flatMap fun c =>
        if c = '\\' then ['\\', '\\'] else if c = '\'' then ['\'', '\''] else [c]) ++ ['\'']))
  | .array items => (itemLiterals? items).map fun parts => "(" ++ ", ".intercalate parts ++ ")"
  | .object _ => none

def itemLiterals? : List Value → Option (List String)
  | [] => some []
  | v :: rest =>
      match expressionLiteral? v, itemLiterals? rest with
      | some s, some parts => some (s :: parts)
      | _, _ => none

end

end Value

/-- The text of an expression with its parameters as literals. -/
def substituteExpression (params : Parameters) (text : String) : String :=
  Piece.fill (fun name => (params.get? name).bind Value.expressionLiteral?) text

/-- A string that is one reference becomes the parameter's value; in any other the references become
the values' texts. -/
def substituteString (params : Parameters) (text : String) : Json :=
  match Piece.scan text with
  | [.reference name _] =>
      match params.get? name with
      | some v => v.toJson
      | none => .string text
  | _ => .string (Piece.fill (fun name => (params.get? name).map Value.display) text)

mutual

/-- Replace the parameter references in a JSON value. -/
def substituteValue (params : Parameters) : Json → Json
  | .string text => substituteString params text
  | .array items => .array (substituteItems params items)
  | .object fields => .object (substituteFields params fields)
  | j => j

def substituteItems (params : Parameters) : List Json → List Json
  | [] => []
  | j :: rest => substituteValue params j :: substituteItems params rest

def substituteFields (params : Parameters) : List (String × Json) → List (String × Json)
  | [] => []
  | (key, j) :: rest =>
      let replaced :=
        if key = gateKey then j
        else
          match j with
          | .string text =>
              if key = expressionKey then .string (substituteExpression params text)
              else substituteValue params (.string text)
          | j => substituteValue params j
      (key, replaced) :: substituteFields params rest

end

/-! ## References -/

/-- The names a gate refers to. -/
def gateReferences (gate : Json) : List String :=
  ((gate.field? "parameter").bind Json.asString?).toList ++
    (((gate.field? "parameters").bind Json.asArray?).getD []).filterMap Json.asString?

mutual

/-- The parameters a JSON value refers to, in its order, perhaps repeated. -/
def references : Json → List String
  | .string text => Piece.names text
  | .array items => itemReferences items
  | .object fields => fieldReferences fields
  | _ => []

def itemReferences : List Json → List String
  | [] => []
  | j :: rest => references j ++ itemReferences rest

def fieldReferences : List (String × Json) → List String
  | [] => []
  | (key, j) :: rest =>
      (if key = gateKey then gateReferences j else []) ++ references j ++ fieldReferences rest

end

/-- The parameters a JSON value refers to, sorted. -/
def referencedParameters (j : Json) : List String :=
  sortBy compare ((references j).foldl addName [])

/-! ## Gated filters -/

namespace FilterNode

def hasGate (n : FilterNode) : Bool := n.leaves.any fun c => c.gate.isSome

end FilterNode

/-- What becomes of the filter under one key of an object: nothing for one without gates, else the
filter without its closed conditions, or its removal when nothing is left. -/
def filterChange (params : Parameters) (path key : String) (fields : List (String × Json)) :
    Except ParseError (List (String × Option Json)) :=
  match Assoc.get? key fields with
  | none => .ok []
  | some raw =>
      match FilterNode.ofJson raw with
      | .error e =>
          .error { e.toParseError with
            field := some (path ++ "." ++ key ++ e.field?.getD "") }
      | .ok none => .ok []
      | .ok (some tree) =>
          if tree.hasGate then .ok [(key, (tree.resolve params).map FilterNode.toJson)]
          else .ok []

/-- Carry out a change under one key. -/
def applyFilterChange (fields : List (String × Json)) : String × Option Json → List (String × Json)
  | (key, some j) => Assoc.insert key j fields
  | (key, none) => Assoc.erase key fields

mutual

/-- Resolve the gated filters of a JSON value at `path`, those of an object before the ones further
in. Filters and gates are not searched. -/
def resolveFilters (params : Parameters) (path : String) : Json → Except ParseError Json
  | .object fields => do
      let changes ← filterKeys.mapM fun key => filterChange params path key fields
      let inner ← resolveFiltersInFields params path fields
      return .object (changes.flatten.foldl applyFilterChange inner)
  | .array items => do return .array (← resolveFiltersInItems params path 0 items)
  | j => .ok j

def resolveFiltersInItems (params : Parameters) (path : String) :
    Nat → List Json → Except ParseError (List Json)
  | _, [] => .ok []
  | index, j :: rest => do
      let j ← resolveFilters params (path ++ "[" ++ toString index ++ "]") j
      return j :: (← resolveFiltersInItems params path (index + 1) rest)

def resolveFiltersInFields (params : Parameters) (path : String) :
    List (String × Json) → Except ParseError (List (String × Json))
  | [] => .ok []
  | (key, j) :: rest => do
      let j ← if key ∈ filterKeys || key = gateKey then pure j
        else resolveFilters params (path ++ "." ++ key) j
      return (key, j) :: (← resolveFiltersInFields params path rest)

end

end RowPipeline
