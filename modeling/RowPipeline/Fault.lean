import RowPipeline.Json
import RowPipeline.Expr.Token

/-!
# Faults

The failures the library reports, each with the place it refers to, and their texts.
-/

namespace RowPipeline

/-- A document or a part of it that cannot be read: the path of the field, what is wrong, and the
offending value. -/
structure ParseError where
  field : Option String
  message : String
  value : Option Json

namespace ParseError

def of (message : String) : ParseError := ⟨none, message, none⟩

def withField (e : ParseError) (field : String) : ParseError := { e with field := some field }

def withValue (e : ParseError) (value : Json) : ParseError := { e with value := some value }

def text (e : ParseError) : String :=
  match e.field with
  | some field => "Parse error at '" ++ field ++ "': " ++ e.message
  | none => "Parse error: " ++ e.message

end ParseError

/-- One finding of a validation. -/
structure Issue where
  field : String
  message : String
  value : Option Json

def ParseError.toIssue (e : ParseError) : Issue := ⟨e.field.getD "", e.message, e.value⟩

def Issue.toJson (i : Issue) : Json :=
  .object [("field", .string i.field), ("message", .string i.message),
    ("value", i.value.getD .null)]

/-- The findings in one text. -/
def summarizeIssues (issues : List Issue) : String :=
  "; ".intercalate (issues.map fun i => i.field ++ ": " ++ i.message)

/-- A failure while running, with the step it belongs to once that is known. -/
structure ExecutionError where
  stepName : Option String
  stepType : Option String
  message : String
deriving DecidableEq

namespace ExecutionError

def of (message : String) : ExecutionError := ⟨none, none, message⟩

def text (e : ExecutionError) : String :=
  match e.stepName, e.stepType with
  | some step, some kind => "Step '" ++ step ++ "' (" ++ kind ++ ") failed: " ++ e.message
  | some step, none => "Step '" ++ step ++ "' failed: " ++ e.message
  | none, _ => "Execution error: " ++ e.message

end ExecutionError

/-- Steps that depend on one another in a circle. -/
structure Cycle where
  step : String
  path : List String
deriving DecidableEq

def Cycle.toParseError (c : Cycle) : ParseError :=
  { field := some "steps"
    message := "Cycle detected at step '" ++ c.step ++ "': " ++ " -> ".intercalate c.path
    value := some (.array (c.path.map .string)) }

/-- Every failure of the library. -/
inductive Fault where
  | parse (e : ParseError)
  | validation (issues : List Issue)
  | execution (e : ExecutionError)
  | expression (e : ExpressionError)
  | cache (message : String)
  | connection (message : String)
  | timeout (operation : String) (limit : UInt64)
  | serialization (message : String)

namespace Fault

/-- The name of the kind of a failure. -/
def typeName : Fault → String
  | .parse _ => "ParseError"
  | .validation _ => "ValidationError"
  | .execution _ => "ExecutionError"
  | .expression _ => "ExpressionError"
  | .cache _ => "CacheError"
  | .connection _ => "ConnectionError"
  | .timeout .. => "TimeoutError"
  | .serialization _ => "SerializationError"

def text : Fault → String
  | .parse e => e.text
  | .validation issues => "Validation failed: " ++ summarizeIssues issues
  | .execution e => e.text
  | .expression e => e.message
  | .cache message => "Cache error: " ++ message
  | .connection message => "Connection error: " ++ message
  | .timeout operation limit =>
      "Timeout: " ++ operation ++ " exceeded " ++ toString limit.toNat ++ "ms"
  | .serialization message => "Serialization error: " ++ message

/-- A failure while running, without a step. -/
def failed (message : String) : Fault := .execution (.of message)

/-- The failure as one of a step; one that names its step already keeps it. -/
def inStep (f : Fault) (name kind : String) : ExecutionError :=
  match f with
  | .execution e =>
      match e.stepName with
      | some _ => e
      | none => { e with stepName := some name, stepType := some kind }
  | f => ⟨some name, some kind, f.text⟩

/-- A failure as named details. -/
def details (f : Fault) : List (String × Json) :=
  let extra : List (String × Json) := match f with
    | .parse e => (e.field.map fun field => ("field", Json.string field)).toList
    | .validation issues => [("errors", .array (issues.map Issue.toJson))]
    | .execution e =>
        (e.stepName.map fun s => ("step_name", Json.string s)).toList ++
          (e.stepType.map fun s => ("step_type", Json.string s)).toList
    | _ => []
  [("type", .string f.typeName), ("message", .string f.text)] ++ extra

end Fault

end RowPipeline
