import RowPipeline.Config
import RowPipeline.Connector
import RowPipeline.Document
import RowPipeline.RowSet

/-!
# Steps

What a step gets to see, what it gives back, and the functions that carry steps out.
-/

namespace RowPipeline

/-- A window of rows asked for by a page. -/
structure Pagination where
  limit : UInt64
  offset : UInt64
deriving DecidableEq

/-- A natural number cut off at the greatest 64-bit one. -/
def saturate (n : Nat) : UInt64 :=
  if n < 0x10000000000000000 then n.toUInt64 else 0xffffffffffffffff

/-- The window of a page; pages count from one. -/
def Pagination.ofPage (page pageSize : UInt64) : Pagination :=
  ⟨pageSize, saturate ((page.toNat - 1) * pageSize.toNat)⟩

structure StepOutput where
  rows : List Row := []
  /-- The number of rows before a page was cut. -/
  totalCount : Option UInt64 := none
  warnings : List String := []
  details : Json := .null

structure StepContext where
  stepName : String
  kind : StepKind
  config : Json
  /-- The steps this one depends on. -/
  dependencies : List String
  /-- The rows of those that succeeded. -/
  inputs : Record (List Row)
  params : Parameters
  connector : Option Connector
  dialect : Dialect
  expressionFailure : ExpressionFailure
  pagination : Option Pagination

namespace StepContext

def dependsOn (c : StepContext) (name : String) : Bool := name ∈ c.dependencies

/-- The rows of another step. -/
def input (c : StepContext) (name : String) : Except Fault (List Row) :=
  match c.inputs.get? name with
  | some rows => .ok rows
  | none =>
      .error (.failed ("Step '" ++ c.stepName ++ "' cannot read '" ++ name ++
        "': no result is available"))

def requireConnector (c : StepContext) : Except Fault Connector :=
  match c.connector with
  | some connector => .ok connector
  | none =>
      .error (.connection ("Step '" ++ c.stepName ++
        "' needs a database connector but none is configured"))

/-- The settings of the step in the form its kind asks for. -/
def readConfig {α : Type} (c : StepContext) (decode : Json → Json.Decoded α) : Except Fault α :=
  match decode c.config with
  | .ok config => .ok config
  | .error e =>
      .error (.execution ⟨some c.stepName, some c.kind.name,
        "Invalid " ++ c.kind.name ++ " config: " ++ e.message⟩)

end StepContext

/-- How steps of one kind are carried out. -/
abbrev StepEngine := StepContext → Sending StepOutput

end RowPipeline
