import RowPipeline.Parameter

/-!
# Pipeline documents

A document declares parameters and steps and names the step whose rows are the result. A read
document also holds the dependencies of its steps and the order in which they run.
-/

namespace RowPipeline

inductive StepKind where
  | query
  | enrich
  | pivot
  | unpivot
  | union
  | assert
deriving DecidableEq

namespace StepKind

def all : List StepKind := [.query, .enrich, .pivot, .unpivot, .union, .assert]

def name : StepKind → String
  | .query => "query"
  | .enrich => "enrich"
  | .pivot => "pivot"
  | .unpivot => "unpivot"
  | .union => "union"
  | .assert => "assert"

def ofName? (text : String) : Option StepKind :=
  let normal := Text.asciiLower (Text.trimBlanks text)
  all.find? fun kind => kind.name == normal

/-- Read the name of a kind of step. -/
def read (text : String) : Except ParseError StepKind :=
  match ofName? text with
  | some kind => .ok kind
  | none =>
      .error
        { field := none
          message := "Unknown step type '" ++ text ++ "'; expected one of: " ++
            ", ".intercalate (all.map name)
          value := some (.string text) }

end StepKind

structure Metadata where
  name : String := "unnamed_pipeline"
  description : String := ""
  version : String := "1.0.0"
  author : Option String := none
  tags : List String := []
  /-- The fields without a meaning of their own, in order. -/
  extra : List (String × Json) := []

namespace Metadata

open Json

def fieldNames : List String := ["name", "description", "version", "author", "tags"]

def ofJson (j : Json) : Decoded Metadata :=
  match j with
  | .object fields => do
      let d : Metadata := {}
      let s ← objectSlots fields (fieldNames.map fun name => [name])
      let name ← s.withDefault "name" d.name decodeString
      let description ← s.withDefault "description" d.description decodeString
      let version ← s.withDefault "version" d.version decodeString
      let author ← s.optional "author" decodeString
      let tags ← s.withDefault "tags" d.tags (decodeArray decodeString)
      return ⟨name, description, version, author, tags,
        fields.filter fun p => p.1 ∉ fieldNames⟩
  | _ => throw (.expected "an object")

def toJson (m : Metadata) : Json :=
  .object ([("name", Json.string m.name), ("description", .string m.description),
    ("version", .string m.version)] ++
    (m.author.map fun s => ("author", Json.string s)).toList ++
    [("tags", .array (m.tags.map .string))] ++ m.extra)

end Metadata

structure Step where
  name : String
  kind : StepKind
  /-- The settings of the step, an object. -/
  config : Json
  /-- Whether the step's result may be kept. -/
  cache : Bool

def Step.toJson (s : Step) : Json :=
  .object [("name", .string s.name), ("type", .string s.kind.name), ("config", s.config),
    ("cache", .bool s.cache)]

structure Pipeline where
  metadata : Metadata
  parameters : List ParameterDecl
  steps : List Step
  output : String
  /-- The step names, each after the names it depends on. -/
  order : List String
  /-- The names each step depends on. -/
  dependencies : Record (List String)

namespace Pipeline

def step? (p : Pipeline) (name : String) : Option Step := p.steps.find? fun s => s.name == name

def dependenciesOf (p : Pipeline) (name : String) : List String :=
  (p.dependencies.get? name).getD []

/-- The steps in the order in which they run. -/
def orderedSteps (p : Pipeline) : List Step := p.order.filterMap p.step?

def toJson (p : Pipeline) : Json :=
  .object [("metadata", p.metadata.toJson),
    ("parameters", .array (p.parameters.map ParameterDecl.toJson)),
    ("steps", .array (p.steps.map Step.toJson)), ("output", .string p.output)]

end Pipeline

end RowPipeline
