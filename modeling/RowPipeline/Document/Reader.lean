import RowPipeline.Document
import RowPipeline.Document.Order
import RowPipeline.Json.Reader
import RowPipeline.Parameter.Substitution

/-!
# Reading documents

A document is read part by part, and each part collects its problems, so that a validation can
report them all. A document without problems becomes a pipeline.
-/

namespace RowPipeline

namespace Document

/-- A part of a document and the problems met in it. -/
structure Part (α : Type) where
  value : α
  errors : List ParseError

def problem (field message : String) (value : Option Json) : ParseError :=
  ⟨some field, message, value⟩

def readMetadata : Option Json → Part Metadata
  | none | some .null => ⟨{}, []⟩
  | some raw =>
      match Metadata.ofJson raw with
      | .ok m => ⟨m, []⟩
      | .error e => ⟨{}, [problem "metadata" ("invalid metadata: " ++ e.message) (some raw)]⟩

/-- The field of an array item. -/
def itemField (name : String) (index : Nat) : String := name ++ "[" ++ toString index ++ "]"

/-- Declarations from an index on; `seen` holds the names before them. -/
def readDeclarations (seen : List String) : Nat → List Json → Part (List ParameterDecl)
  | _, [] => ⟨[], []⟩
  | index, item :: rest =>
      let field := itemField "parameters" index
      match ParameterDecl.ofJson item with
      | .error e =>
          let others := readDeclarations seen (index + 1) rest
          ⟨others.value,
            problem field ("invalid parameter: " ++ e.message) (some item) :: others.errors⟩
      | .ok p =>
          if (Text.trimBlanks p.name).isEmpty then
            let others := readDeclarations seen (index + 1) rest
            ⟨others.value,
              problem (field ++ ".name") "parameter name is empty" (some item) :: others.errors⟩
          else
            let others := readDeclarations (p.name :: seen) (index + 1) rest
            let repeated := if p.name ∈ seen then
              [problem (field ++ ".name") ("duplicate parameter '" ++ p.name ++ "'") (some item)]
              else []
            ⟨p :: others.value, repeated ++ others.errors⟩

def readParameters : Option Json → Part (List ParameterDecl)
  | none | some .null => ⟨[], []⟩
  | some (.array items) => readDeclarations [] 0 items
  | some other => ⟨[], [problem "parameters" "parameters must be an array" (some other)]⟩

/-- What is known of a step after its name: the step, if the rest is in order, and the problems. -/
def readStepBody (field name : String) (fields : List (String × Json)) : Part (Option Step) :=
  let kind : Except ParseError StepKind :=
    match Assoc.get? "type" fields with
    | some (.string text) =>
        match StepKind.read text with
        | .ok kind => .ok kind
        | .error e => .error (e.withField (field ++ ".type"))
    | other => .error (problem (field ++ ".type") "step type is required" other)
  match kind with
  | .error e => ⟨none, [e]⟩
  | .ok kind =>
      match Assoc.get? "config" fields with
      | none => ⟨none, [problem (field ++ ".config") "step config is required" none]⟩
      | some (.object config) =>
          match Assoc.get? "cache" fields with
          | none | some .null => ⟨some ⟨name, kind, .object config, true⟩, []⟩
          | some (.bool cache) => ⟨some ⟨name, kind, .object config, cache⟩, []⟩
          | some other =>
              ⟨some ⟨name, kind, .object config, true⟩,
                [problem (field ++ ".cache") "cache must be a boolean" (some other)]⟩
      | some other =>
          ⟨none, [problem (field ++ ".config") "step config must be an object" (some other)]⟩

/-- The name of a step, unless it is missing or blank. -/
def stepName? (fields : List (String × Json)) : Option String :=
  match Assoc.get? "name" fields with
  | some (.string name) => if (Text.trimBlanks name).isEmpty then none else some name
  | _ => none

/-- Steps from an index on; `seen` holds the names before them. -/
def readStepsFrom (seen : List String) : Nat → List Json → Part (List Step)
  | _, [] => ⟨[], []⟩
  | index, item :: rest =>
      let field := itemField "steps" index
      match item with
      | .object fields =>
          match stepName? fields with
          | none =>
              let others := readStepsFrom seen (index + 1) rest
              ⟨others.value,
                problem (field ++ ".name") "step name is required" (Assoc.get? "name" fields)
                  :: others.errors⟩
          | some name =>
              let repeated := if name ∈ seen then
                [problem (field ++ ".name") ("duplicate step name '" ++ name ++ "'")
                  (some (.string name))]
                else []
              let body := readStepBody field name fields
              let others := readStepsFrom (name :: seen) (index + 1) rest
              ⟨body.value.toList ++ others.value, repeated ++ body.errors ++ others.errors⟩
      | item =>
          let others := readStepsFrom seen (index + 1) rest
          ⟨others.value, problem field "step must be an object" (some item) :: others.errors⟩

def readSteps : Option Json → Part (List Step)
  | some (.array []) => ⟨[], [problem "steps" "pipeline must have at least one step" none]⟩
  | some (.array items) => readStepsFrom [] 0 items
  | none | some .null => ⟨[], [problem "steps" "steps is required" none]⟩
  | some other => ⟨[], [problem "steps" "steps must be an array" (some other)]⟩

/-- The name of the last step. -/
def lastName (steps : List Step) : String := (steps.getLast?.map Step.name).getD ""

/-- The output step, and whether it is the last step for want of a name. -/
def readOutput (steps : List Step) : Option Json → Part (String × Bool)
  | none | some .null => ⟨(lastName steps, true), []⟩
  | some (.string name) =>
      ⟨(name, false),
        if !steps.isEmpty && !steps.any (fun s => s.name == name) then
          [problem "output" ("output references unknown step '" ++ name ++ "'")
            (some (.string name))]
        else []⟩
  | some other => ⟨("", false), [problem "output" "output must be a step name" (some other)]⟩

/-- The names under `source`: one, or the strings of an array. -/
def sourceNames : Option Json → List (String × String)
  | some (.string name) => [("source", name)]
  | some (.array items) =>
      (items.mapIdx fun i item => item.asString?.map fun name => (itemField "source" i, name))
        |>.filterMap id
  | _ => []

/-- The names under `sources`, where anything but a string is a problem. -/
def sourcesNames (field : String) : Option Json → Part (List (String × String))
  | some (.string name) => ⟨[("sources", name)], []⟩
  | some (.array items) =>
      ⟨(items.mapIdx fun i item => item.asString?.map fun name => (itemField "sources" i, name))
          |>.filterMap id,
        (items.mapIdx fun i item =>
          match item with
          | .string _ => none
          | item =>
              some (problem (field ++ ".config." ++ itemField "sources" i)
                "source must be a step name" (some item)))
          |>.filterMap id⟩
  | _ => ⟨[], []⟩

/-- The names a step may refer to where a table of that name is meant if there is no such step. -/
def softReferences (s : Step) : List String :=
  let textAt (name : String) (j : Json) : Option String := (j.field? name).bind Json.asString?
  let itemsAt (name : String) : List Json := ((s.config.field? name).bind Json.asArray?).getD []
  match s.kind with
  | .query => (textAt "data_source" s.config).toList ++ (itemsAt "joins").filterMap (textAt "table")
  | .enrich =>
      (textAt "lookup" s.config).toList ++
        ((s.config.field? "lookup").bind (textAt "step")).toList
  | .assert => (itemsAt "assertions").filterMap (textAt "reference")
  | .pivot | .unpivot | .union => []

/-- The steps a step depends on, each once. -/
def readDependencies (names : List String) (index : Nat) (s : Step) : Part (List String) :=
  let field := itemField "steps" index
  let sources := sourcesNames field (s.config.field? "sources")
  let strict := sourceNames (s.config.field? "source") ++ sources.value
  let known := (strict.map Prod.snd).filter (· ∈ names)
  let soft := (softReferences s).filter fun name => name != s.name && name ∈ names
  ⟨(known ++ soft).foldl addName [],
    sources.errors ++ (strict.filter fun p => p.2 ∉ names).map fun p =>
      problem (field ++ ".config." ++ p.1)
        ("step '" ++ s.name ++ "' references unknown step '" ++ p.2 ++ "'")
        (some (.string p.2))⟩

/-- The dependencies of all steps. -/
def readGraph (steps : List Step) : Part (Record (List String)) :=
  let names := steps.map Step.name
  let parts := steps.mapIdx fun i s => (s.name, readDependencies names i s)
  ⟨Record.ofList (parts.map fun p => (p.1, p.2.value)), (parts.map fun p => p.2.errors).flatten⟩

/-- What reading a document leads to: a pipeline or problems, and whether the output was given. -/
structure Outcome where
  pipeline : Except (List ParseError) Pipeline
  outputDefaulted : Bool

/-- Read a whole document. -/
def read (doc : Json) : Outcome :=
  match doc with
  | .object root =>
      let metadata := readMetadata (Assoc.get? "metadata" root)
      let parameters := readParameters (Assoc.get? "parameters" root)
      let steps := readSteps (Assoc.get? "steps" root)
      let output := readOutput steps.value (Assoc.get? "output" root)
      let graph := readGraph steps.value
      let errors := metadata.errors ++ parameters.errors ++ steps.errors ++ output.errors
      let pipeline : Except (List ParseError) Pipeline :=
        if !errors.isEmpty then .error errors
        else if !graph.errors.isEmpty then .error graph.errors
        else
          match topologicalOrder (steps.value.map Step.name) graph.value with
          | .error cycle => .error [cycle.toParseError]
          | .ok order =>
              .ok ⟨metadata.value, parameters.value, steps.value, output.value.1, order,
                graph.value⟩
      ⟨pipeline, output.value.2⟩
  | _ => ⟨.error [problem "" "pipeline document must be an object" none], false⟩

/-- The result of a validation. -/
structure Validation where
  errors : List Issue
  warnings : List String

def Validation.valid (v : Validation) : Bool := v.errors.isEmpty

/-- What deserves a warning in a document without problems. -/
def warnings (p : Pipeline) (stepLimit : UInt64) (outputDefaulted : Bool) : List String :=
  let used := p.steps.flatMap fun s => references s.config
  let count := p.steps.length
  (if (Text.trimBlanks p.metadata.description).isEmpty then ["Pipeline has no description"] else [])
    ++ (p.parameters.filter fun d => d.name ∉ used).map (fun d =>
      "Parameter '" ++ d.name ++ "' is declared but never used")
    ++ (if stepLimit.toNat < count then
      ["Pipeline has " ++ toString count ++ " steps (more than " ++ toString stepLimit.toNat ++
        "); consider splitting it"] else [])
    ++ (if outputDefaulted then
      ["No output step given; defaulting to last step '" ++ p.output ++ "'"] else [])

/-- All problems of a document, or its warnings. -/
def validate (doc : Json) (stepLimit : UInt64) : Validation :=
  let outcome := read doc
  match outcome.pipeline with
  | .ok p => ⟨[], warnings p stepLimit outcome.outputDefaulted⟩
  | .error errors => ⟨errors.map ParseError.toIssue, []⟩

end Document

namespace Pipeline

/-- Read a document, failing with its first problem. -/
def ofJson (doc : Json) : Except ParseError Pipeline :=
  match (Document.read doc).pipeline with
  | .ok p => .ok p
  | .error (e :: _) => .error e
  | .error [] => .error (.of "invalid pipeline document")

/-- Read the text of a document. -/
def parse (text : String) : Except ParseError Pipeline :=
  match Json.parse text with
  | .ok doc => ofJson doc
  | .error _ => .error (.of "invalid JSON: malformed text")

/-- The pipeline without the conditions whose gate is closed. -/
def resolveFilters (params : Parameters) (p : Pipeline) : Except ParseError Pipeline := do
  let steps ← (p.steps.zipIdx).mapM fun (s, i) => do
    let config ← RowPipeline.resolveFilters params ("steps[" ++ toString i ++ "].config") s.config
    return { s with config }
  return { p with steps }

/-- The pipeline with parameter references replaced. -/
def substitute (params : Parameters) (p : Pipeline) : Pipeline :=
  { p with steps := p.steps.map fun s => { s with config := substituteValue params s.config } }

end Pipeline

end RowPipeline
