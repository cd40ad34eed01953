import RowPipeline.Json.Decode
import RowPipeline.Run.Journal

/-!
# Entries of a cache

The JSON that is stored for an output or a result, and how it is read again. A field that says nothing
may be left out, and stands for its default when it is read. The number of a run is its identity and
stored as a text; counts that follow from the rest are stored, but not read.
-/

namespace RowPipeline

open Json

namespace Json

/-- A field that is left out if there is nothing to write. -/
def fieldOf (name : String) (j : Option Json) : List (String × Json) := j.toList.map fun j => (name, j)

def ofStrings (texts : List String) : Json := .array (texts.map .string)

/-- An array, unless it is empty. -/
def unlessEmpty : List Json → Option Json
  | [] => none
  | items => some (.array items)

/-- A value, unless it is null. -/
def unlessNull : Json → Option Json
  | .null => none
  | j => some j

def decodeNat (j : Json) : Decoded Nat := (decodeUInt64 j).map UInt64.toNat

end Json

def Row.decode : Json → Decoded Row
  | .object fields => .ok (.ofJsonFields fields)
  | _ => .error (.expected "a map")

namespace StepOutput

def toJson (o : StepOutput) : Json :=
  .object ([("rows", rowsToJson o.rows)] ++
    fieldOf "total_count" (o.totalCount.map fun n => .ofNat n.toNat) ++
    [("warnings", ofStrings o.warnings), ("details", o.details)])

def ofJson (j : Json) : Decoded StepOutput := do
  let s ← slots [["rows"], ["total_count"], ["warnings"], ["details"]] j
  let rows ← s.required "rows" (decodeArray Row.decode)
  let totalCount ← s.optional "total_count" decodeUInt64
  let warnings ← s.withDefault "warnings" [] (decodeArray decodeString)
  let details ← s.withDefault "details" .null decodeAny
  return { rows, totalCount, warnings, details }

end StepOutput

def StepKind.decode : Json → Decoded StepKind :=
  decodeChoice (StepKind.all.map fun kind => (kind.name, kind))

def StepStatus.decode : Json → Decoded StepStatus :=
  decodeChoice ([.success, .failed, .skipped].map fun status => (StepStatus.name status, status))

namespace StepResult

def toJson (r : StepResult) : Json :=
  .object ([("step_name", .string r.stepName), ("step_type", .string r.kind.name),
      ("status", .string r.status.name), ("row_count", .ofNat r.rowCount),
      ("cache_hit", .bool r.cacheHit)] ++
    fieldOf "error" (r.error.map .string) ++
    fieldOf "warnings" (unlessEmpty (r.warnings.map .string)) ++
    fieldOf "details" (unlessNull r.details))

def ofJson (j : Json) : Decoded StepResult := do
  let s ← slots [["step_name"], ["step_type"], ["status"], ["row_count"], ["cache_hit"], ["error"],
    ["warnings"], ["details"]] j
  let stepName ← s.required "step_name" decodeString
  let kind ← s.required "step_type" StepKind.decode
  let status ← s.required "status" StepStatus.decode
  let rowCount ← s.required "row_count" decodeNat
  let cacheHit ← s.required "cache_hit" decodeBool
  let error ← s.optional "error" decodeString
  let warnings ← s.withDefault "warnings" [] (decodeArray decodeString)
  let details ← s.withDefault "details" .null decodeAny
  return { stepName, kind, status, rowCount, cacheHit, error, warnings, details }

end StepResult

namespace PageInfo

def toJson (i : PageInfo) : Json :=
  .object [("page", .ofNat i.page.toNat), ("page_size", .ofNat i.pageSize.toNat),
    ("total_count", .ofNat i.totalCount.toNat), ("total_pages", .ofNat i.totalPages.toNat),
    ("has_next", .bool i.hasNext), ("has_previous", .bool i.hasPrevious)]

def ofJson (j : Json) : Decoded PageInfo := do
  let s ← slots [["page"], ["page_size"], ["total_count"], ["total_pages"]] j
  let page ← s.required "page" decodeUInt64
  let pageSize ← s.required "page_size" decodeUInt64
  let totalCount ← s.required "total_count" decodeUInt64
  let totalPages ← s.required "total_pages" decodeUInt64
  return { page, pageSize, totalCount, totalPages }

end PageInfo

namespace FailureRecord

def toJson (f : FailureRecord) : Json :=
  .object [("step_name", .string f.stepName), ("step_type", .string f.stepType),
    ("message", .string f.message), ("error_type", .string f.errorType)]

def ofJson (j : Json) : Decoded FailureRecord := do
  let s ← slots [["step_name"], ["step_type"], ["message"], ["error_type"]] j
  let stepName ← s.required "step_name" decodeString
  let stepType ← s.required "step_type" decodeString
  let message ← s.required "message" decodeString
  let errorType ← s.required "error_type" decodeString
  return { stepName, stepType, message, errorType }

end FailureRecord

namespace RunResult

/-- What a result tells of its run. -/
structure Header where
  name : String
  version : String
  run : Nat
  output : String

def Header.toJson (h : Header) : Json :=
  .object [("name", .string h.name), ("version", .string h.version),
    ("run_id", .string (toString h.run)), ("output", .string h.output)]

def Header.ofJson (j : Json) : Decoded Header := do
  let s ← slots [["name"], ["version"], ["run_id"], ["output"]] j
  let name ← s.required "name" decodeString
  let version ← s.required "version" decodeString
  let run ← s.required "run_id" decodeString
  let output ← s.required "output" decodeString
  return { name, version, run := Decimal.digitsValue run.toList, output }

def header (r : RunResult) : Header := ⟨r.name, r.version, r.run, r.output⟩

def infoToJson (r : RunResult) : Json :=
  .object [("row_count", .ofNat r.rows.length), ("cache_hit", .bool r.cacheHit),
    ("steps_executed", .ofNat r.stepsExecuted)]

def decodeHit (j : Json) : Decoded Bool := do
  let s ← slots [["row_count"], ["cache_hit"], ["steps_executed"]] j
  s.required "cache_hit" decodeBool

def toJson (r : RunResult) : Json :=
  .object ([("success", .bool r.success), ("data", rowsToJson r.rows),
      ("metadata", r.header.toJson), ("execution_info", r.infoToJson),
      ("step_results", .array (r.stepResults.map StepResult.toJson))] ++
    fieldOf "pagination" (r.page.map PageInfo.toJson) ++
    fieldOf "errors" (unlessEmpty (r.failures.map FailureRecord.toJson)))

def ofJson (j : Json) : Decoded RunResult := do
  let s ← slots [["success"], ["data"], ["metadata"], ["execution_info"], ["step_results"],
    ["pagination"], ["errors"]] j
  let success ← s.required "success" decodeBool
  let rows ← s.required "data" (decodeArray Row.decode)
  let h ← s.required "metadata" Header.ofJson
  let cacheHit ← s.required "execution_info" decodeHit
  let stepResults ← s.required "step_results" (decodeArray StepResult.ofJson)
  let page ← s.optional "pagination" PageInfo.ofJson
  let failures ← s.withDefault "errors" [] (decodeArray FailureRecord.ofJson)
  return { success, rows, name := h.name, version := h.version, run := h.run, output := h.output
           cacheHit, stepResults, page, failures }

end RunResult

end RowPipeline
