import RowPipeline.Fault
import RowPipeline.Json.Decode
import RowPipeline.Json.Record
import RowPipeline.Sql.Dialect

/-!
# Settings

The settings of an engine and the options of one run.
-/

namespace RowPipeline

/-- What an expression that fails on a row leads to: a null, or the failure of the step. -/
inductive ExpressionFailure where
  | null
  | error
deriving DecidableEq

namespace ExpressionFailure

def name : ExpressionFailure → String
  | .null => "null"
  | .error => "error"

def ofName? (text : String) : Option ExpressionFailure :=
  match Text.asciiLower (Text.trimBlanks text) with
  | "null" => some .null
  | "error" => some .error
  | _ => none

/-- Read the name of a policy. -/
def read (text : String) : Except Issue ExpressionFailure :=
  match ofName? text with
  | some policy => .ok policy
  | none =>
      .error ⟨"expression_failure", "expected 'null' or 'error', got '" ++ text ++ "'", none⟩

end ExpressionFailure

/-- From this many steps on a document draws a warning. -/
def defaultStepLimit : UInt64 := 50

structure EngineConfig where
  dialect : Dialect := .generic
  stepCacheEnabled : Bool := true
  stepCacheTtl : UInt64 := 300
  pipelineCacheEnabled : Bool := true
  pipelineCacheTtl : UInt64 := 300
  continueOnError : Bool := false
  expressionFailure : ExpressionFailure := .null
  stepLimit : UInt64 := defaultStepLimit
  defaultPageSize : UInt64 := 100
  maxPageSize : UInt64 := 10000

namespace EngineConfig

open Json

def decodeDialect : Json → Decoded Dialect :=
  decodeChoice [("generic", .generic), ("postgres", .postgres), ("postgresql", .postgres),
    ("mysql", .mySql), ("mariadb", .mySql), ("my_sql", .mySql), ("sqlite", .sqlite),
    ("sqlserver", .sqlServer), ("mssql", .sqlServer), ("sql_server", .sqlServer)]

def decodeExpressionFailure : Json → Decoded ExpressionFailure :=
  decodeChoice [("null", .null), ("error", .error)]

/-- The names of the settings in order. -/
def names : List String :=
  ["dialect", "step_cache_enabled", "step_cache_ttl_seconds", "pipeline_cache_enabled",
    "pipeline_cache_ttl_seconds", "continue_on_error", "expression_failure", "max_steps_warning",
    "default_page_size", "max_page_size"]

/-- Settings from JSON; what is absent takes its default. -/
def ofJson (j : Json) : Decoded EngineConfig := do
  let d : EngineConfig := {}
  let s ← slots (names.map fun name => [name]) j
  let dialect ← s.withDefault "dialect" d.dialect decodeDialect
  let stepCacheEnabled ← s.withDefault "step_cache_enabled" d.stepCacheEnabled decodeBool
  let stepCacheTtl ← s.withDefault "step_cache_ttl_seconds" d.stepCacheTtl decodeUInt64
  let pipelineCacheEnabled ←
    s.withDefault "pipeline_cache_enabled" d.pipelineCacheEnabled decodeBool
  let pipelineCacheTtl ← s.withDefault "pipeline_cache_ttl_seconds" d.pipelineCacheTtl decodeUInt64
  let continueOnError ← s.withDefault "continue_on_error" d.continueOnError decodeBool
  let expressionFailure ←
    s.withDefault "expression_failure" d.expressionFailure decodeExpressionFailure
  let stepLimit ← s.withDefault "max_steps_warning" d.stepLimit decodeUInt64
  let defaultPageSize ← s.withDefault "default_page_size" d.defaultPageSize decodeUInt64
  let maxPageSize ← s.withDefault "max_page_size" d.maxPageSize decodeUInt64
  return ⟨dialect, stepCacheEnabled, stepCacheTtl, pipelineCacheEnabled, pipelineCacheTtl,
    continueOnError, expressionFailure, stepLimit, defaultPageSize, maxPageSize⟩

def toJson (c : EngineConfig) : Json :=
  let nat (n : UInt64) : Json := Json.ofNat n.toNat
  .object [("dialect", .string c.dialect.name), ("step_cache_enabled", .bool c.stepCacheEnabled),
    ("step_cache_ttl_seconds", nat c.stepCacheTtl),
    ("pipeline_cache_enabled", .bool c.pipelineCacheEnabled),
    ("pipeline_cache_ttl_seconds", nat c.pipelineCacheTtl),
    ("continue_on_error", .bool c.continueOnError),
    ("expression_failure", .string c.expressionFailure.name),
    ("max_steps_warning", nat c.stepLimit), ("default_page_size", nat c.defaultPageSize),
    ("max_page_size", nat c.maxPageSize)]

def limitText (n : UInt64) : String := toString n.toNat

/-- The first setting that is out of bounds. -/
def problem? (c : EngineConfig) : Option Issue :=
  if c.maxPageSize = 0 then some ⟨"max_page_size", "must be positive", none⟩
  else if c.defaultPageSize = 0 || c.maxPageSize < c.defaultPageSize then
    some ⟨"default_page_size",
      "must be between 1 and max_page_size (" ++ limitText c.maxPageSize ++ ")", none⟩
  else none

/-- Settings from JSON, within their bounds. -/
def read (j : Json) : Except Fault EngineConfig := do
  let c ← (ofJson j).mapError fun e => .serialization e.message
  match c.problem? with
  | some issue => throw (.validation [issue])
  | none => return c

/-- Settings from JSON text, within their bounds. A setting must not be written twice, and what has
another name is not read. -/
def parse (text : String) : Except Fault EngineConfig :=
  match Json.parseRecord names text with
  | .error _ => .error (.serialization "malformed settings")
  | .ok j => read j

end EngineConfig

/-- The options of one run; what is not set follows the settings. -/
structure RunOptions where
  useCache : Option Bool := none
  continueOnError : Option Bool := none
  page : Option UInt64 := none
  pageSize : Option UInt64 := none

namespace RunOptions

open Json

def ofJson (j : Json) : Decoded RunOptions := do
  let s ← slots [["use_cache"], ["continue_on_error"], ["page"], ["page_size"]] j
  let useCache ← s.optional "use_cache" decodeBool
  let continueOnError ← s.optional "continue_on_error" decodeBool
  let page ← s.optional "page" decodeUInt64
  let pageSize ← s.optional "page_size" decodeUInt64
  return { useCache, continueOnError, page, pageSize }

/-- The page asked for and its size, if any, within the bounds of the settings. -/
def pagination (o : RunOptions) (c : EngineConfig) : Except Issue (Option (UInt64 × UInt64)) :=
  if o.page.isNone && o.pageSize.isNone then .ok none
  else
    let page := o.page.getD 1
    let pageSize := o.pageSize.getD c.defaultPageSize
    if page = 0 then .error ⟨"page", "must be 1 or greater", none⟩
    else if pageSize = 0 || c.maxPageSize < pageSize then
      .error ⟨"page_size",
        "must be between 1 and " ++ EngineConfig.limitText c.maxPageSize, none⟩
    else .ok (some (page, pageSize))

end RunOptions

end RowPipeline
