import RowPipeline.Row
import RowPipeline.Sha256

/-!
# Fingerprints

The canonical text of JSON, in which the names of every object are sorted, and the digests of such
texts that serve as cache keys.
-/

namespace RowPipeline

namespace Json

mutual

/-- The compact text with the names of each object in order. -/
def canonical : Json → String
  | .array items => "[" ++ ",".intercalate (canonicalItems items) ++ "]"
  | .object fields =>
      let sorted := sortBy (fun a b => compare a.1 b.1) (canonicalFields fields)
      "\x7b" ++ ",".intercalate (sorted.map fun f => renderString f.1 ++ ":" ++ f.2) ++ "\x7d"
  | j => j.render

def canonicalItems : List Json → List String
  | [] => []
  | item :: rest => item.canonical :: canonicalItems rest

/-- The fields with their values as canonical texts. -/
def canonicalFields : List (String × Json) → List (String × String)
  | [] => []
  | (name, j) :: rest => (name, j.canonical) :: canonicalFields rest

end

/-- The digest of the canonical text. -/
def fingerprint (j : Json) : String := Sha256.ofText j.canonical

end Json

/-- The canonical texts of rows, a line each. -/
def canonicalRows (rows : List Row) : String :=
  String.join (rows.map fun row => row.toJson.canonical ++ "\n")

def rowsFingerprint (rows : List Row) : String := Sha256.ofText (canonicalRows rows)

/-- The cache key of a step's result: the kind of the step, its settings, and one text for each step
it depends on. -/
def stepKey (kind : String) (config : Json) (inputs : List String) : String :=
  "uqm:step:" ++ (Json.object [("type", .string kind), ("config", config),
    ("upstream", .array (inputs.map .string))]).fingerprint

/-- The cache key of a whole run. -/
def runKey (document : Json) (params : Parameters) (page pageSize : Option UInt64) : String :=
  let number (n : Option UInt64) : Json := (n.map fun n => Json.ofNat n.toNat).getD .null
  "uqm:pipeline:" ++ (Json.object [("document", document), ("parameters", Row.toJson params),
    ("page", number page), ("page_size", number pageSize)]).fingerprint

end RowPipeline
