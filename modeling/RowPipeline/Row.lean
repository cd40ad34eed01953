import RowPipeline.Value
import RowPipeline.Sorting
import RowPipeline.Text.Quoted

/-!
# Rows

A row is a record of values. A field reference finds its column by exact name first, then across the
spellings that joins produce.
-/

namespace RowPipeline

abbrev Row := Record Value

/-- Parameter values by name. -/
abbrev Parameters := Record Value

/-- The unit separator, put between the parts of a composite key. -/
def unitSeparator : String := "\x1f"

/-- One text per list of values: their keys, put together. -/
def compositeKey (values : List Value) : String :=
  unitSeparator.intercalate (values.map Value.canonicalKey)

/-- Why JSON is not a list of rows. -/
inductive RowsError where
  | notAnArray
  | notAnObject (index : Nat)
deriving DecidableEq

def RowsError.message : RowsError → String
  | .notAnArray => "expected an array of rows"
  | .notAnObject index => "row " ++ toString index ++ " is not an object"

namespace Row

def ofJsonFields (fields : List (String × Json)) : Row :=
  Record.ofList (Value.fieldsOfJson fields)

def toJson (row : Row) : Json := .object (Value.fieldsToJson row.entries)

/-- Cut a text at its last point. -/
def splitAtLastPoint? (name : String) : Option (String × String) :=
  let reversed := name.toList.reverse
  let bare := reversed.takeWhile (· != '.')
  match reversed.dropWhile (· != '.') with
  | [] => none
  | _ :: qualifier => some (String.ofList qualifier.reverse, String.ofList bare.reverse)

/-- The value a field reference names. Without an exact column, a qualified name falls back to its
parts joined by an underscore and then to the bare name; an unqualified one to the only column that
ends in it after a point. -/
def lookup? (row : Row) (name : String) : Option Value :=
  match row.get? name with
  | some v => some v
  | none =>
      match splitAtLastPoint? name with
      | some (qualifier, bare) =>
          match row.get? (qualifier ++ "_" ++ bare) with
          | some v => some v
          | none => row.get? bare
      | none =>
          match row.entries.filter fun p => ("." ++ name).toList.isSuffixOf p.1.toList with
          | [(_, v)] => some v
          | _ => none

def hasField (row : Row) (name : String) : Bool := (row.lookup? name).isSome

/-- The value of a field, null when there is none. -/
def lookupD (row : Row) (name : String) : Value := (row.lookup? name).getD .null

/-- One text per set of named values: the columns in name order, each quoted and followed by its
value's key. -/
def identity (row : Row) : String :=
  let pairs := row.entries.map fun p => (p.1, p.2.canonicalKey)
  let sorted := sortBy (fun a b => compare a.1 b.1) pairs
  unitSeparator.intercalate (sorted.map fun p => Text.quoted p.1 ++ "=" ++ p.2)

end Row

/-- Rows from JSON, which has to be an array of objects. -/
def rowsOfJson (j : Json) : Except RowsError (List Row) :=
  match j with
  | .array items => go 0 items
  | _ => .error .notAnArray
where
  go : Nat → List Json → Except RowsError (List Row)
    | _, [] => .ok []
    | index, .object fields :: rest =>
        (go (index + 1) rest).map (Row.ofJsonFields fields :: ·)
    | index, _ :: _ => .error (.notAnObject index)

def rowsToJson (rows : List Row) : Json := .array (rows.map Row.toJson)

/-- Append a name unless it is already listed. -/
def addName (names : List String) (name : String) : List String :=
  if name ∈ names then names else names ++ [name]

/-- The columns of all rows in order of first appearance. -/
def columnNames (rows : List Row) : List String :=
  rows.foldl (fun names row => row.keys.foldl addName names) []

end RowPipeline
