import RowPipeline.Json

/-!
# Reading records and choices from JSON

A record is written as an object, where a field can have several names and unknown names are
skipped, or as an array of its fields in order. A choice is written as its name.
-/

namespace RowPipeline.Json

/-- Why a JSON value is not what is asked for. -/
inductive DecodeError where
  | missing (field : String)
  | repeated (field : String)
  | tooLong
  | expected (what : String)
  | unknownName (name : String)
  | rejected (message : String)
deriving DecidableEq

def DecodeError.message : DecodeError → String
  | .missing field => "missing field '" ++ field ++ "'"
  | .repeated field => "duplicate field '" ++ field ++ "'"
  | .tooLong => "too many elements"
  | .expected what => "expected " ++ what
  | .unknownName name => "unknown name '" ++ name ++ "'"
  | .rejected message => message

abbrev Decoded := Except DecodeError

/-- What is found for a field: nothing in an object, nothing left in an array, or a value. -/
inductive Slot where
  | absent
  | pastEnd
  | given (j : Json)

/-- The slots of a record by field name. -/
abbrev Slots := List (String × Slot)

/-- The slot of a field in an object; two of its names together are an error. -/
def slotOf (fields : List (String × Json)) (names : List String) : Decoded Slot :=
  match fields.filter fun p => p.1 ∈ names with
  | [] => .ok .absent
  | [(_, j)] => .ok (.given j)
  | (name, _) :: _ => .error (.repeated name)

/-- The slots of a record read from an object. Each entry of `layout` lists the names of a field,
the main one first. -/
def objectSlots (fields : List (String × Json)) : List (List String) → Decoded Slots
  | [] => .ok []
  | names :: rest => do
      let slot ← slotOf fields names
      return (names.headD "", slot) :: (← objectSlots fields rest)

/-- The slots of a record read from an array. -/
def arraySlots : List Json → List (List String) → Decoded Slots
  | [], [] => .ok []
  | _ :: _, [] => .error .tooLong
  | [], names :: rest => do return (names.headD "", .pastEnd) :: (← arraySlots [] rest)
  | j :: items, names :: rest => do
      return (names.headD "", .given j) :: (← arraySlots items rest)

/-- The slots of a record. -/
def slots (layout : List (List String)) (j : Json) : Decoded Slots :=
  match j with
  | .object fields => objectSlots fields layout
  | .array items => arraySlots items layout
  | _ => .error (.expected "an object")

namespace Slots

def get (s : Slots) (name : String) : Slot := (Assoc.get? name s).getD .absent

/-- A field that has to be there. -/
def required {α : Type} (s : Slots) (name : String) (decode : Json → Decoded α) : Decoded α :=
  match s.get name with
  | .given j => decode j
  | _ => .error (.missing name)

/-- A field with a default; null does not stand for it. -/
def withDefault {α : Type} (s : Slots) (name : String) (default : α) (decode : Json → Decoded α) :
    Decoded α :=
  match s.get name with
  | .given j => decode j
  | _ => .ok default

/-- An optional field: absent or null means none. -/
def optional {α : Type} (s : Slots) (name : String) (decode : Json → Decoded α) :
    Decoded (Option α) :=
  match s.get name with
  | .given .null => .ok none
  | .given j => (decode j).map some
  | _ => .ok none

end Slots

def decodeString : Json → Decoded String
  | .string s => .ok s
  | _ => .error (.expected "a string")

def decodeBool : Json → Decoded Bool
  | .bool b => .ok b
  | _ => .error (.expected "a boolean")

def decodeUInt64 : Json → Decoded UInt64
  | .number n =>
      match n.toUInt64? with
      | some n => .ok n
      | none => .error (.expected "a non-negative integer")
  | _ => .error (.expected "a non-negative integer")

def decodeArray {α : Type} (decode : Json → Decoded α) : Json → Decoded (List α)
  | .array items => items.mapM decode
  | _ => .error (.expected "an array")

/-- One item, or an array of them. What reads as one item is one. -/
def decodeOneOrMany {α : Type} (decode : Json → Decoded α) (j : Json) : Decoded (List α) :=
  match decode j with
  | .ok a => .ok [a]
  | .error _ => decodeArray decode j

/-- A value as it stands. -/
def decodeAny (j : Json) : Decoded Json := .ok j

/-- The name of a choice: a string, or an object whose only name maps to null. -/
def decodeName : Json → Decoded String
  | .string s => .ok s
  | .object [(name, .null)] => .ok name
  | _ => .error (.expected "a name")

/-- A choice by its exact names. -/
def decodeChoice {α : Type} (choices : List (String × α)) (j : Json) : Decoded α := do
  let name ← decodeName j
  match Assoc.get? name choices with
  | some a => return a
  | none => throw (.unknownName name)

/-- The choice a tagged record names in its tag: by name, or by its place. -/
def decodeTag {α : Type} (choices : List (String × α)) : Json → Decoded α
  | .string name =>
      match Assoc.get? name choices with
      | some a => .ok a
      | none => .error (.unknownName name)
  | .number n =>
      match n.toUInt64?.bind fun place => choices[place.toNat]? with
      | some p => .ok p.2
      | none => .error (.expected "a tag")
  | _ => .error (.expected "a tag")

end RowPipeline.Json
