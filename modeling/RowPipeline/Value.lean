import RowPipeline.Json

/-!
# Values

The tagged values of rows, parameters and expressions, with their equalities, orders and texts.
`looseEq` is the equality of the expression language, `totalCompare` the order of sorting, and
`canonicalKey` the text that grouping and joining compare.
-/

namespace RowPipeline

inductive Value where
  | null
  | bool (b : Bool)
  | int (i : Int64)
  | float (x : Float)
  | string (s : String)
  | array (items : List Value)
  | object (fields : List (String × Value))

namespace Value

instance : Inhabited Value := ⟨.null⟩

/-- The name of a value's type in messages. -/
def typeName : Value → String
  | .null => "null"
  | .bool _ => "boolean"
  | .int _ => "integer"
  | .float _ => "number"
  | .string _ => "string"
  | .array _ => "array"
  | .object _ => "object"

def isNull : Value → Bool
  | .null => true
  | _ => false

def isNumeric : Value → Bool
  | .int _ | .float _ => true
  | _ => false

def toFloat? : Value → Option Float
  | .int i => some (Binary64.ofInt64 i)
  | .float x => some x
  | _ => none

/-- The integer of an integral number; a double past the 64-bit range gives the end of the range. -/
def toInt64? : Value → Option Int64
  | .int i => some i
  | .float x => Binary64.toInt64? x
  | _ => none

def toString? : Value → Option String
  | .string s => some s
  | _ => none

def toBool? : Value → Option Bool
  | .bool b => some b
  | _ => none

def toArray? : Value → Option (List Value)
  | .array items => some items
  | _ => none

/-- Zero, the empty text, array and object, false and null count as false. -/
def isTruthy : Value → Bool
  | .null => false
  | .bool b => b
  | .int i => i != 0
  | .float x => x != 0
  | .string s => !s.isEmpty
  | .array items => !items.isEmpty
  | .object fields => !fields.isEmpty

/-- A natural number; one past the signed 64-bit range is null. -/
def ofNat (n : Nat) : Value := if n < 0x8000000000000000 then .int (Int64.ofNat n) else .null

/-! ## Equality -/

mutual

/-- Equality that tells integers and doubles apart. The order of names in an object does not
count. -/
def same : Value → Value → Bool
  | .null, .null => true
  | .bool a, .bool b => a == b
  | .int a, .int b => a == b
  | .float a, .float b => a == b
  | .string a, .string b => a == b
  | .array a, .array b => sameItems a b
  | .object a, .object b => a.length == b.length && sameFields a b
  | _, _ => false

def sameItems : List Value → List Value → Bool
  | [], [] => true
  | a :: as, b :: bs => same a b && sameItems as bs
  | _, _ => false

/-- Whether every field of the first list has an equal one in the second. -/
def sameFields : List (String × Value) → List (String × Value) → Bool
  | [], _ => true
  | (k, a) :: rest, other =>
      (match Assoc.get? k other with
        | some b => same a b
        | none => false) && sameFields rest other

end

/-- The equality of the expression language: numbers of different kinds are compared as doubles. -/
def looseEq : Value → Value → Bool
  | .int a, .float b => Binary64.ofInt64 a == b
  | .float a, .int b => a == Binary64.ofInt64 b
  | a, b => same a b

mutual

/-- Whether two values are one and the same, with their doubles bit by bit and the names of their objects
in one order. -/
def identical : Value → Value → Bool
  | .null, .null => true
  | .bool a, .bool b => a == b
  | .int a, .int b => a == b
  | .float a, .float b => decide (a = b)
  | .string a, .string b => a == b
  | .array a, .array b => identicalItems a b
  | .object a, .object b => identicalFields a b
  | _, _ => false

def identicalItems : List Value → List Value → Bool
  | [], [] => true
  | a :: as, b :: bs => identical a b && identicalItems as bs
  | _, _ => false

def identicalFields : List (String × Value) → List (String × Value) → Bool
  | [], [] => true
  | (k, a) :: as, (l, b) :: bs => k == l && identical a b && identicalFields as bs
  | _, _ => false

end

mutual

theorem identical_iff (a b : Value) : identical a b = true ↔ a = b := by
  cases a with
  | null => cases b <;> simp [identical]
  | bool _ => cases b <;> simp [identical]
  | int _ => cases b <;> simp [identical]
  | float _ => cases b <;> simp [identical]
  | string _ => cases b <;> simp [identical]
  | array as => cases b <;> simp [identical, identicalItems_iff as]
  | object as => cases b <;> simp [identical, identicalFields_iff as]
termination_by structural a

theorem identicalItems_iff (as bs : List Value) : identicalItems as bs = true ↔ as = bs := by
  cases as with
  | nil => cases bs <;> simp [identicalItems]
  | cons a as => cases bs <;> simp [identicalItems, identical_iff a, identicalItems_iff as]
termination_by structural as

theorem identicalFields_iff (as bs : List (String × Value)) :
    identicalFields as bs = true ↔ as = bs := by
  cases as with
  | nil => cases bs <;> simp [identicalFields]
  | cons f as =>
      obtain ⟨k, a⟩ := f
      cases bs with
      | nil => simp [identicalFields]
      | cons g bs => simp [identicalFields, identical_iff a, identicalFields_iff as, Prod.ext_iff]
termination_by structural as

end

instance : DecidableEq Value := fun a b => decidable_of_iff _ (identical_iff a b)

/-! ## Text -/

mutual

/-- The JSON of a value. A double that is no number becomes null. -/
def toJson : Value → Json
  | .null => .null
  | .bool b => .bool b
  | .int i => .number (.int i)
  | .float x => Json.ofFloat x
  | .string s => .string s
  | .array items => .array (itemsToJson items)
  | .object fields => .object (fieldsToJson fields)

def itemsToJson : List Value → List Json
  | [] => []
  | v :: rest => toJson v :: itemsToJson rest

def fieldsToJson : List (String × Value) → List (String × Json)
  | [] => []
  | (k, v) :: rest => (k, toJson v) :: fieldsToJson rest

end

mutual

/-- The JSON whose text is a value's key: an integral double within the 64-bit range is written as
an integer. -/
def keyJson : Value → Json
  | .null => .null
  | .bool b => .bool b
  | .int i => .number (.int i)
  | .float x =>
      match Binary64.smallInt64? x with
      | some i => .number (.int i)
      | none => Json.ofFloat x
  | .string s => .string s
  | .array items => .array (itemsKeyJson items)
  | .object fields => .object (fieldsKeyJson fields)

def itemsKeyJson : List Value → List Json
  | [] => []
  | v :: rest => keyJson v :: itemsKeyJson rest

def fieldsKeyJson : List (String × Value) → List (String × Json)
  | [] => []
  | (k, v) :: rest => (k, keyJson v) :: fieldsKeyJson rest

end

/-- The text that stands for a value in groups, joins and sets. -/
def canonicalKey (v : Value) : String := v.keyJson.render

/-- The text of a value inside other text. -/
def display : Value → String
  | .null => "null"
  | .bool b => if b then "true" else "false"
  | .int i => toString i.toInt
  | .float x => Decimal.plainLayout.write x
  | .string s => s
  | .array items => canonicalKey (.array items)
  | .object fields => canonicalKey (.object fields)

mutual

def ofJson : Json → Value
  | .null => .null
  | .bool b => .bool b
  | .number (.int i) => .int i
  | .number (.big n) => .float n.toFloat
  | .number (.float x) => .float x
  | .string s => .string s
  | .array items => .array (itemsOfJson items)
  | .object fields => .object (fieldsOfJson fields)

def itemsOfJson : List Json → List Value
  | [] => []
  | j :: rest => ofJson j :: itemsOfJson rest

def fieldsOfJson : List (String × Json) → List (String × Value)
  | [] => []
  | (k, j) :: rest => (k, ofJson j) :: fieldsOfJson rest

end

theorem ofJson_ne_null {j : Json} (h : j ≠ .null) : ofJson j ≠ .null := by
  cases j with
  | null => exact absurd rfl h
  | number n => cases n <;> exact nofun
  | _ => exact nofun

/-! ## Order -/

/-- The order of comparable values: two numbers, two texts, or two booleans. -/
def compare? : Value → Value → Option Ordering
  | .int a, .int b => some (compare a.toInt b.toInt)
  | .int a, .float b => Binary64.compare? (Binary64.ofInt64 a) b
  | .float a, .int b => Binary64.compare? a (Binary64.ofInt64 b)
  | .float a, .float b => Binary64.compare? a b
  | .string a, .string b => some (compare a b)
  | .bool a, .bool b => some (compare a.toNat b.toNat)
  | _, _ => none

/-- The place of a value's type in the sorting order. -/
def kindRank : Value → Nat
  | .null => 0
  | .bool _ => 1
  | .int _ | .float _ => 2
  | .string _ => 3
  | .array _ => 4
  | .object _ => 5

/-- The sorting order of values other than arrays. -/
def compareAtoms (a b : Value) : Ordering :=
  match compare? a b with
  | some order => order
  | none =>
      match a, b with
      | .float x, .float y => Binary64.totalCompare x y
      | a, b => (compare a.kindRank b.kindRank).then (compare a.canonicalKey b.canonicalKey)

mutual

/-- The sorting order: types first, within a type the values' own order; arrays item by item and
then by length, objects by their keys. -/
def totalCompare : Value → Value → Ordering
  | .array a, .array b => compareItems a b
  | a, b => compareAtoms a b

def compareItems : List Value → List Value → Ordering
  | [], [] => .eq
  | [], _ :: _ => .lt
  | _ :: _, [] => .gt
  | a :: as, b :: bs => (totalCompare a b).then (compareItems as bs)

end

end Value

end RowPipeline
