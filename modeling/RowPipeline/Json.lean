import RowPipeline.Decimal
import RowPipeline.Record

/-!
# JSON values

Objects keep the order of their names. A number is a signed 64-bit integer, an unsigned one past the
signed range, or a double.
-/

namespace RowPipeline

inductive JsonNumber where
  | int (i : Int64)
  /-- An integer from `2^63` to `2^64 - 1`. -/
  | big (n : UInt64)
  | float (x : Float)

inductive Json where
  | null
  | bool (b : Bool)
  | number (n : JsonNumber)
  | string (s : String)
  | array (items : List Json)
  | object (fields : List (String × Json))

namespace JsonNumber

/-- Numbers of one kind with equal values; integers and doubles are told apart. -/
def same : JsonNumber → JsonNumber → Bool
  | .int a, .int b => a == b
  | .big a, .big b => a == b
  | .float a, .float b => a == b
  | _, _ => false

/-- A non-negative integer within 64 bits. -/
def toUInt64? : JsonNumber → Option UInt64
  | .int i => if 0 ≤ i then some i.toInt.toNat.toUInt64 else none
  | .big n => some n
  | .float _ => none

/-- The JSON text of a number. -/
def render : JsonNumber → String
  | .int i => toString i.toInt
  | .big n => toString n.toNat
  | .float x => if x.isFinite then Decimal.jsonLayout.write x else "null"

end JsonNumber

namespace Json

instance : Inhabited Json := ⟨.null⟩

def int (i : Int64) : Json := .number (.int i)

/-- A natural number, as an integer of the smallest kind that holds it. -/
def ofNat (n : Nat) : Json :=
  if n < 0x8000000000000000 then .number (.int (Int64.ofNat n)) else .number (.big n.toUInt64)

/-- A double; JSON has no number for NaN and the infinities. -/
def ofFloat (x : Float) : Json := if x.isFinite then .number (.float x) else .null

mutual

/-- Equality of values. The order of an object's names does not count. -/
def same : Json → Json → Bool
  | .null, .null => true
  | .bool a, .bool b => a == b
  | .number a, .number b => a.same b
  | .string a, .string b => a == b
  | .array a, .array b => sameItems a b
  | .object a, .object b => a.length == b.length && sameFields a b
  | _, _ => false

def sameItems : List Json → List Json → Bool
  | [], [] => true
  | a :: as, b :: bs => same a b && sameItems as bs
  | _, _ => false

/-- Whether every field of the first list has an equal one in the second. -/
def sameFields : List (String × Json) → List (String × Json) → Bool
  | [], _ => true
  | (k, a) :: rest, other =>
      (match Assoc.get? k other with
        | some b => same a b
        | none => false) && sameFields rest other

end

/-- The field of an object; no other value has one. -/
def field? (j : Json) (name : String) : Option Json :=
  match j with
  | .object fields => Assoc.get? name fields
  | _ => none

def isNull : Json → Bool
  | .null => true
  | _ => false

def asString? : Json → Option String
  | .string s => some s
  | _ => none

def asArray? : Json → Option (List Json)
  | .array items => some items
  | _ => none

def asObject? : Json → Option (List (String × Json))
  | .object fields => some fields
  | _ => none

/-! ## Text -/

/-- The escapes of a JSON string. -/
def escapedChar (c : Char) : List Char :=
  if c == '"' then ['\\', '"']
  else if c == '\\' then ['\\', '\\']
  else if c == '\x08' then ['\\', 'b']
  else if c == '\x0c' then ['\\', 'f']
  else if c == '\n' then ['\\', 'n']
  else if c == '\r' then ['\\', 'r']
  else if c == '\t' then ['\\', 't']
  else if c.toNat < 0x20 then
    ['\\', 'u', '0', '0'] ++ (if c.toNat < 0x10 then ['0'] else []) ++ Nat.toDigits 16 c.toNat
  else [c]

/-- A text as a JSON string. -/
def renderString (s : String) : String :=
  String.ofList ('"' :: s.toList.flatMap escapedChar ++ ['"'])

mutual

/-- The compact text of a value. -/
def render : Json → String
  | .null => "null"
  | .bool b => if b then "true" else "false"
  | .number n => n.render
  | .string s => renderString s
  | .array items => "[" ++ ",".intercalate (renderItems items) ++ "]"
  | .object fields => "\x7b" ++ ",".intercalate (renderFields fields) ++ "\x7d"

def renderItems : List Json → List String
  | [] => []
  | item :: rest => render item :: renderItems rest

def renderFields : List (String × Json) → List String
  | [] => []
  | (k, v) :: rest => (renderString k ++ ":" ++ render v) :: renderFields rest

end

end Json

end RowPipeline
