import RowPipeline.Json.Numeral

/-!
# Reading JSON text

The reader takes exactly the standard grammar, nested at most 127 deep. A text is read as it is
written first, repeated names of objects included; in the value of a text the last value of a
repeated name counts, at the place of the first.
-/

namespace RowPipeline.Json

def isSpace (c : Char) : Bool := c == ' ' || c == '\n' || c == '\t' || c == '\r'

def skipSpace (cs : List Char) : List Char := cs.dropWhile isSpace

/-- The value of hexadecimal digits. -/
def hexValue? (cs : List Char) : Option Nat :=
  if cs.all Text.isHexDigit then
    some (cs.foldl (fun n c =>
      16 * n + (if Text.isAsciiDigit c then c.toNat - 48 else c.toLower.toNat - 87)) 0)
  else none

/-- A code unit written with four hexadecimal digits. -/
def readUnit : List Char → Reading Nat
  | a :: b :: c :: d :: rest =>
      match hexValue? [a, b, c, d] with
      | some n => .ok (n, rest)
      | none => .error .malformed
  | _ => .error .malformed

/-- The character after `\u`. A high surrogate needs its low partner right behind it. -/
def readCodePoint (cs : List Char) : Except ReadError (Char × List Char) := do
  let (unit, rest) ← readUnit cs
  if 0xd800 ≤ unit && unit < 0xdc00 then
    match rest with
    | '\\' :: 'u' :: rest =>
        let (low, rest) ← readUnit rest
        if 0xdc00 ≤ low && low < 0xe000 then
          return (Char.ofNat (0x10000 + (unit - 0xd800) * 0x400 + (low - 0xdc00)), rest)
        else throw .malformed
    | _ => throw .malformed
  else if 0xdc00 ≤ unit && unit < 0xe000 then throw .malformed
  else return (Char.ofNat unit, rest)

/-- The character a simple escape stands for. -/
def simpleEscape? : Char → Option Char
  | '"' => some '"'
  | '\\' => some '\\'
  | '/' => some '/'
  | 'b' => some '\x08'
  | 'f' => some '\x0c'
  | 'n' => some '\n'
  | 'r' => some '\r'
  | 't' => some '\t'
  | _ => none

/-- The rest of a string after its opening quote. `fuel` bounds the characters left, and `taken`
holds the characters read, the last one first. -/
def readStringFrom : Nat → List Char → List Char → Reading String
  | 0, _, _ => .error .malformed
  | fuel + 1, taken, cs =>
      match cs with
      | [] => .error .malformed
      | '"' :: rest => .ok (String.ofList taken.reverse, rest)
      | '\\' :: 'u' :: rest =>
          match readCodePoint rest with
          | .ok (c, rest) => readStringFrom fuel (c :: taken) rest
          | .error e => .error e
      | '\\' :: c :: rest =>
          match simpleEscape? c with
          | some c => readStringFrom fuel (c :: taken) rest
          | none => .error .malformed
      | c :: rest =>
          if c == '\\' || c.toNat < 0x20 then .error .malformed
          else readStringFrom fuel (c :: taken) rest

def readString (fuel : Nat) (cs : List Char) : Reading String := readStringFrom fuel [] cs

/-- A number after its sign. -/
def readNumber (negative : Bool) (cs : List Char) :
    Except ReadError (JsonNumber × List Char) := do
  let (numeral, rest) ← readNumeral negative cs
  return (← numeral.value, rest)

/-- The text after a fixed word. -/
def afterWord? : List Char → List Char → Option (List Char)
  | [], cs => some cs
  | w :: word, c :: cs => if w = c then afterWord? word cs else none
  | _ :: _, [] => none

mutual

/-- A value as it is written at the start of the text, blanks before it skipped. `fuel` bounds the
characters left and `depth` the containers that may still open. -/
def readValue : Nat → Nat → List Char → Reading Json
  | 0, _, _ => .error .malformed
  | fuel + 1, depth, cs =>
      match skipSpace cs with
      | [] => .error .malformed
      | '"' :: rest => (readString fuel rest).map fun p => (.string p.1, p.2)
      | '[' :: rest =>
          match depth with
          | 0 => .error .tooDeep
          | depth + 1 =>
              match skipSpace rest with
              | ']' :: rest => .ok (.array [], rest)
              | rest => (readItems fuel depth [] rest).map fun p => (.array p.1, p.2)
      | '\x7b' :: rest =>
          match depth with
          | 0 => .error .tooDeep
          | depth + 1 =>
              match skipSpace rest with
              | '\x7d' :: rest => .ok (.object [], rest)
              | rest =>
                  (readFields fuel depth [] rest).map fun p => (.object p.1, p.2)
      | '-' :: rest => (readNumber true rest).map fun p => (.number p.1, p.2)
      | c :: rest =>
          if Text.isAsciiDigit c then
            (readNumber false (c :: rest)).map fun p => (.number p.1, p.2)
          else
            match afterWord? "null".toList (c :: rest) with
            | some rest => .ok (.null, rest)
            | none =>
                match afterWord? "true".toList (c :: rest) with
                | some rest => .ok (.bool true, rest)
                | none =>
                    match afterWord? "false".toList (c :: rest) with
                    | some rest => .ok (.bool false, rest)
                    | none => .error .malformed

/-- The items of an array up to its closing bracket; `taken` holds those read, the last one
first. -/
def readItems : Nat → Nat → List Json → List Char → Reading (List Json)
  | 0, _, _, _ => .error .malformed
  | fuel + 1, depth, taken, cs =>
      match readValue fuel depth cs with
      | .error e => .error e
      | .ok (item, rest) =>
          match skipSpace rest with
          | ',' :: rest => readItems fuel depth (item :: taken) rest
          | ']' :: rest => .ok ((item :: taken).reverse, rest)
          | _ => .error .malformed

/-- The fields of an object up to its closing brace, repeated names included; `taken` holds those
read, the last one first. -/
def readFields : Nat → Nat → List (String × Json) → List Char → Reading (List (String × Json))
  | 0, _, _, _ => .error .malformed
  | fuel + 1, depth, taken, cs =>
      match skipSpace cs with
      | '"' :: rest =>
          match readString fuel rest with
          | .error e => .error e
          | .ok (name, rest) =>
              match skipSpace rest with
              | ':' :: rest =>
                  match readValue fuel depth rest with
                  | .error e => .error e
                  | .ok (value, rest) =>
                      match skipSpace rest with
                      | ',' :: rest => readFields fuel depth ((name, value) :: taken) rest
                      | '\x7d' :: rest => .ok (((name, value) :: taken).reverse, rest)
                      | _ => .error .malformed
              | _ => .error .malformed
      | _ => .error .malformed

end

/-- The deepest nesting the reader follows. -/
def maxDepth : Nat := 127

/-- Enough fuel for a text. -/
def fuelFor (cs : List Char) : Nat := 2 * cs.length + 2

mutual

/-- A value with one field for each name of an object. -/
def merged : Json → Json
  | .array items => .array (mergedItems items)
  | .object fields => .object (Assoc.merge (mergedFields fields))
  | j => j

def mergedItems : List Json → List Json
  | [] => []
  | item :: rest => merged item :: mergedItems rest

def mergedFields : List (String × Json) → List (String × Json)
  | [] => []
  | (name, value) :: rest => (name, merged value) :: mergedFields rest

end

/-- The end of a text, after blanks. -/
def readEnd {α : Type} (r : α × List Char) : Except ReadError α :=
  if (skipSpace r.2).isEmpty then .ok r.1 else .error .malformed

/-- A whole text as it is written. -/
def parseWritten (text : String) : Except ReadError Json :=
  let cs := text.toList
  (readValue (fuelFor cs) maxDepth cs).bind readEnd

/-- A whole text that is one JSON value. -/
def parse (text : String) : Except ReadError Json := (parseWritten text).map merged

end RowPipeline.Json
