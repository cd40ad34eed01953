import RowPipeline.Json.Reader

/-!
# Reading records from JSON text

A record can be read from a text without reading what does not belong to it: a field with an unknown
name is only skipped. What is skipped follows the grammar, but its numbers may have any size, its
escaped code units need not form characters, and it may be nested to any depth.
-/

namespace RowPipeline.Json

inductive Bracket where
  | array
  | object
deriving DecidableEq

/-- Skip the rest of a string after its opening quote. -/
def skipString : List Char → Except ReadError (List Char)
  | [] => .error .malformed
  | '"' :: rest => .ok rest
  | '\\' :: 'u' :: a :: b :: c :: d :: rest =>
      if (hexValue? [a, b, c, d]).isSome then skipString rest else .error .malformed
  | '\\' :: c :: rest =>
      if (simpleEscape? c).isSome then skipString rest else .error .malformed
  | c :: rest => if c == '\\' || c.toNat < 0x20 then .error .malformed else skipString rest

/-- Skip a name and its colon. -/
def skipName (cs : List Char) : Except ReadError (List Char) :=
  match skipSpace cs with
  | '"' :: rest =>
      match skipString rest with
      | .error e => .error e
      | .ok rest =>
          match skipSpace rest with
          | ':' :: rest => .ok rest
          | _ => .error .malformed
  | _ => .error .malformed

/-- Skip a value that is no array or object. -/
def skipPlain (cs : List Char) : Except ReadError (List Char) :=
  match cs with
  | '"' :: rest => skipString rest
  | '-' :: rest => (readNumeral true rest).map Prod.snd
  | c :: rest =>
      if Text.isAsciiDigit c then (readNumeral false (c :: rest)).map Prod.snd
      else
        let words := ["null", "true", "false"].filterMap fun w => afterWord? w.toList (c :: rest)
        match words with
        | rest :: _ => .ok rest
        | [] => .error .malformed
  | [] => .error .malformed

/-- Skip to the end of a value inside the brackets `opened`, the innermost first. Either a value
comes next, or the last one has ended. Every call takes a character or is the last one after a
value, so that twice the length of the text is enough fuel. -/
def skipOn : Nat → List Bracket → Bool → List Char → Except ReadError (List Char)
  | 0, _, _, _ => .error .malformed
  | fuel + 1, opened, true, cs =>
      match skipSpace cs with
      | '[' :: rest =>
          match skipSpace rest with
          | ']' :: rest => skipOn fuel opened false rest
          | rest => skipOn fuel (.array :: opened) true rest
      | '\x7b' :: rest =>
          match skipSpace rest with
          | '\x7d' :: rest => skipOn fuel opened false rest
          | rest =>
              match skipName rest with
              | .ok rest => skipOn fuel (.object :: opened) true rest
              | .error e => .error e
      | cs =>
          match skipPlain cs with
          | .ok rest => skipOn fuel opened false rest
          | .error e => .error e
  | _ + 1, [], false, cs => .ok cs
  | fuel + 1, bracket :: opened, false, cs =>
      match bracket, skipSpace cs with
      | .array, ',' :: rest => skipOn fuel (.array :: opened) true rest
      | .array, ']' :: rest => skipOn fuel opened false rest
      | .object, ',' :: rest =>
          match skipName rest with
          | .ok rest => skipOn fuel (.object :: opened) true rest
          | .error e => .error e
      | .object, '\x7d' :: rest => skipOn fuel opened false rest
      | _, _ => .error .malformed

/-- The fields of an object with a known name up to its closing brace, as they are written. `fuel`
bounds twice the characters left, and `taken` holds the fields read, the last one first. -/
def readKnownFields (known : List String) :
    Nat → List (String × Json) → List Char → Except ReadError (List (String × Json) × List Char)
  | 0, _, _ => .error .malformed
  | fuel + 1, taken, cs =>
      match skipSpace cs with
      | '"' :: rest => do
          let (name, rest) ← readString fuel rest
          match skipSpace rest with
          | ':' :: rest =>
              let (taken, rest) ← if name ∈ known then
                  (readValue fuel (maxDepth - 1) rest).map fun r => ((name, r.1) :: taken, r.2)
                else (skipOn fuel [] true rest).map fun rest => (taken, rest)
              match skipSpace rest with
              | ',' :: rest => readKnownFields known fuel taken rest
              | '\x7d' :: rest => return (taken.reverse, rest)
              | _ => throw .malformed
          | _ => throw .malformed
      | _ => .error .malformed

/-- A text that holds a record. Of an object only the fields with a known name are kept, as often as
they are written; any other value is kept as a whole. -/
def parseRecord (known : List String) (text : String) : Except ReadError Json :=
  match skipSpace text.toList with
  | '\x7b' :: rest =>
      match skipSpace rest with
      | '\x7d' :: rest => readEnd (.object [], rest)
      | rest => do
          let (fields, rest) ← readKnownFields known (fuelFor rest) [] rest
          readEnd (.object fields, rest)
  | _ => parseWritten text

end RowPipeline.Json
