import RowPipeline.Parameter.Substitution

/-!
# Spans of placeholders

The scan for placeholders as it goes over the bytes of a text. A placeholder is where it starts, where it
stops and the name it refers to; what is between placeholders is cut out of the text at these offsets.
Only offsets between characters cut a text into texts, so every cut can fail.
-/

namespace RowPipeline

/-- Two byte offsets at which a text cannot be cut. -/
structure BadCut where
  start : Nat
  stop : Nat
deriving DecidableEq

/-- The part of a text from one byte offset to another one. -/
def cut (text : String) (start stop : Nat) : Except BadCut String :=
  if start ≤ stop ∧ String.Pos.Raw.isValid text ⟨start⟩ ∧ String.Pos.Raw.isValid text ⟨stop⟩ then
    .ok (String.Pos.Raw.extract text ⟨start⟩ ⟨stop⟩)
  else .error ⟨start, stop⟩

/-- The byte offset of the first character with a property. -/
def byteOffset? (is : Char → Bool) : List Char → Option Nat
  | [] => none
  | c :: rest => if is c then some 0 else (byteOffset? is rest).map (c.utf8Size + ·)

/-- A reference to a parameter in a text, with byte offsets. -/
structure Placeholder where
  start : Nat
  stop : Nat
  name : String
deriving DecidableEq

namespace Placeholder

/-- The name referred to right after a dollar sign, and how many bytes after the sign its spelling
takes. -/
def afterDollar? (rest : String) : Except BadCut (Option (String × Nat)) :=
  match rest.toList with
  | [] => .ok none
  | c :: braced =>
      if c = '\x7b' then
        match byteOffset? (· == '\x7d') braced with
        | some close => do
            let name ← cut (String.ofList braced) 0 close
            return if Piece.isName name.toList then some (name, close + 2) else none
        | none => .ok none
      else if Piece.isNameStart c then do
        let length := (byteOffset? (!Piece.isNameChar ·) rest.toList).getD rest.utf8ByteSize
        let name ← cut rest 0 length
        return some (name, length)
      else .ok none

/-- The byte of a dollar sign. -/
def dollar : UInt8 := 0x24

/-- The placeholders from a byte offset on. After a dollar sign that starts none the scan goes on with
the next byte. -/
def scanFrom (text : String) (i : Nat) : Except BadCut (List Placeholder) :=
  if h : i < text.utf8ByteSize then
    if text.getUTF8Byte ⟨i⟩ h = dollar then do
      let rest ← cut text (i + 1) text.utf8ByteSize
      match ← afterDollar? rest with
      | some (name, length) =>
          let stop := i + 1 + length
          return ⟨i, stop, name⟩ :: (← scanFrom text stop)
      | none => scanFrom text (i + 1)
    else scanFrom text (i + 1)
  else .ok []
termination_by text.utf8ByteSize - i

/-- The placeholders of a text. -/
def scan (text : String) : Except BadCut (List Placeholder) := scanFrom text 0

/-- The text from `cursor` on, with each of the placeholders there replaced where `replace` has something
for its name. -/
def fillFrom (replace : String → Option String) (text : String) :
    Nat → List Placeholder → Except BadCut String
  | cursor, [] => cut text cursor text.utf8ByteSize
  | cursor, p :: rest => do
      let before ← cut text cursor p.start
      let filled ← match replace p.name with
        | some s => .ok s
        | none => cut text p.start p.stop
      return before ++ filled ++ (← fillFrom replace text p.stop rest)

/-- The text of an expression with its parameters as literals. -/
def substituteExpression (params : Parameters) (text : String) : Except BadCut String := do
  fillFrom (fun name => (params.get? name).bind Value.expressionLiteral?) text 0 (← scan text)

/-- The name of a single placeholder that is the whole text. -/
def whole? (text : String) : List Placeholder → Option String
  | [p] => if p.start = 0 ∧ p.stop = text.utf8ByteSize then some p.name else none
  | _ => none

/-- A string that is one placeholder becomes the parameter's value; in any other the placeholders become
the values' texts. -/
def substituteString (params : Parameters) (text : String) : Except BadCut Json := do
  let found ← scan text
  match whole? text found with
  | some name =>
      match params.get? name with
      | some v => return v.toJson
      | none => return .string text
  | none => return .string (← fillFrom (fun name => (params.get? name).map Value.display) text 0 found)

end Placeholder

end RowPipeline
