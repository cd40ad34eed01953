import RowPipeline.Text.CharClass

/-!
# Placeholders

A text refers to a parameter by a dollar sign and its name, which may stand in braces. The scan cuts
a text into such references and the characters between them.
-/

namespace RowPipeline

/-- A character of the text, or a reference with its name and its spelling. -/
inductive Piece where
  | char (c : Char)
  | reference (name : String) (source : List Char)

namespace Piece

def isNameStart (c : Char) : Bool := Text.isAsciiLetter c || c == '_'

def isNameChar (c : Char) : Bool := isNameStart c || Text.isAsciiDigit c

/-- A name that fills all the characters. -/
def isName : List Char → Bool
  | [] => false
  | c :: rest => isNameStart c && rest.all isNameChar

/-- The name referred to right after a dollar sign, and how many characters after the sign its
spelling takes. In braces the name goes up to the first closing brace; otherwise it is the longest
one. -/
def referenceAfterDollar? (cs : List Char) : Option (List Char × Nat) :=
  match cs with
  | '\x7b' :: braced =>
      let name := braced.takeWhile (· != '\x7d')
      if isName name && name.length < braced.length then some (name, name.length + 2) else none
  | cs =>
      let name := cs.takeWhile isNameChar
      if isName name then some (name, name.length) else none

/-- Cut a text into pieces; the first `skip` characters belong to a reference already cut. -/
def scanFrom : Nat → List Char → List Piece
  | _, [] => []
  | skip + 1, _ :: rest => scanFrom skip rest
  | 0, c :: rest =>
      if c = '$' then
        match referenceAfterDollar? rest with
        | some (name, length) =>
            .reference (String.ofList name) (c :: rest.take length) :: scanFrom length rest
        | none => .char c :: scanFrom 0 rest
      else .char c :: scanFrom 0 rest

def scan (text : String) : List Piece := scanFrom 0 text.toList

/-- The characters a piece stands for in the text. -/
def source : Piece → List Char
  | .char c => [c]
  | .reference _ source => source

/-- The names referred to in a text, in its order. -/
def names (text : String) : List String :=
  (scan text).filterMap fun
    | .reference name _ => some name
    | .char _ => none

/-- A text with each reference replaced where `replace` has something for its name. -/
def fill (replace : String → Option String) (text : String) : String :=
  String.ofList ((scan text).flatMap fun
    | .char c => [c]
    | .reference name source =>
        match replace name with
        | some s => s.toList
        | none => source)

end Piece

end RowPipeline
