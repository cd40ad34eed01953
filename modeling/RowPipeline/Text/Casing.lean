import RowPipeline.Text.CharClass
import RowPipeline.Text.CaseTables

/-!
# Upper and lower case

Full case mapping: a character can become several, and a capital sigma is lowered by its place in
the word.
-/

namespace RowPipeline.Text

/-- The code point a table of runs maps `code` to; a code point in no run stays. -/
def shiftByRuns : List (Nat × Nat × Nat × Int) → Nat → Nat
  | [], code => code
  | (first, last, step, shift) :: rest, code =>
      if first ≤ code && code ≤ last && (code - first) % step == 0 then (code + shift).toNat
      else shiftByRuns rest code

def mapCase (runs : List (Nat × Nat × Nat × Int)) (expansions : List (Nat × List Nat))
    (c : Char) : List Char :=
  match expansions.lookup c.toNat with
  | some codes => codes.map Char.ofNat
  | none => [Char.ofNat (shiftByRuns runs c.toNat)]

def upperChar (c : Char) : List Char :=
  if c.toNat < 0x80 then [c.toUpper] else mapCase upperRuns upperExpansions c

def lowerChar (c : Char) : List Char :=
  if c.toNat < 0x80 then [c.toLower] else mapCase lowerRuns lowerExpansions c

/-- Whether the nearest character that is not skipped is a letter with case. -/
def nextIsCased (cs : List Char) : Bool :=
  match cs.dropWhile isCaseIgnorable with
  | [] => false
  | c :: _ => isCased c

/-- Lower `cs`, where `before` holds the characters already passed, the last one first. A sigma that
ends its word takes the final form. -/
def lowerFrom (before : List Char) : List Char → List Char
  | [] => []
  | c :: rest =>
      let lowered :=
        if c == 'Σ' then
          if nextIsCased before && !nextIsCased rest then ['ς'] else ['σ']
        else lowerChar c
      lowered ++ lowerFrom (c :: before) rest

def toUpper (s : String) : String := String.ofList (s.toList.flatMap upperChar)

def toLower (s : String) : String := String.ofList (lowerFrom [] s.toList)

end RowPipeline.Text
