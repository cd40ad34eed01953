import RowPipeline.Json

/-!
# Numbers in JSON text

A number is read in two steps: its parts by the grammar, and then its value. An integer keeps its
exact value within 64 bits. Any other number is read with one rounding for its leading digits and
one for the power of ten, so the last place of a long numeral can differ from the nearest double.
-/

namespace RowPipeline.Json

/-- What is wrong with a text that is not JSON. -/
inductive ReadError where
  | malformed
  | tooDeep
  | numberOutOfRange
deriving DecidableEq

abbrev Reading (α : Type) := Except ReadError (α × List Char)

/-- A number as it is written. -/
structure Numeral where
  negative : Bool
  whole : List Char
  fraction : List Char
  exponent : Option Int

/-- The parts of a number after its sign: digits without a superfluous zero in front, digits after a
point, an exponent. -/
def readNumeral (negative : Bool) (cs : List Char) :
    Except ReadError (Numeral × List Char) := do
  let whole := cs.takeWhile Text.isAsciiDigit
  let rest := cs.dropWhile Text.isAsciiDigit
  if whole.isEmpty || (whole.length ≠ 1 && whole.head? == some '0') then throw .malformed
  let (fraction, rest) ← match rest with
    | '.' :: rest =>
        let fraction := rest.takeWhile Text.isAsciiDigit
        if fraction.isEmpty then throw .malformed
        pure (fraction, rest.dropWhile Text.isAsciiDigit)
    | rest => pure ([], rest)
  match rest with
  | c :: _ =>
      if c == 'e' || c == 'E' then
        match Decimal.readExponent? rest with
        | some (exponent, rest) => return (⟨negative, whole, fraction, some exponent⟩, rest)
        | none => throw .malformed
      else return (⟨negative, whole, fraction, none⟩, rest)
  | [] => return (⟨negative, whole, fraction, none⟩, rest)

/-- Leading digits and the power of ten that they are multiplied with. -/
structure Leading where
  digits : Nat
  exponent : Int

namespace Leading

/-- One more than the greatest number of 64 bits. -/
def bound : Nat := 0x10000000000000000

/-- Take the digits before a point. From the first one on that leads past 64 bits every digit counts
as a zero. -/
def takeWhole (n : Leading) : List Char → Leading
  | [] => n
  | c :: rest =>
      let longer := 10 * n.digits + Decimal.digitValue c
      if longer < bound then takeWhole { n with digits := longer } rest
      else { n with exponent := n.exponent + (rest.length + 1) }

/-- Take the digits after a point. From the first one on that leads past 64 bits they are ignored.
-/
def takeFraction (n : Leading) : List Char → Leading
  | [] => n
  | c :: rest =>
      let longer := 10 * n.digits + Decimal.digitValue c
      if longer < bound then takeFraction ⟨longer, n.exponent - 1⟩ rest else n

def power (n : Nat) : Float := Decimal.nearest 1 n

/-- The double, unless it is out of range. A negative power is divided by in steps of at most `308`
places, two of which leave nothing. -/
def toFloat? (n : Leading) : Option Float :=
  let x := Decimal.nearest n.digits 0
  if 308 < n.exponent then if n.digits = 0 then some x else none
  else if 0 ≤ n.exponent then
    let y := x * power n.exponent.toNat
    if y.isFinite then some y else none
  else if -308 ≤ n.exponent then some (x / power (-n.exponent).toNat)
  else if -616 ≤ n.exponent then some (x / power 308 / power (-n.exponent - 308).toNat)
  else some 0

end Leading

namespace Numeral

/-- The number written by a sign and integer digits alone. A negative zero is a double. -/
def integer? (n : Numeral) : Option JsonNumber :=
  let size := Decimal.digitsValue n.whole
  if !n.fraction.isEmpty || n.exponent.isSome then none
  else if n.negative then
    if 0 < size && size ≤ 0x8000000000000000 then some (.int (Int64.ofInt (-size))) else none
  else if size < 0x8000000000000000 then some (.int (Int64.ofNat size))
  else if size < Leading.bound then some (.big size.toUInt64)
  else none

/-- The double a numeral stands for, unless it is out of range. -/
def toFloat? (n : Numeral) : Option Float :=
  let leading := (Leading.takeWhole ⟨0, 0⟩ n.whole).takeFraction n.fraction
  let size := Leading.toFloat? { leading with
    exponent := leading.exponent + n.exponent.getD 0 }
  size.map fun x => if n.negative then -x else x

def value (n : Numeral) : Except ReadError JsonNumber :=
  match n.integer? with
  | some i => .ok i
  | none =>
      match n.toFloat? with
      | some x => .ok (.float x)
      | none => .error .numberOutOfRange

end Numeral

end RowPipeline.Json
