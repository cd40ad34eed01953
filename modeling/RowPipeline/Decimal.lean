import RowPipeline.Binary64
import RowPipeline.Text.CharClass

/-!
# Decimal numerals of doubles

A double is written with the fewest digits that read back to it. `shortest` finds them on the
decoded value in exact arithmetic; a `Layout` says how a format arranges them. Numerals are read
with correct rounding.
-/

namespace RowPipeline.Decimal

/-- Which of two equally close candidates is taken. -/
inductive Tie where
  | toEven
  | up
deriving DecidableEq

/-- The number `digits * 10^scale`. -/
structure Numeral where
  digits : Nat
  scale : Int
deriving DecidableEq

/-- The interval of reals that round to a double, and the double itself, as numerators over one
denominator. The ends belong to it when `closed`. -/
structure Neighbourhood where
  low : Nat
  value : Nat
  high : Nat
  denominator : Nat
  closed : Bool

/-- The neighbourhood of a positive double. Below a power of two the next double is half as far. -/
def neighbourhood (mantissa : Nat) (exponent : Int) : Neighbourhood :=
  let scale := Nat.pow 2 exponent.toNat
  let gap := if mantissa == 0x10000000000000 && -1074 < exponent then 1 else 2
  { low := (4 * mantissa - gap) * scale
    value := 4 * mantissa * scale
    high := (4 * mantissa + 2) * scale
    denominator := 4 * Nat.pow 2 (-exponent).toNat
    closed := mantissa % 2 == 0 }

/-- Whether `numerator / denominator` lies in the neighbourhood. -/
def Neighbourhood.has (n : Neighbourhood) (numerator denominator : Nat) : Bool :=
  let point := numerator * n.denominator
  if n.closed then n.low * denominator ≤ point && point ≤ n.high * denominator
  else n.low * denominator < point && point < n.high * denominator

/-- The candidate on the grid of multiples of `10^scale`, if one of the two neighbours of the value
reads back to it. -/
def Neighbourhood.onGrid? (n : Neighbourhood) (tie : Tie) (scale : Int) : Option Numeral :=
  let up := Nat.pow 10 scale.toNat
  let down := Nat.pow 10 (-scale).toNat
  let below := n.value * down / (n.denominator * up)
  let above := below + 1
  let lowHit := 0 < below && n.has (below * up) down
  let highHit := n.has (above * up) down
  let twice := 2 * n.value * down
  let middle := (below + above) * (n.denominator * up)
  let takeAbove :=
    if lowHit && highHit then
      if middle < twice then true
      else if twice < middle then false
      else match tie with
        | .up => true
        | .toEven => above % 2 == 0
    else highHit
  if takeAbove then some ⟨above, scale⟩
  else if lowHit then some ⟨below, scale⟩
  else none

/-- Try grids that get finer by a factor of ten. -/
def Neighbourhood.search (n : Neighbourhood) (tie : Tie) : Nat → Int → Numeral
  | 0, scale =>
      ⟨n.value * Nat.pow 10 (-scale).toNat / (n.denominator * Nat.pow 10 scale.toNat), scale⟩
  | fuel + 1, scale =>
      match n.onGrid? tie scale with
      | some numeral => numeral
      | none => n.search tie fuel (scale - 1)

/-- The exponent of the leading digit of `numerator / denominator`, up to one too high. -/
def leadingScale (numerator denominator : Nat) : Int :=
  if denominator ≤ numerator then ((toString (numerator / denominator)).length : Int) - 1
  else -(((toString (denominator / numerator)).length : Int) - 1)

/-- Drop the trailing zeros of the digits. -/
def Numeral.trim : Nat → Numeral → Numeral
  | 0, n => n
  | fuel + 1, n =>
      if n.digits != 0 && n.digits % 10 == 0 then Numeral.trim fuel ⟨n.digits / 10, n.scale + 1⟩
      else n

/-- The shortest numeral that reads back to a positive double, and the nearest of those. -/
def shortest (tie : Tie) (mantissa : Nat) (exponent : Int) : Numeral :=
  let n := neighbourhood mantissa exponent
  (n.search tie 20 (leadingScale n.value n.denominator + 1)).trim 20

/-- How a format arranges the digits of a double. -/
structure Layout where
  tie : Tie
  /-- The exponents of the leading digit that are written without an exponent mark. -/
  positional : Int → Bool
  /-- Whether a number without fraction shows a zero one. -/
  pointZero : Bool
  /-- What precedes a non-negative exponent. -/
  positiveMark : String

/-- Every number is written positionally and an integral one without a point. -/
def plainLayout : Layout := ⟨.up, fun _ => true, false, ""⟩

/-- JSON text: an exponent below -5 or from 16 on, always signed. -/
def jsonLayout : Layout := ⟨.toEven, fun e => -5 ≤ e && e < 16, true, "+"⟩

/-- Token listings in messages: an exponent below -4 or from 16 on, signed only when negative. -/
def listingLayout : Layout := ⟨.up, fun e => -5 < e && e < 16, true, ""⟩

def zeros (n : Nat) : String := String.ofList (List.replicate n '0')

/-- Digits with a point before the last `places` of them. -/
def withPoint (digits : String) (places : Nat) : String :=
  let whole := digits.length - places
  if whole == 0 then "0." ++ zeros (places - digits.length) ++ digits
  else
    String.ofList (digits.toList.take whole) ++ "." ++ String.ofList (digits.toList.drop whole)

/-- The text of a numeral of a positive number. -/
def Layout.arrange (l : Layout) (n : Numeral) : String :=
  let digits := toString n.digits
  let leading : Int := n.scale + digits.length - 1
  if l.positional leading then
    if 0 ≤ n.scale then
      digits ++ zeros n.scale.toNat ++ (if l.pointZero then ".0" else "")
    else withPoint digits (-n.scale).toNat
  else
    let figures := if digits.length == 1 then digits else withPoint digits (digits.length - 1)
    let mark := if leading < 0 then "e-" else "e" ++ l.positiveMark
    figures ++ mark ++ toString leading.natAbs

/-- The text of any double. -/
def Layout.write (l : Layout) (x : Float) : String :=
  match Binary64.decode? x with
  | none => if x.isNaN then "NaN" else if Binary64.isNegative x then "-inf" else "inf"
  | some d =>
      let sign := if d.negative then "-" else ""
      if d.mantissa == 0 then sign ++ (if l.pointZero then "0.0" else "0")
      else sign ++ l.arrange (shortest l.tie d.mantissa d.exponent)

/-! ## Reading -/

def digitValue (c : Char) : Nat := c.toNat - '0'.toNat

def digitsValue (cs : List Char) : Nat := cs.foldl (fun n c => 10 * n + digitValue c) 0

/-- The double nearest to `mantissa * 10^exponent`. Exponents far outside the range of doubles are
settled without computing the power. -/
def nearest (mantissa : Nat) (exponent : Int) : Float :=
  if mantissa == 0 then 0
  else
    let leading := exponent + (toString mantissa).length
    if 310 < leading then Binary64.infinity
    else if leading < -330 then 0
    else Float.ofScientific mantissa (exponent < 0) exponent.natAbs

/-- The parts of an unsigned numeral: digits, digits after a point, exponent. -/
structure Parts where
  whole : List Char
  fraction : List Char
  exponent : Int

def Parts.value (p : Parts) : Float :=
  nearest (digitsValue (p.whole ++ p.fraction)) (p.exponent - p.fraction.length)

/-- An exponent part: `e` or `E`, an optional sign, at least one digit. -/
def readExponent? : List Char → Option (Int × List Char)
  | mark :: rest =>
      if mark == 'e' || mark == 'E' then
        let (negative, rest) := match rest with
          | '-' :: rest => (true, rest)
          | '+' :: rest => (false, rest)
          | rest => (false, rest)
        let digits := rest.takeWhile Text.isAsciiDigit
        if digits.isEmpty then none
        else
          let size : Int := digitsValue digits
          some (if negative then -size else size, rest.dropWhile Text.isAsciiDigit)
      else none
  | [] => none

/-- An unsigned number as free text allows it: digits on at least one side of an optional point, an
optional exponent, and nothing after it. -/
def readUnsigned? (cs : List Char) : Option Float :=
  let whole := cs.takeWhile Text.isAsciiDigit
  let rest := cs.dropWhile Text.isAsciiDigit
  let (fraction, rest) := match rest with
    | '.' :: rest => (rest.takeWhile Text.isAsciiDigit, rest.dropWhile Text.isAsciiDigit)
    | rest => ([], rest)
  if whole.isEmpty && fraction.isEmpty then none
  else match rest with
    | [] => some (Parts.value ⟨whole, fraction, 0⟩)
    | rest =>
        match readExponent? rest with
        | some (exponent, []) => some (Parts.value ⟨whole, fraction, exponent⟩)
        | _ => none

/-- A number in free text: an optional sign before digits, or a name of infinity or NaN in any
case. -/
def readFloat? (s : String) : Option Float :=
  let (negative, body) := match s.toList with
    | '-' :: rest => (true, rest)
    | '+' :: rest => (false, rest)
    | rest => (false, rest)
  let name := String.ofList (body.map Char.toLower)
  let size :=
    if name == "inf" || name == "infinity" then some Binary64.infinity
    else if name == "nan" then some Binary64.nan
    else readUnsigned? body
  size.map fun x => if negative then -x else x

/-- An integer in free text: an optional sign and digits, within the 64-bit range. -/
def readInt64? (s : String) : Option Int64 :=
  let (negative, body) := match s.toList with
    | '-' :: rest => (true, rest)
    | '+' :: rest => (false, rest)
    | rest => (false, rest)
  if body.isEmpty || !body.all Text.isAsciiDigit then none
  else
    let size : Int := digitsValue body
    let value := if negative then -size else size
    if Int64.minValue.toInt ≤ value && value ≤ Int64.maxValue.toInt then some (Int64.ofInt value)
    else none

end RowPipeline.Decimal
