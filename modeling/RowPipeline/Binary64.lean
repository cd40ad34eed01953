/-!
# Double-precision numbers

A finite double is an integer times a power of two. Everything that has to be exact (rounding to an
integer, remainders, the order of bit patterns) is computed on that decoded form.
-/

namespace RowPipeline

/-- The finite double `(-1)^negative * mantissa * 2^exponent`. -/
structure Dyadic where
  negative : Bool
  mantissa : Nat
  exponent : Int
deriving DecidableEq

namespace Dyadic

/-- The integer part, rounded toward zero. -/
def truncate (d : Dyadic) : Int :=
  let size : Nat :=
    if 0 ≤ d.exponent then d.mantissa * Nat.pow 2 d.exponent.toNat
    else d.mantissa / Nat.pow 2 (-d.exponent).toNat
  if d.negative then -(size : Int) else size

/-- Whether the number is an integer. -/
def isIntegral (d : Dyadic) : Bool :=
  0 ≤ d.exponent || d.mantissa % Nat.pow 2 (-d.exponent).toNat == 0

/-- The double with this value. The value must be one that a double holds exactly. -/
def toFloat (d : Dyadic) : Float :=
  let sign : Nat := if d.negative then 0x8000000000000000 else 0
  if d.mantissa == 0 then Float.ofBits (UInt64.ofNat sign)
  else
    let top : Int := d.exponent + Nat.log2 d.mantissa
    let unit : Int := max (top - 52) (-1074)
    let scaled : Nat :=
      if unit ≤ d.exponent then d.mantissa * Nat.pow 2 (d.exponent - unit).toNat
      else d.mantissa / Nat.pow 2 (unit - d.exponent).toNat
    let magnitude : Nat :=
      if scaled < 0x10000000000000 then scaled
      else (unit + 1075).toNat * 0x10000000000000 + (scaled - 0x10000000000000)
    Float.ofBits (UInt64.ofNat (sign + magnitude))

end Dyadic

namespace Binary64

/-- The exact value of a finite double; none for NaN and the infinities. -/
def decode? (x : Float) : Option Dyadic :=
  let bits := x.toBits.toNat
  let negative : Bool := 0x8000000000000000 ≤ bits
  let biased : Nat := bits / 0x10000000000000 % 0x800
  let fraction : Nat := bits % 0x10000000000000
  if biased = 2047 then none
  else if biased = 0 then some ⟨negative, fraction, -1074⟩
  else some ⟨negative, fraction + 0x10000000000000, (biased : Int) - 1075⟩

def isNegative (x : Float) : Bool := 0x8000000000000000 ≤ x.toBits.toNat

/-- The double nearest to an integer, ties going to the even mantissa. -/
def ofInt64 (i : Int64) : Float :=
  if i < 0 then -i.toInt.natAbs.toUInt64.toFloat else i.toInt.natAbs.toUInt64.toFloat

def ofNat (n : Nat) : Float := Float.ofNat n

/-- The integer a number with zero fraction denotes, cut off at the ends of the 64-bit range. -/
def toInt64? (x : Float) : Option Int64 :=
  match decode? x with
  | none => none
  | some d =>
      if d.isIntegral then
        let i := d.truncate
        some (if i < Int64.minValue.toInt then Int64.minValue
          else if Int64.maxValue.toInt < i then Int64.maxValue else Int64.ofInt i)
      else none

/-- The integer a double denotes when its magnitude is below `2^63`. -/
def smallInt64? (x : Float) : Option Int64 :=
  match decode? x with
  | none => none
  | some d =>
      if d.isIntegral && d.truncate.natAbs < 0x8000000000000000 then
        some (Int64.ofInt d.truncate)
      else none

/-- The order of doubles as numbers; NaN is comparable with nothing. -/
def compare? (x y : Float) : Option Ordering :=
  if x < y then some .lt
  else if y < x then some .gt
  else if x == y then some .eq
  else none

/-- The place of a bit pattern in the total order of doubles. The sign decides first, for a NaN too: one
without a sign is past infinity, one with a sign before negative infinity. -/
def orderKey (bits : UInt64) : Int :=
  if 0x8000000000000000 ≤ bits.toNat then (0x8000000000000000 : Int) - bits.toNat - 1 else bits.toNat

/-- The total order of bit patterns. The one NaN that a `Float` has is without a sign; where a machine sets
the sign of a NaN that it computes, as it may for the difference of two infinities, the NaN sorts first
there and last here. -/
def totalCompare (x y : Float) : Ordering := compare (orderKey x.toBits) (orderKey y.toBits)

def nan : Float := Float.ofBits 0x7ff8000000000000

def infinity : Float := Float.ofBits 0x7ff0000000000000

/-- The remainder of the division rounded toward zero; it has the sign of the dividend. -/
def remainder (x y : Float) : Float :=
  match decode? x, decode? y with
  | none, _ => nan
  | some _, none => if y.isNaN then nan else x
  | some a, some b =>
      if b.mantissa == 0 then nan
      else
        let unit := min a.exponent b.exponent
        let rest := (a.mantissa * Nat.pow 2 (a.exponent - unit).toNat) %
          (b.mantissa * Nat.pow 2 (b.exponent - unit).toNat)
        Dyadic.toFloat ⟨a.negative, rest, unit⟩

/-- The squarings of a power of ten: `result` collects the bits of `n` that are set. -/
def powerBySquaring : Nat → Nat → Float → Float → Float
  | 0, _, result, _ => result
  | fuel + 1, n, result, base =>
      let result := if n % 2 == 1 then result * base else result
      if n / 2 == 0 then result else powerBySquaring fuel (n / 2) result (base * base)

/-- Ten to an integer power, by repeated squaring; a negative power is a reciprocal. -/
def powerOfTen (n : Int) : Float :=
  let power := powerBySquaring 64 n.natAbs 1 10
  if n < 0 then 1 / power else power

end Binary64

end RowPipeline
