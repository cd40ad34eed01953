import RowPipeline.Parameter
import RowPipeline.Proofs.IntegerArithmetic

/-!
# Numbers as integers

An integer parameter takes the numbers that are integers, and no others. What it takes is the number itself
if it fits 64 bits, and the end of the range it is past if not.
-/

namespace RowPipeline

open Rounding

namespace Dyadic

/-- The number that a finite double stands for. -/
def value (d : Dyadic) : ℚ :=
  if d.negative then -amount d.mantissa d.exponent else amount d.mantissa d.exponent

/-- A double without a fraction stands for its integer part. -/
theorem value_eq_truncate {d : Dyadic} (h : d.isIntegral = true) : d.value = d.truncate := by
  obtain ⟨hsize, hsign⟩ := Binary64.amount_of_isIntegral h
  rw [value, ← hsize]
  rcases Nat.eq_zero_or_pos d.mantissa with hzero | hpos
  · rw [amount, hzero, Nat.cast_zero, zero_mul] at hsize
    have htruncate : d.truncate = 0 := Int.natAbs_eq_zero.mp (by exact_mod_cast hsize)
    simp [htruncate]
  · by_cases hnegative : d.negative = true
    · have hlow : d.truncate = -(d.truncate.natAbs : ℤ) := by
        have hless := (hsign hpos).mpr hnegative
        omega
      rw [if_pos hnegative, hlow]
      simp
    · have hhigh : d.truncate = (d.truncate.natAbs : ℤ) := by
        have hless := mt (hsign hpos).mp hnegative
        omega
      rw [if_neg hnegative, hhigh]
      simp

/-- A double that stands for an integer has no fraction. -/
theorem isIntegral_of_value {d : Dyadic} {n : ℤ} (h : d.value = n) : d.isIntegral = true := by
  have hsize : amount d.mantissa d.exponent = n.natAbs := by
    have hnonneg : 0 ≤ amount d.mantissa d.exponent := by
      unfold amount
      positivity
    have habs : |d.value| = amount d.mantissa d.exponent := by
      unfold value
      split
      · rw [abs_neg, abs_of_nonneg hnonneg]
      · rw [abs_of_nonneg hnonneg]
    rw [← habs, h, Nat.cast_natAbs, Int.cast_abs]
  by_cases he : 0 ≤ d.exponent
  · simp [isIntegral, he]
  · have hscaled : (d.mantissa : ℚ) = n.natAbs * 2 ^ (-d.exponent).toNat := by
      rw [← hsize, amount, mul_assoc, ← zpow_natCast, Int.toNat_of_nonneg (by omega),
        ← zpow_add₀ two_ne_zero, add_neg_cancel, zpow_zero, mul_one]
    have hmultiple : d.mantissa = n.natAbs * 2 ^ (-d.exponent).toNat := by exact_mod_cast hscaled
    have hrest : d.mantissa % 2 ^ (-d.exponent).toNat = 0 := by
      rw [hmultiple, Nat.mul_mod_left]
    simp [isIntegral, hrest]

end Dyadic

namespace Binary64

/-- The number that a double stands for; none for NaN and the infinities. -/
def value? (x : Float) : Option ℚ := (decode? x).map Dyadic.value

theorem value?_of_isIntegral {x : Float} {d : Dyadic} (hd : decode? x = some d)
    (h : d.isIntegral = true) : value? x = some (d.truncate : ℚ) := by
  rw [value?, hd, Option.map_some, Dyadic.value_eq_truncate h]

/-- The nearest number of 64 bits. -/
def clamp (n : ℤ) : ℤ := max Int64.minValue.toInt (min n Int64.maxValue.toInt)

theorem clamp_eq (n : ℤ) : clamp n = max (-9223372036854775808) (min n 9223372036854775807) := rfl

theorem clamp_eq_self_iff {n : ℤ} : clamp n = n ↔ InInt64 n := by
  rw [clamp_eq, inInt64_iff]
  omega

/-- A double that stands for an integer is turned into the nearest one of 64 bits. -/
theorem toInt64?_of_value? {x : Float} {n : ℤ} (h : value? x = some (n : ℚ)) :
    ∃ i, toInt64? x = some i ∧ i.toInt = clamp n := by
  obtain ⟨d, hd, hvalue⟩ := Option.map_eq_some_iff.mp h
  have hintegral := Dyadic.isIntegral_of_value hvalue
  have hn : d.truncate = n := by
    rw [Dyadic.value_eq_truncate hintegral] at hvalue
    exact_mod_cast hvalue
  rw [toInt64?, hd]
  simp only [hintegral, if_true, hn]
  refine ⟨_, rfl, ?_⟩
  have hleast : Int64.minValue.toInt = -9223372036854775808 := rfl
  have hgreatest : Int64.maxValue.toInt = 9223372036854775807 := rfl
  rw [clamp_eq]
  split
  · omega
  · split
    · omega
    · rw [toInt_ofInt ((inInt64_iff n).mpr (by omega))]
      omega

/-- No other double is turned into an integer. -/
theorem toInt64?_of_no_value? {x : Float} (h : ∀ n : ℤ, value? x ≠ some (n : ℚ)) : toInt64? x = none := by
  rw [toInt64?]
  cases hd : decode? x with
  | none => rfl
  | some d =>
      have hfraction : ¬d.isIntegral = true := fun hintegral =>
        h d.truncate (value?_of_isIntegral hd hintegral)
      simp only [hfraction]
      rfl

end Binary64

/-- The number that a numeric value stands for. -/
def Value.number? : Value → Option ℚ
  | .int i => some i.toInt
  | .float x => Binary64.value? x
  | _ => none

namespace ParameterType

variable {x : Float}

theorem coerce_integer_float {i : Int64} (h : Binary64.toInt64? x = some i) :
    coerce .integer (.float x) = .ok (.int i) := by
  unfold coerce
  simp only [Value.toInt64?, h, Option.map_some]

theorem coerce_integer_float_refused (h : Binary64.toInt64? x = none) :
    coerce .integer (.float x) = .error (.expected .integer (Value.float x).typeName) := by
  unfold coerce
  simp only [Value.toInt64?, h, Option.map_none]

/-- A number is taken for an integer if it is one, within 64 bits as the very number and past them as the end
of the range. All other numbers are refused. -/
theorem coerce_integer_exact_iff {v : Value} (numeric : v.isNumeric = true) :
    (∀ n : ℤ, v.number? = some (n : ℚ) → ∃ i, coerce .integer v = .ok (.int i) ∧
      i.toInt = Binary64.clamp n ∧ (i.toInt = n ↔ InInt64 n)) ∧
    ((∀ n : ℤ, v.number? ≠ some (n : ℚ)) →
      coerce .integer v = .error (.expected .integer v.typeName)) := by
  cases v with
  | int i =>
      constructor
      · intro n hn
        have hi : i.toInt = n := by exact_mod_cast Option.some.inj hn
        have hin : InInt64 n := hi ▸ inInt64_toInt i
        exact ⟨i, rfl, hi.trans (Binary64.clamp_eq_self_iff.mpr hin).symm, iff_of_true hi hin⟩
      · intro hnone
        exact absurd rfl (hnone i.toInt)
  | float x =>
      constructor
      · intro n hn
        obtain ⟨i, hi, hclamp⟩ := Binary64.toInt64?_of_value? hn
        refine ⟨i, coerce_integer_float hi, hclamp, ?_⟩
        rw [hclamp]
        exact Binary64.clamp_eq_self_iff
      · intro hnone
        exact coerce_integer_float_refused (Binary64.toInt64?_of_no_value? hnone)
  | null | bool _ | string _ | array _ | object _ => cases numeric

/-- A double without a fraction, of less than 64 bits. -/
theorem coerce_integer_exact_iff_million :
    Value.number? (.float (-1e6)) = some ((-1000000 : ℤ) : ℚ) ∧
      coerce .integer (.float (-1e6)) = .ok (.int (-1000000)) := by
  have hdecode : Binary64.decode? (-1e6) = some ⟨true, 8589934592000000, -33⟩ := by decide +kernel
  have hnumber : Value.number? (.float (-1e6)) = some ((-1000000 : ℤ) : ℚ) :=
    Binary64.value?_of_isIntegral hdecode (by decide)
  obtain ⟨i, hcoerce, -, hexact⟩ := (@coerce_integer_exact_iff (.float (-1e6)) rfl).1 _ hnumber
  have hi : i = -1000000 := Int64.toInt_inj.mp (hexact.mpr (by decide))
  exact ⟨hnumber, hi ▸ hcoerce⟩

/-- The first integer past the range, as it is read from JSON, is taken for the one before it. -/
theorem first_past_range_clamped :
    Value.number? (.ofJson (.number (.big 9223372036854775808))) = some ((9223372036854775808 : ℤ) : ℚ) ∧
      coerce .integer (.ofJson (.number (.big 9223372036854775808))) =
        .ok (.int 9223372036854775807) := by
  have hdecode : Binary64.decode? (9223372036854775808 : UInt64).toFloat =
      some ⟨false, 4503599627370496, 11⟩ := by decide +kernel
  refine ⟨Binary64.value?_of_isIntegral hdecode (by decide), ?_⟩
  have hclamped : Binary64.toInt64? (9223372036854775808 : UInt64).toFloat = some 9223372036854775807 := by
    rw [Binary64.toInt64?, hdecode]
    rfl
  exact coerce_integer_float hclamped

end ParameterType

end RowPipeline
