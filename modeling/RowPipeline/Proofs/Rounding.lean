import Mathlib.Algebra.Order.Field.Power
import Mathlib.Data.Nat.Log
import Mathlib.Data.Rat.Cast.Order
import Mathlib.Tactic.FieldSimp
import Mathlib.Tactic.Linarith
import Mathlib.Tactic.NormNum
import Mathlib.Tactic.Positivity
import Mathlib.Tactic.Ring

/-!
# Rounding to doubles

An extended mantissa tells where a number lies between two neighbouring multiples of its unit: on the
lower one, below, at or above the middle. That is all that rounding to the nearest double needs. A
number that lies closer to a double than to any other one is rounded to it.
-/

namespace RowPipeline.Rounding

open Float.Model Float.Model.UnpackedFloat

/-! ## Extended mantissas -/

/-- The place of a number, in units of the last place, that an extended mantissa stands for. -/
def Located (em : ExtendedMantissa) (q : ℚ) : Prop :=
  match em.roundBit, em.stickyBit with
  | false, false => q = em.mantissa
  | false, true => em.mantissa < q ∧ 2 * q < 2 * em.mantissa + 1
  | true, false => 2 * q = 2 * em.mantissa + 1
  | true, true => 2 * em.mantissa + 1 < 2 * q ∧ q < em.mantissa + 1

/-- The mantissa is the integer part. -/
theorem Located.floor {em : ExtendedMantissa} {q : ℚ} (h : Located em q) :
    (em.mantissa : ℚ) ≤ q ∧ q < em.mantissa + 1 := by
  obtain ⟨m, r, s⟩ := em
  cases r <;> cases s <;> simp only [Located] at h <;> constructor <;> linarith

theorem mantissa_ofMantissaAndAccuracy (m : ℕ) (acc : Accuracy) :
    (ExtendedMantissa.ofMantissaAndAccuracy m acc).mantissa = m := by
  rcases acc with - | ⟨- | - | -⟩ <;> rfl

theorem Located.shiftRightOne {em : ExtendedMantissa} {q : ℚ} (h : Located em q) :
    Located em.shiftRightOne (q / 2) := by
  obtain ⟨m, r, s⟩ := em
  -- the bit that leaves the mantissa becomes the round bit
  have hm : (m : ℚ) = 2 * (m / 2 : ℕ) + (m % 2 : ℕ) := by
    exact_mod_cast (Nat.div_add_mod m 2).symm
  rcases Nat.mod_two_eq_zero_or_one m with hbit | hbit
  · have hzero : (m % 2 != 0) = false := by simp [hbit]
    rw [hbit] at hm
    cases r <;> cases s <;>
      simp only [Located, ExtendedMantissa.shiftRightOne, hzero, Bool.or_self, Bool.or_true,
        Bool.true_or] at h ⊢ <;>
      norm_num at hm ⊢ <;> first | linarith | constructor <;> linarith
  · have hone : (m % 2 != 0) = true := by simp [hbit]
    rw [hbit] at hm
    cases r <;> cases s <;>
      simp only [Located, ExtendedMantissa.shiftRightOne, hone, Bool.or_self, Bool.or_true,
        Bool.true_or] at h ⊢ <;>
      norm_num at hm ⊢ <;> first | linarith | constructor <;> linarith

theorem Located.shiftRight {em : ExtendedMantissa} {q : ℚ} (h : Located em q) (n : ℕ) :
    Located (em >>> n) (q / 2 ^ n) := by
  induction n with
  | zero => simpa [HShiftRight.hShiftRight, Nat.repeat] using h
  | succ n ih =>
      have hstep : em >>> (n + 1) = (em >>> n).shiftRightOne := rfl
      rw [hstep, pow_succ, ← div_div]
      exact ih.shiftRightOne

/-- Rounding gives the integer a number is nearest to, an even one if it lies in the middle. -/
theorem Located.rounded {em : ExtendedMantissa} {q : ℚ} (h : Located em q) {m : ℕ}
    (low : (2 * m : ℚ) - 1 ≤ 2 * q) (high : 2 * q ≤ 2 * m + 1)
    (even : m % 2 = 1 → (2 * m : ℚ) - 1 < 2 * q ∧ 2 * q < 2 * m + 1) :
    em.roundedMantissa = m := by
  obtain ⟨k, r, s⟩ := em
  cases r with
  | false =>
      -- the number lies in the lower half: the mantissa is the nearest integer
      have hupper : 2 * q < 2 * k + 1 := by
        cases s <;> simp only [Located] at h <;> linarith
      have hlower : (k : ℚ) ≤ q := h.floor.1
      have h1 : (2 * m : ℚ) < 2 * k + 2 := by linarith
      have h2 : (2 * k : ℚ) ≤ 2 * m + 1 := by linarith
      have h3 : 2 * m < 2 * k + 2 := by exact_mod_cast h1
      have h4 : 2 * k ≤ 2 * m + 1 := by exact_mod_cast h2
      have hk : k = m := by omega
      cases s <;> exact hk
  | true =>
      cases s with
      | false =>
          -- in the middle
          simp only [Located] at h
          have h1 : (2 * m : ℚ) ≤ 2 * k + 2 := by linarith
          have h2 : (2 * k : ℚ) + 1 ≤ 2 * m + 1 := by linarith
          have h3 : 2 * m ≤ 2 * k + 2 := by exact_mod_cast h1
          have h4 : 2 * k + 1 ≤ 2 * m + 1 := by exact_mod_cast h2
          have hodd : m % 2 ≠ 1 := by
            intro hm
            obtain ⟨hlow, hhigh⟩ := even hm
            have h5 : (2 * m : ℚ) < 2 * k + 2 := by linarith
            have h6 : (2 * k : ℚ) + 1 < 2 * m + 1 := by linarith
            have h7 : 2 * m < 2 * k + 2 := by exact_mod_cast h5
            have h8 : 2 * k + 1 < 2 * m + 1 := by exact_mod_cast h6
            omega
          show k + k % 2 = m
          omega
      | true =>
          simp only [Located] at h
          have h1 : (2 * k : ℚ) < 2 * m := by linarith
          have h2 : (2 * m : ℚ) < 2 * k + 3 := by linarith
          have h3 : 2 * k < 2 * m := by exact_mod_cast h1
          have h4 : 2 * m < 2 * k + 3 := by exact_mod_cast h2
          show k + 1 = m
          omega

theorem located_exact (m : ℕ) : Located (.ofMantissaAndAccuracy m .exact) m := rfl

/-- The number of a mantissa and an exponent. -/
def amount (m : ℕ) (e : ℤ) : ℚ := m * 2 ^ e

/-- A mantissa and an exponent as a double keeps them. -/
structure Canonical (m : ℕ) (e : ℤ) : Prop where
  pos : 0 < m
  bits : m < 2 ^ 53
  unit : -1074 ≤ e
  full : 2 ^ 52 ≤ m ∨ e = -1074

/-- Numbers nearer to a double than to its neighbours, its odd mantissa giving way in the middle. Below
a power of two the neighbour is half as far. -/
def Nears (m : ℕ) (e : ℤ) (v : ℚ) : Prop :=
  let gap := if m = 2 ^ 52 ∧ -1074 < e then 1 else 2
  ((4 * m : ℚ) - gap) * 2 ^ e ≤ 4 * v ∧ 4 * v ≤ (4 * m + 2) * 2 ^ e ∧
    (m % 2 = 1 → ((4 * m : ℚ) - gap) * 2 ^ e < 4 * v ∧ 4 * v < (4 * m + 2) * 2 ^ e)

theorem nears_amount (m : ℕ) (e : ℤ) : Nears m e (amount m e) := by
  have hpow : (0 : ℚ) < 2 ^ e := by positivity
  have hlow : ((4 * m : ℚ) - (if m = 2 ^ 52 ∧ -1074 < e then 1 else 2)) * 2 ^ e
      < 4 * (m * 2 ^ e) := by
    split <;> nlinarith
  have hhigh : 4 * (m * 2 ^ e) < (4 * m + 2 : ℚ) * 2 ^ e := by nlinarith
  exact ⟨hlow.le, hhigh.le, fun _ => ⟨hlow, hhigh⟩⟩

theorem Nears.pos {m : ℕ} {e : ℤ} {v : ℚ} (near : Nears m e v) (pos : 0 < m) : 0 < v := by
  have hpow : (0 : ℚ) < 2 ^ e := by positivity
  have hm : (1 : ℚ) ≤ m := by exact_mod_cast pos
  have hlow := near.1
  split at hlow <;> nlinarith

/-- The exponent a mantissa of a number is cut to. -/
theorem targetExponent_eq (t : ℤ) :
    Format.binary64.targetExponent t = max (t - 53) (-1074) := rfl

theorem shiftToTargetExponent_eq (m : ℕ) (e : ℤ) (acc : Accuracy) :
    shiftToTargetExponent .binary64 m e acc =
      (ExtendedMantissa.ofMantissaAndAccuracy m acc >>>
          (max ((m.log2 : ℤ) + 1 + e - 53) (-1074) - e).toNat,
        e + (max ((m.log2 : ℤ) + 1 + e - 53) (-1074) - e).toNat) := by
  simp only [shiftToTargetExponent, shiftToExponent, targetExponent_eq, totalExponent]

/-- The powers of two around a number order their exponents. -/
theorem exponent_lt {a b : ℤ} {v : ℚ} (low : 2 ^ a ≤ v) (high : v < 2 ^ b) : a < b :=
  (zpow_lt_zpow_iff_right₀ one_lt_two).1 (low.trans_lt high)

theorem Located.range {m : ℕ} {acc : Accuracy} {e : ℤ} {v : ℚ}
    (h : Located (.ofMantissaAndAccuracy m acc) (v / 2 ^ e)) (pos : 0 < m) :
    (2 : ℚ) ^ ((m.log2 : ℤ) + e) ≤ v ∧ v < 2 ^ ((m.log2 : ℤ) + 1 + e) := by
  have hpow : (0 : ℚ) < 2 ^ e := by positivity
  obtain ⟨hlow, hhigh⟩ := h.floor
  rw [mantissa_ofMantissaAndAccuracy] at hlow hhigh
  have hbelow : 2 ^ m.log2 ≤ m := Nat.log2_self_le pos.ne'
  have habove : m + 1 ≤ 2 ^ (m.log2 + 1) := Nat.lt_log2_self
  have hbelow' : (2 : ℚ) ^ m.log2 ≤ m := by exact_mod_cast hbelow
  have habove' : (m : ℚ) + 1 ≤ 2 ^ (m.log2 + 1) := by exact_mod_cast habove
  constructor
  · rw [zpow_add₀ two_ne_zero, zpow_natCast, ← le_div_iff₀ hpow]
    exact hbelow'.trans hlow
  · have hexp : (m.log2 : ℤ) + 1 + e = ((m.log2 + 1 : ℕ) : ℤ) + e := by push_cast; ring
    rw [hexp, zpow_add₀ two_ne_zero, zpow_natCast, ← div_lt_iff₀ hpow]
    exact hhigh.trans_le habove'

/-- The exponent of a number near a double is the double's own, one less if the number lies below the
power of two where a wider spacing starts. -/
theorem Nears.exponent {m : ℕ} {e t : ℤ} {v : ℚ} (canonical : Canonical m e) (near : Nears m e v)
    (low : (2 : ℚ) ^ (t - 1) ≤ v) (high : v < 2 ^ t) :
    (max (t - 53) (-1074) = e ∧ (e = -1074 ∨ (2 ^ 52 : ℚ) * 2 ^ e ≤ v)) ∨
      max (t - 53) (-1074) = e - 1 ∧ m = 2 ^ 52 ∧ -1074 < e ∧ v < amount m e := by
  obtain ⟨hpos, hbits, hmin, hnormal⟩ := canonical
  have hpow : (0 : ℚ) < 2 ^ e := by positivity
  have hbelow := near.1
  have habove := near.2.1
  have hbits' : (m : ℚ) + 1 ≤ 2 ^ 53 := by exact_mod_cast hbits
  have htop : t ≤ e + 53 := by
    have hlt : v < 2 ^ (e + 53) := by
      rw [zpow_add₀ two_ne_zero]
      norm_num at hbits' ⊢
      nlinarith
    have := exponent_lt low hlt
    omega
  rcases hnormal with hnormal | hsub
  · have hnormal' : (2 ^ 52 : ℚ) ≤ m := by exact_mod_cast hnormal
    rcases le_or_gt ((2 ^ 52 : ℚ) * 2 ^ e) v with hle | hlt
    · refine .inl ⟨?_, .inr hle⟩
      have hstart : (2 : ℚ) ^ (e + 52) ≤ v := by
        rw [zpow_add₀ two_ne_zero]
        norm_num at hle ⊢
        linarith
      have := exponent_lt hstart high
      omega
    · rcases hmin.eq_or_lt with heq | hgt
      · exact .inl ⟨by omega, .inl heq.symm⟩
      · -- below the power of two the mantissa can only be the power itself
        have hm : m = 2 ^ 52 := by
          by_contra hne
          have hmore : (2 ^ 52 : ℚ) + 1 ≤ m := by
            have : 2 ^ 52 + 1 ≤ m := by omega
            exact_mod_cast this
          rw [if_neg (fun h => hne h.1)] at hbelow
          nlinarith
        rw [if_pos ⟨hm, hgt⟩, hm] at hbelow
        have hamount : amount m e = 2 ^ 52 * 2 ^ e := by rw [amount, hm]; push_cast; rfl
        refine .inr ⟨?_, hm, hgt, hamount ▸ hlt⟩
        have hend : v < 2 ^ (e + 52) := by
          rw [zpow_add₀ two_ne_zero]
          norm_num at hlt ⊢
          linarith
        have hstart : (2 : ℚ) ^ (e + 51) ≤ v := by
          rw [zpow_add₀ two_ne_zero]
          push_cast at hbelow
          norm_num at hbelow ⊢
          linarith
        have := exponent_lt low hend
        have := exponent_lt hstart high
        omega
  · refine .inl ⟨?_, .inl hsub⟩
    rcases lt_or_ge m (2 ^ 52) with hlt | hge
    · have hlt' : (m : ℚ) + 1 ≤ 2 ^ 52 := by exact_mod_cast hlt
      have hsmall : v < 2 ^ (e + 52) := by
        rw [zpow_add₀ two_ne_zero]
        norm_num at hlt' ⊢
        nlinarith
      have := exponent_lt low hsmall
      omega
    · have hlt' : (m : ℚ) < 2 ^ 53 := by exact_mod_cast hbits
      omega

/-- A number below the least unit is near a double of that unit only. -/
theorem Nears.exponent_tiny {m : ℕ} {e f unit : ℤ} {v : ℚ} (canonical : Canonical m e)
    (near : Nears m e v) (tiny : v / 2 ^ f < (0 : ℕ) + 1) (hunit : f ≤ -1074 ∧ unit = -1074) :
    unit = e ∧ (e = -1074 ∨ (2 ^ 52 : ℚ) * 2 ^ e ≤ v) := by
  obtain ⟨hpos, hbits, hmin, hnormal⟩ := canonical
  rcases hmin.eq_or_lt with heq | hgt
  · exact ⟨hunit.2.trans heq, .inl heq.symm⟩
  · exfalso
    have hm : (2 ^ 52 : ℚ) ≤ m := by
      have : 2 ^ 52 ≤ m := by omega
      exact_mod_cast this
    have hpow : (0 : ℚ) < 2 ^ f := by positivity
    have hless : (2 : ℚ) ^ f ≤ 2 ^ e := zpow_le_zpow_right₀ one_le_two (by omega)
    have hv : v < 2 ^ f := by rw [div_lt_iff₀ hpow] at tiny; simpa using tiny
    have hbelow := near.1
    split at hbelow <;> nlinarith

/-- In its own unit a number rounds to the double it is near to. -/
theorem Nears.rounded {m : ℕ} {e : ℤ} {v : ℚ} {em : ExtendedMantissa} (near : Nears m e v)
    (located : Located em (v / 2 ^ e)) : em.roundedMantissa = m := by
  have hpow : (0 : ℚ) < 2 ^ e := by positivity
  obtain ⟨hlow, hhigh, hodd⟩ := near
  have hv : v = v / 2 ^ e * 2 ^ e := by field_simp
  generalize v / 2 ^ e = q at located hv
  subst hv
  rw [← mul_assoc, mul_le_mul_iff_left₀ hpow] at hlow hhigh
  simp only [← mul_assoc, mul_lt_mul_iff_left₀ hpow] at hodd
  refine located.rounded ?_ (by linarith) fun h => ⟨?_, by linarith [(hodd h).2]⟩
  · split at hlow <;> linarith
  · have := (hodd h).1
    split at this <;> linarith

/-- In the smaller unit below a power of two a number rounds to a mantissa of one bit more. -/
theorem Nears.rounded_carry {e : ℤ} {v : ℚ} {em : ExtendedMantissa} (near : Nears (2 ^ 52) e v)
    (hmin : -1074 < e) (below : v < amount (2 ^ 52) e) (located : Located em (v / 2 ^ (e - 1))) :
    em.roundedMantissa = 2 ^ 53 := by
  have hpow : (0 : ℚ) < 2 ^ (e - 1) := by positivity
  have htwice : (2 : ℚ) ^ e = 2 * 2 ^ (e - 1) := by
    rw [← zpow_one_add₀ two_ne_zero]
    congr 1
    ring
  have hlow := near.1
  rw [if_pos ⟨rfl, hmin⟩, htwice] at hlow
  rw [amount, htwice] at below
  have hv : v = v / 2 ^ (e - 1) * 2 ^ (e - 1) := by field_simp
  generalize v / 2 ^ (e - 1) = q at located hv
  subst hv
  push_cast at hlow below
  refine located.rounded ?_ ?_ (by norm_num)
  · push_cast
    nlinarith
  · push_cast
    nlinarith

/-- A mantissa that fits needs no shift. -/
theorem shiftToTargetExponent_canonical {m : ℕ} {e : ℤ} (canonical : Canonical m e) :
    shiftToTargetExponent .binary64 m e .exact = (⟨m, false, false⟩, e) := by
  obtain ⟨hpos, hbits, hmin, hnormal⟩ := canonical
  have hlog : m.log2 < 53 := (Nat.log2_lt hpos.ne').2 hbits
  have hshift : (max ((m.log2 : ℤ) + 1 + e - 53) (-1074) - e).toNat = 0 := by omega
  rw [shiftToTargetExponent_eq, hshift]
  simp [HShiftRight.hShiftRight, Nat.repeat, ExtendedMantissa.ofMantissaAndAccuracy]

/-- A mantissa that rounding has made one bit too long. -/
theorem shiftToTargetExponent_carry {e : ℤ} (he : -1074 < e) :
    shiftToTargetExponent .binary64 (2 ^ 53) (e - 1) .exact = (⟨2 ^ 52, false, false⟩, e) := by
  have hlog : (2 ^ 53 : ℕ).log2 = 53 := Nat.log2_two_pow
  have hshift : (max (((2 ^ 53 : ℕ).log2 : ℤ) + 1 + (e - 1) - 53) (-1074) - (e - 1)).toNat = 1 := by
    rw [hlog]
    omega
  rw [shiftToTargetExponent_eq, hshift]
  simp [HShiftRight.hShiftRight, Nat.repeat, ExtendedMantissa.ofMantissaAndAccuracy,
    ExtendedMantissa.shiftRightOne]

/-- A mantissa is shifted, rounded, and shifted once more. -/
theorem roundWithAccuracy_of_shifts {m k : ℕ} {e e₁ f : ℤ} {acc : Accuracy} {first : ExtendedMantissa}
    (s : Sign) (pos : 0 < m) (hfirst : shiftToTargetExponent .binary64 k f acc = (first, e₁))
    (hsecond : shiftToTargetExponent .binary64 first.roundedMantissa e₁ .exact =
      (⟨m, false, false⟩, e)) :
    roundWithAccuracy .binary64 s k f acc = .finite s m e pos := by
  rw [roundWithAccuracy, hfirst]
  dsimp only
  rw [hsecond]
  exact dif_neg pos.ne'

/-- A number near a double is rounded to it. -/
theorem roundWithAccuracy_of_nears {m k : ℕ} {e f : ℤ} {v : ℚ} {acc : Accuracy} (s : Sign)
    (canonical : Canonical m e) (near : Nears m e v)
    (located : Located (.ofMantissaAndAccuracy k acc) (v / 2 ^ f))
    (enough : f ≤ max ((k.log2 : ℤ) + 1 + f - 53) (-1074)) :
    roundWithAccuracy .binary64 s k f acc = .finite s m e canonical.pos := by
  have hfirst := shiftToTargetExponent_eq k f acc
  generalize hunit : max ((k.log2 : ℤ) + 1 + f - 53) (-1074) = unit at hfirst enough
  have hexp : f + (unit - f).toNat = unit := by omega
  have hlocated : Located (ExtendedMantissa.ofMantissaAndAccuracy k acc >>> (unit - f).toNat)
      (v / 2 ^ unit) := by
    have := located.shiftRight (unit - f).toNat
    rwa [div_div, ← zpow_natCast, ← zpow_add₀ two_ne_zero, hexp] at this
  rw [hexp] at hfirst
  have hcases : (unit = e ∧ (e = -1074 ∨ (2 ^ 52 : ℚ) * 2 ^ e ≤ v)) ∨
      unit = e - 1 ∧ m = 2 ^ 52 ∧ -1074 < e ∧ v < amount m e := by
    rcases Nat.eq_zero_or_pos k with rfl | hpos
    · have htiny : f ≤ -1074 ∧ unit = -1074 := by
        rw [Nat.log2_zero] at hunit
        omega
      have hless : v / 2 ^ f < (0 : ℕ) + 1 := by
        have := located.floor.2
        rwa [mantissa_ofMantissaAndAccuracy] at this
      exact .inl (near.exponent_tiny canonical hless htiny)
    · obtain ⟨hlow, hhigh⟩ := located.range hpos
      have hlow' : (2 : ℚ) ^ ((k.log2 : ℤ) + 1 + f - 1) ≤ v := by
        rwa [show (k.log2 : ℤ) + 1 + f - 1 = k.log2 + f by ring]
      exact hunit ▸ near.exponent canonical hlow' hhigh
  rcases hcases with ⟨rfl, hstart⟩ | ⟨rfl, rfl, hmin, hbelow⟩
  · have hrounded : (ExtendedMantissa.ofMantissaAndAccuracy k acc >>>
        (unit - f).toNat).roundedMantissa = m := near.rounded hlocated
    refine roundWithAccuracy_of_shifts s canonical.pos hfirst ?_
    rw [hrounded]
    exact shiftToTargetExponent_canonical canonical
  · have hrounded : (ExtendedMantissa.ofMantissaAndAccuracy k acc >>>
        (e - 1 - f).toNat).roundedMantissa = 2 ^ 53 := near.rounded_carry hmin hbelow hlocated
    refine roundWithAccuracy_of_shifts s canonical.pos hfirst ?_
    rw [hrounded]
    exact shiftToTargetExponent_carry hmin

/-! ## Operations -/

/-- The accuracy of a quotient locates it. -/
theorem located_quotient (a : ℕ) {b : ℕ} (pos : 0 < b) :
    Located (.ofMantissaAndAccuracy (a / b) (accuracyOfFraction (a % b) b)) ((a : ℚ) / b) := by
  have hb : (0 : ℚ) < b := by exact_mod_cast pos
  have hsplit : (a : ℚ) / b = (a / b : ℕ) + (a % b : ℕ) / b := by
    have h : (a : ℚ) = b * (a / b : ℕ) + (a % b : ℕ) := by exact_mod_cast (Nat.div_add_mod a b).symm
    field_simp
    exact h
  have hrest : (a % b : ℕ) < (b : ℚ) := by exact_mod_cast Nat.mod_lt a pos
  rw [hsplit, accuracyOfFraction]
  generalize a / b = q
  generalize a % b = r at hrest
  rcases Nat.eq_zero_or_pos r with rfl | hr
  · simp [ExtendedMantissa.ofMantissaAndAccuracy, Located]
  · have hr' : (0 : ℚ) < r := by exact_mod_cast hr
    have hfraction : 0 < (r : ℚ) / b ∧ (r : ℚ) / b < 1 := ⟨by positivity, (div_lt_one hb).2 hrest⟩
    rw [if_neg hr.ne']
    rcases hcmp : compare (2 * r) b with _ | _ | _
    · have hlt : 2 * (r : ℚ) < b := by exact_mod_cast compare_lt_iff_lt.1 hcmp
      have hhalf : 2 * ((r : ℚ) / b) < 1 := by rw [← mul_div_assoc]; exact (div_lt_one hb).2 hlt
      exact ⟨by show (q : ℚ) < q + r / b; linarith, by
        show 2 * ((q : ℚ) + r / b) < 2 * q + 1; linarith⟩
    · have heq : 2 * (r : ℚ) = b := by exact_mod_cast compare_eq_iff_eq.1 hcmp
      have hhalf : 2 * ((r : ℚ) / b) = 1 := by rw [← mul_div_assoc, heq]; exact div_self hb.ne'
      show 2 * ((q : ℚ) + r / b) = 2 * q + 1
      linarith
    · have hgt : (b : ℚ) < 2 * r := by exact_mod_cast compare_gt_iff_gt.1 hcmp
      have hhalf : 1 < 2 * ((r : ℚ) / b) := by rw [← mul_div_assoc]; exact (one_lt_div hb).2 hgt
      exact ⟨by show (2 * (q : ℚ) + 1) < 2 * (q + r / b); linarith, by
        show (q : ℚ) + r / b < q + 1; linarith⟩

/-- The bits of a number that a shift makes long enough. -/
theorem le_targetExponent_of_bits {k : ℕ} {f : ℤ} (long : 2 ^ 52 ≤ k) :
    f ≤ max ((k.log2 : ℤ) + 1 + f - 53) (-1074) := by
  have hlog : 52 ≤ k.log2 := (Nat.le_log2 (by omega)).2 long
  omega

theorem mul_of_nears {m m₁ m₂ : ℕ} {e e₁ e₂ : ℤ} {s₁ s₂ : Sign} {h₁ : 0 < m₁} {h₂ : 0 < m₂}
    (canonical : Canonical m e) (near : Nears m e (amount m₁ e₁ * amount m₂ e₂))
    (long : 2 ^ 52 ≤ m₁ * m₂) :
    UnpackedFloat.mul .binary64 (.finite s₁ m₁ e₁ h₁) (.finite s₂ m₂ e₂ h₂)
      = .finite (s₁ * s₂) m e canonical.pos := by
  refine roundWithAccuracy_of_nears _ canonical near ?_ (le_targetExponent_of_bits long)
  have hpow : (2 : ℚ) ^ (e₁ + e₂) ≠ 0 := by positivity
  have hplace : amount m₁ e₁ * amount m₂ e₂ / 2 ^ (e₁ + e₂) = (m₁ * m₂ : ℕ) := by
    rw [div_eq_iff hpow, zpow_add₀ two_ne_zero, amount, amount]
    push_cast
    ring
  rw [hplace]
  exact located_exact _

theorem amount_range {m : ℕ} {e : ℤ} (pos : 0 < m) :
    (2 : ℚ) ^ (totalExponent m e - 1) ≤ amount m e ∧ amount m e < 2 ^ totalExponent m e := by
  have hlocated : Located (.ofMantissaAndAccuracy m .exact) (amount m e / 2 ^ e) := by
    have hpow : (2 : ℚ) ^ e ≠ 0 := by positivity
    rw [amount, mul_div_cancel_right₀ _ hpow]
    exact located_exact m
  have := hlocated.range pos
  rwa [show (m.log2 : ℤ) + e = totalExponent m e - 1 by rw [totalExponent]; ring] at this

theorem div_of_nears {m m₁ m₂ : ℕ} {e e₁ e₂ : ℤ} {s₁ s₂ : Sign} {h₁ : 0 < m₁} {h₂ : 0 < m₂}
    (canonical : Canonical m e) (near : Nears m e (amount m₁ e₁ / amount m₂ e₂)) :
    UnpackedFloat.div .binary64 (.finite s₁ m₁ e₁ h₁) (.finite s₂ m₂ e₂ h₂)
      = .finite (s₁ / s₂) m e canonical.pos := by
  let quotient := divCore .binary64 m₁ e₁ m₂ e₂
  show roundWithAccuracy .binary64 (s₁ / s₂) quotient.1 quotient.2.1 quotient.2.2 = _
  dsimp only [quotient, divCore]
  rw [targetExponent_eq]
  generalize hf : min (e₁ - e₂)
    (max (totalExponent m₁ e₁ - totalExponent m₂ e₂ - 53) (-1074)) = f
  have hm₂ : (0 : ℚ) < m₂ := by exact_mod_cast h₂
  have hplace : amount m₁ e₁ / amount m₂ e₂ / 2 ^ f = (m₁ <<< (e₁ - e₂ - f).toNat : ℕ) / m₂ := by
    have hshift : ((e₁ - e₂ - f).toNat : ℤ) = e₁ - e₂ - f := by omega
    rw [Nat.shiftLeft_eq, amount, amount]
    push_cast
    rw [← zpow_natCast, hshift, zpow_sub₀ two_ne_zero, zpow_sub₀ two_ne_zero]
    field_simp
  have hlocated := located_quotient (m₁ <<< (e₁ - e₂ - f).toNat) h₂
  rw [← hplace] at hlocated
  refine roundWithAccuracy_of_nears _ canonical near hlocated ?_
  rcases le_or_gt f (-1074) with hsmall | hlarge
  · omega
  · -- the quotient has enough bits
    refine le_targetExponent_of_bits ?_
    have hupper : (2 : ℚ) ^ (totalExponent m₁ e₁ - totalExponent m₂ e₂ - 1)
        ≤ amount m₁ e₁ / amount m₂ e₂ := by
      have hpos : 0 < amount m₂ e₂ := by rw [amount]; positivity
      rw [le_div_iff₀ hpos]
      calc (2 : ℚ) ^ (totalExponent m₁ e₁ - totalExponent m₂ e₂ - 1) * amount m₂ e₂
          ≤ 2 ^ (totalExponent m₁ e₁ - totalExponent m₂ e₂ - 1) * 2 ^ totalExponent m₂ e₂ := by
            gcongr
            exact (amount_range h₂).2.le
        _ = 2 ^ (totalExponent m₁ e₁ - 1) := by
            rw [← zpow_add₀ two_ne_zero]
            congr 1
            ring
        _ ≤ amount m₁ e₁ := (amount_range h₁).1
    have hstart : (2 : ℚ) ^ (f + 52) ≤ amount m₁ e₁ / amount m₂ e₂ :=
      (zpow_le_zpow_right₀ one_le_two (by omega)).trans hupper
    have hpow : (0 : ℚ) < 2 ^ f := by positivity
    rw [zpow_add₀ two_ne_zero, mul_comm, ← le_div_iff₀ hpow, hplace] at hstart
    rw [Nat.le_div_iff_mul_le h₂]
    rw [le_div_iff₀ hm₂] at hstart
    exact_mod_cast hstart

/-- The double of a natural number. -/
theorem ofNat_of_nears {m k : ℕ} {e : ℤ} (canonical : Canonical m e) (near : Nears m e k)
    (pos : 0 < k) : UnpackedFloat.ofNat .binary64 k = .finite .positive m e canonical.pos := by
  have hcmp : compare (k : ℤ) 0 = .gt := compare_gt_iff_gt.2 (by exact_mod_cast pos)
  rw [UnpackedFloat.ofNat, UnpackedFloat.ofInt, UnpackedFloat.normalize, hcmp]
  dsimp only
  rw [Int.toNat_natCast, UnpackedFloat.round, decreaseExponent, targetExponent_eq, totalExponent]
  dsimp only
  generalize hshift : (0 - max ((k.log2 : ℤ) + 1 + 0 - 53) (-1074)).toNat = shift
  have hplace : (k : ℚ) / 2 ^ (0 - (shift : ℤ)) = (k <<< shift : ℕ) := by
    rw [Nat.shiftLeft_eq, zero_sub, zpow_neg, zpow_natCast]
    push_cast
    field_simp
  refine roundWithAccuracy_of_nears _ canonical near (hplace ▸ located_exact _)
    (le_targetExponent_of_bits ?_)
  rw [Nat.shiftLeft_eq]
  calc 2 ^ 52 ≤ 2 ^ (k.log2 + shift) := Nat.pow_le_pow_right (by omega) (by omega)
    _ = 2 ^ k.log2 * 2 ^ shift := Nat.pow_add ..
    _ ≤ k * 2 ^ shift := Nat.mul_le_mul_right _ (Nat.log2_self_le pos.ne')

end RowPipeline.Rounding
