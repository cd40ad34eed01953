import RowPipeline.Expr.Eval
import RowPipeline.Proofs.DoubleOrder

/-!
# Exact integer arithmetic

Sums, differences, products and negations of integers are exact where they fit 64 bits, and doubles where
they do not. So are remainders, but for that of the least integer by minus one. An operation fails only
where it divides by zero.
-/

namespace RowPipeline

/-- The numbers of 64 bits. -/
def InInt64 (n : ℤ) : Prop := Int64.minValue.toInt ≤ n ∧ n ≤ Int64.maxValue.toInt

instance (n : ℤ) : Decidable (InInt64 n) := by
  unfold InInt64
  infer_instance

theorem inInt64_iff (n : ℤ) : InInt64 n ↔ -9223372036854775808 ≤ n ∧ n ≤ 9223372036854775807 := Iff.rfl

theorem inInt64_toInt (i : Int64) : InInt64 i.toInt := by
  have hhigh := Int64.toInt_lt i
  have hlow := Int64.le_toInt i
  rw [inInt64_iff]
  omega

/-- A number of 64 bits is the value of its integer. -/
theorem toInt_ofInt {n : ℤ} (h : InInt64 n) : (Int64.ofInt n).toInt = n := by
  rw [inInt64_iff] at h
  exact Int64.toInt_ofInt_of_le (by omega) (by omega)

namespace ScalarFunction

theorem exactInt64?_of_inInt64 {n : ℤ} (h : InInt64 n) : exactInt64? n = some (Int64.ofInt n) := by
  rw [exactInt64?, if_pos]
  exact Bool.and_eq_true_iff.mpr ⟨decide_eq_true h.1, decide_eq_true h.2⟩

theorem exactInt64?_eq_none_iff {n : ℤ} : exactInt64? n = none ↔ ¬InInt64 n := by
  constructor
  · intro h hin
    rw [exactInt64?_of_inInt64 hin] at h
    cases h
  · intro h
    rw [exactInt64?, if_neg]
    intro hin
    obtain ⟨hlow, hhigh⟩ := Bool.and_eq_true_iff.mp hin
    exact h ⟨of_decide_eq_true hlow, of_decide_eq_true hhigh⟩

theorem exactInt64?_eq_some_iff {n : ℤ} {k : Int64} : exactInt64? n = some k ↔ k.toInt = n := by
  constructor
  · intro h
    have hin : InInt64 n := by
      by_contra hout
      rw [exactInt64?_eq_none_iff.mpr hout] at h
      cases h
    rw [exactInt64?_of_inInt64 hin] at h
    rw [← Option.some.inj h, toInt_ofInt hin]
  · rintro rfl
    rw [exactInt64?_of_inInt64 (inInt64_toInt k), Int64.ofInt_toInt]

end ScalarFunction

/-- No integer but zero is rounded to a zero. -/
theorem Binary64.ofInt64_beq_zero_iff (i : Int64) : (ofInt64 i == 0) = true ↔ i = 0 := by
  constructor
  · intro h
    rcases ofInt64_cases i with ⟨hzero, -⟩ | ⟨-, m, e, canonical, he, -, hfloat⟩
    · exact Int64.toInt_inj.mp hzero
    · have hplace := ((beq_iff_place _ _).mp h).2.2
      have hbits := (bits_range canonical he).1
      have hnone : place 0 = 0 := rfl
      rw [hfloat, place_ofFields _ canonical he, hnone] at hplace
      split at hplace <;> omega
  · rintro rfl
    decide +kernel

theorem Binary64.ofInt64_beq_zero_eq_false {i : Int64} (h : i ≠ 0) : (ofInt64 i == 0) = false :=
  Bool.eq_false_iff.mpr (mt (ofInt64_beq_zero_iff i).mp h)

namespace Expr

open ScalarFunction (exactInt64? exactInt64?_eq_some_iff exactInt64?_eq_none_iff)
open Binary64 (ofInt64 ofInt64_beq_zero_iff ofInt64_beq_zero_eq_false)

/-- An outcome of arithmetic on integers whose exact result is `n`: the integer where there is one, and a
double exactly where there is none. -/
structure ComputesExactly (outcome : Outcome Value) (n : ℤ) : Prop where
  integer : ∀ k : Int64, outcome = .ok (.int k) ↔ k.toInt = n
  double : (∃ x, outcome = .ok (.float x)) ↔ ¬InInt64 n

/-- An exact result, with a double to fall back on. -/
theorem computesExactly_of_exactInt64? {outcome : Outcome Value} {n : ℤ}
    (integer : ∀ k, exactInt64? n = some k → outcome = .ok (.int k))
    (double : exactInt64? n = none → ∃ x, outcome = .ok (.float x)) : ComputesExactly outcome n := by
  cases hexact : exactInt64? n with
  | none =>
      obtain ⟨x, hx⟩ := double hexact
      have hout := exactInt64?_eq_none_iff.mp hexact
      constructor
      case integer =>
        intro k
        refine iff_of_false (by simp [hx]) ?_
        rintro rfl
        exact hout (inInt64_toInt k)
      case double => exact iff_of_true ⟨x, hx⟩ hout
  | some k =>
      have hk := integer k hexact
      have hn := exactInt64?_eq_some_iff.mp hexact
      constructor
      case integer =>
        intro j
        rw [hk, ← hn, Int64.toInt_inj, Except.ok.injEq, Value.int.injEq, eq_comm]
      case double =>
        refine iff_of_false (by simp [hk]) (not_not.mpr ?_)
        exact hn ▸ inInt64_toInt k

/-- The operators with integer results, as operations on numbers. The remainder is that of the division
rounded toward zero, with the sign of the dividend. -/
def wholeOperation? : BinaryOp → Option (ℤ → ℤ → ℤ)
  | .add => some (· + ·)
  | .sub => some (· - ·)
  | .mul => some (· * ·)
  | .mod => some Int.tmod
  | _ => none

/-- The operators that divide by their right side. -/
def Divides (op : BinaryOp) : Prop := op = .div ∨ op = .mod

/-- The one remainder that counts as out of range. -/
def LeastByMinusOne (op : BinaryOp) (a b : Int64) : Prop := op = .mod ∧ a = Int64.minValue ∧ b = -1

instance (op : BinaryOp) : Decidable (Divides op) :=
  inferInstanceAs (Decidable (op = .div ∨ op = .mod))

instance (op : BinaryOp) (a b : Int64) : Decidable (LeastByMinusOne op a b) :=
  inferInstanceAs (Decidable (op = .mod ∧ a = Int64.minValue ∧ b = -1))

variable {op : BinaryOp} {f : ℤ → ℤ → ℤ} {a b : Int64}

theorem exactArithmetic?_eq (h : wholeOperation? op = some f) (nonzero : Divides op → b ≠ 0)
    (ordinary : ¬LeastByMinusOne op a b) :
    exactArithmetic? op a b = exactInt64? (f a.toInt b.toInt) := by
  cases op with
  | mod =>
      cases h
      have hzero : (b == 0) = false := beq_eq_false_iff_ne.mpr (nonzero (.inr rfl))
      have hleast : (a == Int64.minValue && b == -1) = false := by
        rw [Bool.eq_false_iff]
        intro hboth
        obtain ⟨ha, hb⟩ := Bool.and_eq_true_iff.mp hboth
        exact ordinary ⟨rfl, beq_iff_eq.mp ha, beq_iff_eq.mp hb⟩
      simp only [exactArithmetic?, hzero, hleast, Bool.or_self, Bool.false_eq_true, if_false]
  | add | sub | mul =>
      cases h
      rfl
  | _ => cases h

/-- Arithmetic on doubles that does not divide by zero. -/
theorem floatArithmetic_ok {x y : Float} (whole : wholeOperation? op = some f)
    (nonzero : Divides op → (y == 0) = false) : ∃ z, floatArithmetic op x y = .ok (.float z) := by
  cases op with
  | add => exact ⟨x + y, rfl⟩
  | sub => exact ⟨x - y, rfl⟩
  | mul => exact ⟨x * y, rfl⟩
  | mod =>
      have hy := nonzero (.inr rfl)
      exact ⟨Binary64.remainder x y, by simp [floatArithmetic, hy]⟩
  | _ => cases whole

/-- Arithmetic on integers is exact or goes on with doubles, if it does not divide by zero. -/
theorem applyBinary_whole (whole : wholeOperation? op = some f) (nonzero : Divides op → b ≠ 0) :
    applyBinary op (.int a) (.int b) =
      (exactArithmetic? op a b).elim (floatArithmetic op (ofInt64 a) (ofInt64 b))
        fun k => .ok (.int k) := by
  have hzero : (decide (op = .mod) && b == 0) = false := by
    rw [Bool.eq_false_iff, ne_eq, Bool.and_eq_true, decide_eq_true_iff, beq_iff_eq]
    rintro ⟨hmod, hb⟩
    exact nonzero (.inr hmod) hb
  have harithmetic : applyBinary op (.int a) (.int b) = arithmetic op (.int a) (.int b) := by
    cases op with
    | add | sub | mul | mod => rfl
    | _ => cases whole
  rw [harithmetic]
  simp only [arithmetic, Value.isNull, Bool.or_self, Bool.false_eq_true, if_false, hzero]
  cases exactArithmetic? op a b <;> rfl

/-- A quotient of integers is a double. -/
theorem applyBinary_div (nonzero : b ≠ 0) :
    applyBinary .div (.int a) (.int b) = .ok (.float (ofInt64 a / ofInt64 b)) := by
  have hfloat := ofInt64_beq_zero_eq_false nonzero
  simp [applyBinary, arithmetic, Value.isNull, exactArithmetic?, floatArithmetic, hfloat]

theorem applyBinary_zero (divides : Divides op) :
    applyBinary op (.int a) (.int 0) = .error .divisionByZero := by
  have hfloat : (ofInt64 0 == 0) = true := (ofInt64_beq_zero_iff 0).mpr rfl
  rcases divides with rfl | rfl
  · simp [applyBinary, arithmetic, Value.isNull, exactArithmetic?, floatArithmetic, hfloat]
  · rfl

/-- An operation on integers has a value, if it does not divide by zero. -/
theorem applyBinary_ok (op : BinaryOp) (nonzero : Divides op → b ≠ 0) :
    ∃ v, applyBinary op (.int a) (.int b) = .ok v := by
  have hwhole : ∀ f, wholeOperation? op = some f → ∃ v, applyBinary op (.int a) (.int b) = .ok v := by
    intro f whole
    rw [applyBinary_whole whole nonzero]
    cases exactArithmetic? op a b with
    | some k => exact ⟨.int k, rfl⟩
    | none =>
        obtain ⟨z, hz⟩ := floatArithmetic_ok whole fun divides =>
          ofInt64_beq_zero_eq_false (nonzero divides)
        exact ⟨.float z, hz⟩
  cases op with
  | add | sub | mul | mod => exact hwhole _ rfl
  | div => exact ⟨_, applyBinary_div (nonzero (.inl rfl))⟩
  | _ => exact ⟨_, rfl⟩

/-- The result of arithmetic on integers is exact, but for the remainder of the least integer by minus one. -/
theorem applyBinary_computesExactly (whole : wholeOperation? op = some f) (nonzero : Divides op → b ≠ 0)
    (ordinary : ¬LeastByMinusOne op a b) :
    ComputesExactly (applyBinary op (.int a) (.int b)) (f a.toInt b.toInt) := by
  rw [applyBinary_whole whole nonzero, exactArithmetic?_eq whole nonzero ordinary]
  refine computesExactly_of_exactInt64? (fun k hk => by rw [hk]; rfl) ?_
  intro hnone
  rw [hnone]
  exact floatArithmetic_ok whole fun divides => ofInt64_beq_zero_eq_false (nonzero divides)

theorem applyUnary_computesExactly (a : Int64) :
    ComputesExactly (applyUnary .neg (.int a)) (-a.toInt) := by
  refine computesExactly_of_exactInt64? ?_ ?_
  · intro k hk
    simp [applyUnary, hk]
  · intro hnone
    exact ⟨-ofInt64 a, by simp [applyUnary, hnone]⟩

/-- Sums, differences, products, remainders and negations of integers are the exact integers where these
fit, but for the remainder of the least integer by minus one, and doubles where they do not. An operation
on integers fails only where it divides by zero. -/
theorem integer_arithmetic_exact (a b : Int64) :
    (∀ op f, wholeOperation? op = some f → (Divides op → b ≠ 0) → ¬LeastByMinusOne op a b →
      ComputesExactly (applyBinary op (.int a) (.int b)) (f a.toInt b.toInt)) ∧
    (∀ op e, applyBinary op (.int a) (.int b) = .error e ↔
      e = .divisionByZero ∧ Divides op ∧ b = 0) ∧
    ComputesExactly (applyUnary .neg (.int a)) (-a.toInt) := by
  refine ⟨fun op f => applyBinary_computesExactly, ?_, applyUnary_computesExactly a⟩
  intro op e
  constructor
  · intro herror
    by_cases hzero : Divides op ∧ b = 0
    · obtain ⟨divides, rfl⟩ := hzero
      rw [applyBinary_zero divides] at herror
      cases herror
      exact ⟨rfl, divides, rfl⟩
    · obtain ⟨v, hv⟩ := @applyBinary_ok a b op fun divides hb => hzero ⟨divides, hb⟩
      rw [hv] at herror
      cases herror
  · rintro ⟨rfl, divides, rfl⟩
    exact applyBinary_zero divides

/-- At the upper end of the range. -/
theorem integer_arithmetic_exact_greatest :
    applyBinary .mod (.int Int64.maxValue) (.int (-2)) = .ok (.int 1) ∧
      ∃ x, applyBinary .mul (.int Int64.maxValue) (.int (-2)) = .ok (.float x) := by
  obtain ⟨hexact, -, -⟩ := integer_arithmetic_exact Int64.maxValue (-2)
  have hmod := hexact .mod Int.tmod rfl (by decide) (by decide)
  have hmul := hexact .mul (· * ·) rfl (by decide) (by decide)
  exact ⟨(hmod.integer 1).mpr (by decide), hmul.double.mpr (by decide)⟩

/-- The remainder of the least integer by minus one is zero, but the result is a double. -/
theorem least_remainder_inexact :
    Int64.minValue.toInt.tmod (-1 : Int64).toInt = (0 : Int64).toInt ∧
      applyBinary .mod (.int Int64.minValue) (.int (-1)) = .ok (.float (-0.0)) := by
  refine ⟨by decide, ?_⟩
  have hfloat : Binary64.remainder (ofInt64 Int64.minValue) (ofInt64 (-1)) = -0.0 := by decide +kernel
  rw [← hfloat]
  rfl

end Expr

end RowPipeline
