import RowPipeline.Proofs.Doubles

/-!
# Numerals that read back

The shortest numeral of a double lies nearer to it than to any other double. However its digits are
arranged, it is read as the double it was written for.
-/

namespace RowPipeline.Decimal

open Binary64 Rounding

variable {m : ℕ} {e : ℤ}

/-! ## The neighbourhood of a double -/

/-- An integer power as a quotient of natural ones. -/
theorem zpow_split (b : ℚ) (n : ℤ) : b ^ n = b ^ n.toNat / b ^ (-n).toNat := by
  rcases le_total 0 n with h | h
  · rw [Int.toNat_of_nonpos (by omega : -n ≤ 0), pow_zero, div_one, ← zpow_natCast,
      Int.toNat_of_nonneg h]
  · rw [Int.toNat_of_nonpos h, pow_zero, ← zpow_natCast, Int.toNat_of_nonneg (by omega), zpow_neg,
      one_div, inv_inv]

theorem Neighbourhood.has_iff (n : Neighbourhood) (a b : ℕ) :
    n.has a b = true ↔ n.low * b ≤ a * n.denominator ∧ a * n.denominator ≤ n.high * b ∧
      (n.closed = false → n.low * b < a * n.denominator ∧ a * n.denominator < n.high * b) := by
  rw [Neighbourhood.has]
  cases n.closed
  · simp only [Bool.false_eq_true, if_false, Bool.and_eq_true, decide_eq_true_eq]
    constructor
    · rintro ⟨hlow, hhigh⟩
      exact ⟨hlow.le, hhigh.le, fun _ => ⟨hlow, hhigh⟩⟩
    · intro h
      exact h.2.2 trivial
  · simp

/-- The neighbourhood holds what is near the double. -/
theorem has_neighbourhood {a b : ℕ} (pos : 0 < m) (hb : 0 < b) :
    (neighbourhood m e).has a b = true ↔ Nears m e ((a : ℚ) / b) := by
  have hb' : (0 : ℚ) < b := by exact_mod_cast hb
  have hdown : (0 : ℚ) < 2 ^ (-e).toNat := by positivity
  have hlow : ((neighbourhood m e).low : ℚ)
      = (4 * m - if m = 2 ^ 52 ∧ -1074 < e then 1 else 2) * 2 ^ e.toNat := by
    simp only [neighbourhood, Nat.pow_eq]
    rw [Nat.cast_mul, Nat.cast_sub (by split <;> omega)]
    push_cast
    simp
  have hhigh : ((neighbourhood m e).high : ℚ) = (4 * m + 2) * 2 ^ e.toNat := by
    simp only [neighbourhood, Nat.pow_eq]
    push_cast
    rfl
  have hden : ((neighbourhood m e).denominator : ℚ) = 4 * 2 ^ (-e).toNat := by
    simp only [neighbourhood, Nat.pow_eq]
    push_cast
    rfl
  have hclosed : (neighbourhood m e).closed = false ↔ m % 2 = 1 := by
    simp only [neighbourhood, beq_eq_false_iff_ne]
    omega
  have hbelow : ∀ c : ℚ, c * 2 ^ e ≤ 4 * (a / b) ↔
      c * 2 ^ e.toNat * b ≤ a * (4 * 2 ^ (-e).toNat) := by
    intro c
    rw [zpow_split 2 e, ← mul_div_assoc, ← mul_div_assoc, div_le_div_iff₀ hdown hb']
    constructor <;> intro h <;> linarith
  have habove : ∀ c : ℚ, 4 * (a / b) ≤ c * 2 ^ e ↔
      a * (4 * 2 ^ (-e).toNat) ≤ c * 2 ^ e.toNat * b := by
    intro c
    rw [zpow_split 2 e, ← mul_div_assoc, ← mul_div_assoc, div_le_div_iff₀ hb' hdown]
    constructor <;> intro h <;> linarith
  have hbelow' : ∀ c : ℚ, c * 2 ^ e < 4 * (a / b) ↔
      c * 2 ^ e.toNat * b < a * (4 * 2 ^ (-e).toNat) := by
    intro c
    rw [← not_le, ← not_le, habove]
  have habove' : ∀ c : ℚ, 4 * (a / b) < c * 2 ^ e ↔
      a * (4 * 2 ^ (-e).toNat) < c * 2 ^ e.toNat * b := by
    intro c
    rw [← not_le, ← not_le, hbelow]
  rw [Neighbourhood.has_iff, hclosed, Nears, hbelow, habove, hbelow', habove', ← hlow, ← hhigh,
    ← hden]
  norm_cast

/-! ## The search -/

/-- The number of a numeral. -/
def Numeral.amount (n : Numeral) : ℚ := n.digits * 10 ^ n.scale

theorem Numeral.amount_eq (n : Numeral) :
    n.amount = (n.digits * 10 ^ n.scale.toNat : ℕ) / (10 ^ (-n.scale).toNat : ℕ) := by
  rw [Numeral.amount, zpow_split 10 n.scale, ← mul_div_assoc]
  push_cast [Nat.pow_eq]
  rfl

/-- The two neighbours of the value on a grid. -/
def Neighbourhood.below (n : Neighbourhood) (scale : ℤ) : ℕ :=
  n.value * 10 ^ (-scale).toNat / (n.denominator * 10 ^ scale.toNat)

/-- Whether a numeral lies in the neighbourhood. -/
def Neighbourhood.hit (n : Neighbourhood) (k : Numeral) : Bool :=
  n.has (k.digits * 10 ^ k.scale.toNat) (10 ^ (-k.scale).toNat)

/-- A candidate lies in the neighbourhood, and there is one if the upper neighbour does. -/
theorem Neighbourhood.onGrid?_spec (n : Neighbourhood) (tie : Tie) (scale : ℤ) :
    (∀ k, n.onGrid? tie scale = some k → n.hit k = true) ∧
      (n.hit ⟨n.below scale + 1, scale⟩ = true → (n.onGrid? tie scale).isSome) := by
  have hdef : n.value * 10 ^ (-scale).toNat / (n.denominator * 10 ^ scale.toNat)
      = n.below scale := rfl
  simp only [Neighbourhood.onGrid?, Neighbourhood.hit, Nat.pow_eq, hdef]
  generalize hlow : (decide (0 < n.below scale) && n.has (n.below scale * 10 ^ scale.toNat)
    (10 ^ (-scale).toNat)) = lowHit
  generalize hhigh : n.has ((n.below scale + 1) * 10 ^ scale.toNat)
    (10 ^ (-scale).toNat) = highHit
  generalize (if (n.below scale + (n.below scale + 1)) * (n.denominator * 10 ^ scale.toNat) <
    2 * n.value * 10 ^ (-scale).toNat then true else _) = nearer
  have hbelow : lowHit = true → n.has (n.below scale * 10 ^ scale.toNat)
      (10 ^ (-scale).toNat) = true := by
    rintro rfl
    exact (Bool.and_eq_true_iff.1 hlow).2
  cases lowHit with
  | false =>
      cases highHit with
      | false => simp
      | true => simpa using hhigh
  | true =>
      have hbelow' := hbelow rfl
      cases highHit with
      | false => simpa using hbelow'
      | true =>
          cases nearer with
          | false => simpa using hbelow'
          | true => simpa using hhigh

theorem hit_iff {k : Numeral} (pos : 0 < m) :
    (neighbourhood m e).hit k = true ↔ Nears m e k.amount := by
  rw [Numeral.amount_eq]
  exact has_neighbourhood pos (Nat.pow_pos (by omega))

theorem value_neighbourhood :
    ((neighbourhood m e).value : ℚ) / (neighbourhood m e).denominator = Rounding.amount m e := by
  have hdown : (2 : ℚ) ^ (-e).toNat ≠ 0 := by positivity
  simp only [neighbourhood, Nat.pow_eq, Rounding.amount]
  rw [zpow_split 2 e]
  push_cast
  field_simp

/-- A grid finer than half the distance to the next double has a candidate. -/
theorem onGrid?_isSome {tie : Tie} {scale : ℤ} (pos : 0 < m)
    (fine : (10 : ℚ) ^ scale < 2 ^ e / 2) :
    ((neighbourhood m e).onGrid? tie scale).isSome := by
  have hpow : (0 : ℚ) < 2 ^ e := by positivity
  have hten : (0 : ℚ) < 10 ^ scale := by positivity
  have hdown : (0 : ℚ) < 10 ^ (-scale).toNat := by positivity
  have hden : (0 : ℚ) < (neighbourhood m e).denominator := by
    simp only [neighbourhood, Nat.pow_eq]
    positivity
  refine (Neighbourhood.onGrid?_spec _ tie scale).2 ((hit_iff pos).2 ?_)
  -- the multiple of the spacing right above the value
  obtain ⟨below, hbelow⟩ : ∃ k, k = (neighbourhood m e).below scale := ⟨_, rfl⟩
  have hplace : Rounding.amount m e / 10 ^ scale
      = ((neighbourhood m e).value * 10 ^ (-scale).toNat : ℕ) /
        ((neighbourhood m e).denominator * 10 ^ scale.toNat : ℕ) := by
    rw [← value_neighbourhood, zpow_split 10 scale]
    push_cast [Nat.pow_eq]
    field_simp
  have hfloor : (below : ℚ) ≤ Rounding.amount m e / 10 ^ scale ∧
      Rounding.amount m e / 10 ^ scale < below + 1 := by
    rw [hplace, hbelow, Neighbourhood.below]
    have hpos : 0 < (neighbourhood m e).denominator * 10 ^ scale.toNat := by
      simp only [neighbourhood, Nat.pow_eq]
      positivity
    have := (located_quotient ((neighbourhood m e).value * 10 ^ (-scale).toNat) hpos).floor
    rwa [mantissa_ofMantissaAndAccuracy] at this
  rw [le_div_iff₀ hten, div_lt_iff₀ hten] at hfloor
  rw [← hbelow, Numeral.amount]
  push_cast
  have hlow : (4 * (m : ℚ) - (if m = 2 ^ 52 ∧ -1074 < e then 1 else 2)) * 2 ^ e
      ≤ 4 * Rounding.amount m e := by
    rw [Rounding.amount]
    split <;> nlinarith
  have hhigh : 4 * ((below + 1 : ℚ) * 10 ^ scale) < (4 * m + 2) * 2 ^ e := by
    have : (below : ℚ) * 10 ^ scale ≤ m * 2 ^ e := hfloor.1
    nlinarith
  exact ⟨by linarith [hfloor.2], hhigh.le, fun _ => ⟨by linarith [hfloor.2], hhigh⟩⟩

theorem search_nears {tie : Tie} {k fuel : ℕ} {scale : ℤ} (pos : 0 < m) (hk : k < fuel)
    (found : ((neighbourhood m e).onGrid? tie (scale - k)).isSome) :
    Nears m e ((neighbourhood m e).search tie fuel scale).amount := by
  induction fuel generalizing scale k with
  | zero => omega
  | succ fuel ih =>
      simp only [Neighbourhood.search]
      cases hgrid : (neighbourhood m e).onGrid? tie scale with
      | some n => exact (hit_iff pos).1 ((Neighbourhood.onGrid?_spec _ tie scale).1 n hgrid)
      | none =>
          cases k with
          | zero => simp [hgrid] at found
          | succ k =>
              refine ih (Nat.lt_of_succ_lt_succ hk) ?_
              rwa [show scale - 1 - (k : ℤ) = scale - (k + 1 : ℕ) by push_cast; ring]

/-- The number is no smaller than a tenth of the leading place. -/
theorem leadingScale_lt {a b : ℕ} (ha : 0 < a) (hb : 0 < b) :
    (10 : ℚ) ^ (leadingScale a b - 1) < (a : ℚ) / b := by
  have ha' : (0 : ℚ) < a := by exact_mod_cast ha
  have hb' : (0 : ℚ) < b := by exact_mod_cast hb
  rw [leadingScale]
  split
  · rename_i hle
    obtain ⟨hlow, -, hlength⟩ := digits_range (Nat.div_pos hle hb)
    have hexp : ((toString (a / b)).length : ℤ) - 1 - 1
        = ((toString (a / b)).length - 1 : ℕ) + -1 := by omega
    have hfloor := (located_quotient a hb).floor.1
    rw [mantissa_ofMantissaAndAccuracy] at hfloor
    rw [hexp, zpow_add₀ (by norm_num), zpow_natCast]
    have hlow' : (10 : ℚ) ^ ((toString (a / b)).length - 1) ≤ (a / b : ℕ) := by exact_mod_cast hlow
    have hpow : (0 : ℚ) < 10 ^ ((toString (a / b)).length - 1) := by positivity
    calc (10 : ℚ) ^ ((toString (a / b)).length - 1) * 10 ^ (-1 : ℤ)
        < 10 ^ ((toString (a / b)).length - 1) := by norm_num
      _ ≤ _ := hlow'.trans hfloor
  · rename_i hlt
    obtain ⟨-, hhigh, hlength⟩ := digits_range (Nat.div_pos (Nat.le_of_not_le hlt) ha)
    have hfloor := (located_quotient b ha).floor.2
    rw [mantissa_ofMantissaAndAccuracy] at hfloor
    have hhigh' : ((b / a : ℕ) : ℚ) + 1 ≤ 10 ^ (toString (b / a)).length := by
      exact_mod_cast hhigh
    have hexp : -(((toString (b / a)).length : ℤ) - 1) - 1 = -(toString (b / a)).length := by omega
    rw [hexp, zpow_neg, zpow_natCast, ← inv_div]
    exact inv_strictAnti₀ (by positivity) (hfloor.trans_le hhigh')

theorem trim_amount (fuel : ℕ) (n : Numeral) : (n.trim fuel).amount = n.amount := by
  induction fuel generalizing n with
  | zero => rfl
  | succ fuel ih =>
      rw [Numeral.trim]
      split
      · rename_i hzero
        simp only [Bool.and_eq_true, bne_iff_ne, ne_eq, beq_iff_eq] at hzero
        have hdigits : (n.digits : ℚ) = 10 * (n.digits / 10 : ℕ) := by
          exact_mod_cast (by omega : n.digits = 10 * (n.digits / 10))
        rw [ih, Numeral.amount, Numeral.amount, hdigits, zpow_add₀ (by norm_num)]
        simp only [zpow_one]
        ring
      · rfl

/-- The shortest numeral is near the double. -/
theorem shortest_nears (tie : Tie) (canonical : Canonical m e) :
    Nears m e (shortest tie m e).amount := by
  have hpow : (0 : ℚ) < 2 ^ e := by positivity
  obtain ⟨hpos, hbits, -, -⟩ := canonical
  have hbits' : (m : ℚ) < 2 ^ 53 := by exact_mod_cast hbits
  rw [shortest, trim_amount]
  refine search_nears (k := 19) hpos (by omega) (onGrid?_isSome hpos ?_)
  have hlead : (10 : ℚ) ^ (leadingScale (neighbourhood m e).value (neighbourhood m e).denominator - 1)
      < Rounding.amount m e := by
    rw [← value_neighbourhood]
    refine leadingScale_lt ?_ ?_
    · simp only [neighbourhood, Nat.pow_eq]
      positivity
    · simp only [neighbourhood, Nat.pow_eq]
      positivity
  generalize leadingScale (neighbourhood m e).value (neighbourhood m e).denominator = leading at hlead ⊢
  rw [show leading + 1 - (19 : ℕ) = leading - 1 + (-17) by push_cast; ring, zpow_add₀ (by norm_num)]
  rw [Rounding.amount] at hlead
  calc (10 : ℚ) ^ (leading - 1) * 10 ^ (-17 : ℤ) < m * 2 ^ e * 10 ^ (-17 : ℤ) := by gcongr
    _ ≤ 2 ^ 53 * 2 ^ e * 10 ^ (-17 : ℤ) := by gcongr
    _ < 2 ^ e / 2 := by
      norm_num
      linarith

/-! ## Digits -/

theorem digitsValue_append (cs ds : List Char) :
    digitsValue (cs ++ ds) = 10 ^ ds.length * digitsValue cs + digitsValue ds := by
  show Nat.ofDigitChars 10 (cs ++ ds) 0 = _
  rw [Nat.ofDigitChars_append, Nat.ofDigitChars_eq_ofDigitChars_zero]
  rfl

theorem digitsValue_zeros (n : ℕ) : digitsValue (List.replicate n '0') = 0 :=
  Nat.ofDigitChars_replicate_zero.trans (Nat.mul_zero _)

theorem digitsValue_toString (n : ℕ) : digitsValue (toString n).toList = n := by
  rw [Nat.toString_eq_repr, Nat.toList_repr]
  exact Nat.ofDigitChars_ten_toDigits

/-- Characters that are all digits, one at least. -/
structure Digits (cs : List Char) : Prop where
  nonempty : cs ≠ []
  all : ∀ c ∈ cs, Text.isAsciiDigit c = true

theorem digits_toString (n : ℕ) : Digits (toString n).toList := by
  rw [Nat.toString_eq_repr, Nat.toList_repr]
  refine ⟨Nat.toDigits_ne_nil, fun c hc => ?_⟩
  have := Nat.isDigit_of_mem_toDigits (by omega) (by omega) hc
  simpa [Char.isDigit, Text.isAsciiDigit, Char.le_def] using this

theorem Digits.append {cs ds : List Char} (h : Digits cs)
    (hds : ∀ d ∈ ds, Text.isAsciiDigit d = true) : Digits (cs ++ ds) :=
  ⟨by simp [h.nonempty], by simpa [or_imp, forall_and] using ⟨h.all, hds⟩⟩

theorem zeros_digits (n : ℕ) : ∀ c ∈ (zeros n).toList, Text.isAsciiDigit c = true := by
  intro c hc
  simp only [zeros, String.toList_ofList, List.mem_replicate] at hc
  rw [hc.2]
  rfl

/-- A text of digits with a point between them, and the number that it stands for. -/
def Fixed (cs : List Char) (v : ℚ) : Prop :=
  ∃ whole fraction, cs = whole ++ '.' :: fraction ∧ Digits whole ∧ Digits fraction ∧
    (digitsValue (whole ++ fraction) : ℚ) * 10 ^ (-(fraction.length : ℤ)) = v

theorem fixed_withPoint {digits : String} {places : ℕ} (h : Digits digits.toList)
    (hplaces : 0 < places) :
    Fixed (withPoint digits places).toList (digitsValue digits.toList * 10 ^ (-(places : ℤ))) := by
  have hlength : digits.length = digits.toList.length := String.length_toList.symm
  rw [withPoint, hlength]
  by_cases hshort : digits.toList.length ≤ places
  · have htext : (if (digits.toList.length - places == 0) = true then
          "0." ++ zeros (places - digits.toList.length) ++ digits
        else String.ofList (digits.toList.take (digits.toList.length - places)) ++ "."
          ++ String.ofList (digits.toList.drop (digits.toList.length - places))).toList
        = ['0'] ++ '.' :: ((zeros (places - digits.toList.length)).toList ++ digits.toList) := by
      rw [if_pos (beq_iff_eq.2 (by omega))]
      simp
    have hzeros : (zeros (places - digits.toList.length)).toList
        = List.replicate (places - digits.toList.length) '0' := by simp [zeros]
    refine ⟨_, _, htext, ⟨by simp, by simp [Text.isAsciiDigit]⟩, ⟨by simp [h.nonempty], ?_⟩, ?_⟩
    · intro c hc
      exact (List.mem_append.1 hc).elim (zeros_digits _ c) (h.all c)
    · rw [digitsValue_append, digitsValue_append, hzeros, digitsValue_zeros]
      have hplaces' : (List.replicate (places - digits.toList.length) '0' ++ digits.toList).length
          = places := by
        simp only [List.length_append, List.length_replicate]
        omega
      rw [hplaces']
      simp [digitsValue, digitValue]
  · have htext : (if (digits.toList.length - places == 0) = true then
          "0." ++ zeros (places - digits.toList.length) ++ digits
        else String.ofList (digits.toList.take (digits.toList.length - places)) ++ "."
          ++ String.ofList (digits.toList.drop (digits.toList.length - places))).toList
        = digits.toList.take (digits.toList.length - places) ++
            '.' :: digits.toList.drop (digits.toList.length - places) := by
      rw [if_neg (fun h => hshort (by have := beq_iff_eq.1 h; omega))]
      simp
    refine ⟨_, _, htext, ⟨?_, fun c hc => h.all c (List.mem_of_mem_take hc)⟩,
      ⟨?_, fun c hc => h.all c (List.mem_of_mem_drop hc)⟩, ?_⟩
    · simp [h.nonempty]
      omega
    · simp
      omega
    · rw [List.take_append_drop, List.length_drop]
      congr 3
      omega

theorem fixed_pointZero {digits : String} (h : Digits digits.toList) (n : ℕ) :
    Fixed (digits ++ zeros n ++ ".0").toList (digitsValue digits.toList * 10 ^ n) := by
  have htext : (digits ++ zeros n ++ ".0").toList
      = (digits.toList ++ (zeros n).toList) ++ '.' :: ['0'] := by simp
  have hzeros : (zeros n).toList = List.replicate n '0' := by simp [zeros]
  refine ⟨_, _, htext, h.append (zeros_digits n), ⟨by simp, by simp [Text.isAsciiDigit]⟩, ?_⟩
  have hzero : digitsValue ['0'] = 0 := rfl
  rw [digitsValue_append, digitsValue_append, hzeros, digitsValue_zeros, List.length_replicate, hzero]
  push_cast
  norm_num
  ring

/-- A positive double written without an exponent, with a point added if there is none. -/
theorem fixed_plain (n : Numeral) :
    Fixed (if (plainLayout.arrange n).toList.contains '.' then plainLayout.arrange n
      else plainLayout.arrange n ++ ".0").toList n.amount := by
  have hdigits := digits_toString n.digits
  have hno : ∀ c ∈ (toString n.digits).toList ++ (zeros n.scale.toNat).toList, c ≠ '.' := by
    intro c hc hpoint
    have := (hdigits.append (zeros_digits n.scale.toNat)).all c hc
    rw [hpoint] at this
    exact absurd this (by decide)
  rcases lt_or_ge n.scale 0 with hscale | hscale
  · have harrange : plainLayout.arrange n = withPoint (toString n.digits) (-n.scale).toNat := by
      simp only [Layout.arrange, plainLayout, if_true, if_neg (Int.not_le.2 hscale)]
    have hfixed := @fixed_withPoint (toString n.digits) (-n.scale).toNat hdigits (by omega)
    rw [digitsValue_toString, Int.toNat_of_nonneg (by omega), neg_neg] at hfixed
    rw [harrange, if_pos]
    · exact hfixed
    · obtain ⟨whole, fraction, htext, -⟩ := hfixed
      rw [htext]
      simp
  · have harrange : plainLayout.arrange n = toString n.digits ++ zeros n.scale.toNat := by
      simp only [Layout.arrange, plainLayout, if_true, if_pos hscale]
      simp
    have hfixed := fixed_pointZero hdigits n.scale.toNat
    rw [digitsValue_toString, ← zpow_natCast, Int.toNat_of_nonneg hscale] at hfixed
    rw [harrange, if_neg]
    · exact hfixed
    · rw [List.contains_iff_mem, String.toList_append]
      exact fun h => hno _ h rfl

end RowPipeline.Decimal
