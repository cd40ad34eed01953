import RowPipeline.Decimal
import RowPipeline.Proofs.Rounding
import Mathlib.Tactic.IntervalCases

/-!
# Bit patterns and their numbers

`decode?` reads the sign, the mantissa and the exponent of a double off its bits. They are what the
arithmetic of doubles works on, so a numeral near the number they stand for is read as the double
itself.
-/

namespace RowPipeline.Binary64

open Float.Model Float.Model.UnpackedFloat Rounding

def signOf (negative : Bool) : Sign := if negative then .negative else .positive

/-- The bits of a canonical mantissa and exponent with their sign. -/
def bitsOf (negative : Bool) (m : ℕ) (e : ℤ) : ℕ :=
  (if negative then 0x8000000000000000 else 0) +
    if m < 0x10000000000000 then m
    else (e + 1075).toNat * 0x10000000000000 + (m - 0x10000000000000)

variable {x : Float} {negative : Bool} {m : ℕ} {e : ℤ}

theorem bitsOf_full (h : 0x10000000000000 ≤ m) :
    bitsOf negative m e = (if negative then 0x8000000000000000 else 0) +
      ((e + 1075).toNat * 0x10000000000000 + (m - 0x10000000000000)) := by
  rw [bitsOf, if_neg (Nat.not_lt.2 h)]

theorem bitsOf_short (h : m < 0x10000000000000) :
    bitsOf negative m e = (if negative then 0x8000000000000000 else 0) + m := by
  rw [bitsOf, if_pos h]

theorem decode?_bits (h : decode? x = some ⟨negative, m, e⟩) :
    x.toBits.toNat = bitsOf negative m e ∧ m < 2 ^ 53 ∧ -1074 ≤ e ∧ e ≤ 971 ∧
      (2 ^ 52 ≤ m ∨ e = -1074) := by
  have hlt : x.toBits.toNat < 2 ^ 64 := x.toBits.toNat_lt
  simp only [decode?] at h
  generalize x.toBits.toNat = bits at h hlt
  split at h
  · cases h
  · have hsign : (if decide (0x8000000000000000 ≤ bits) = true then 0x8000000000000000 else 0)
        = bits / 0x8000000000000000 * 0x8000000000000000 := by
      split <;> simp_all
      omega
    split at h <;> obtain ⟨rfl, rfl, rfl⟩ := h
    · rw [bitsOf_short (by omega), hsign]
      omega
    · rw [bitsOf_full (by omega), hsign]
      omega

/-! ## Fields of the bits -/

theorem unpackMantissa_toNat (b : BitVec Format.binary64.numBits) :
    (unpackMantissa b).toNat = b.toNat % 0x10000000000000 := by
  simp [unpackMantissa, BitVec.extractLsb]

theorem unpackExponent_toNat (b : BitVec Format.binary64.numBits) :
    (unpackExponent b).toNat = b.toNat / 0x10000000000000 % 0x800 := by
  simp [unpackExponent, BitVec.extractLsb, Nat.shiftRight_eq_div_pow]

theorem unpackSign_toNat (b : BitVec Format.binary64.numBits) :
    (unpackSign b).toNat = b.toNat / 0x8000000000000000 % 2 := by
  show (BitVec.extractLsb 63 63 b).toNat = _
  simp [BitVec.extractLsb, Nat.shiftRight_eq_div_pow]

theorem packComponents_toNat (s : Sign) (exponent : BitVec 11) (mantissa : BitVec 52) :
    (packComponents .binary64 s exponent mantissa).toNat
      = s.toBitVec.toNat * 0x8000000000000000 + exponent.toNat * 0x10000000000000
        + mantissa.toNat := by
  have hmantissa := mantissa.isLt
  have hexponent := exponent.isLt
  simp only [packComponents, BitVec.toNat_append]
  rw [← Nat.shiftLeft_add_eq_or_of_lt hexponent, ← Nat.shiftLeft_add_eq_or_of_lt hmantissa,
    Nat.shiftLeft_eq, Nat.shiftLeft_eq]
  omega

theorem signOf_toNat (negative : Bool) :
    (signOf negative).toBitVec.toNat * 0x8000000000000000
      = if negative then 0x8000000000000000 else 0 := by
  cases negative <;> rfl

theorem pack_finite (s : Sign) (m : ℕ) (e : ℤ) (pos : 0 < m) :
    UnpackedFloat.pack .binary64 (.finite s m e pos) =
      if 2 ^ 11 ≤ (e + 1075).toNat + 1 then packedInfinity .binary64 s
      else if m.log2 + 1 = 53 then
        packComponents .binary64 s (BitVec.ofNat 11 (e + 1075).toNat) (BitVec.ofNat 52 m)
      else packComponents .binary64 s 0#11 (BitVec.ofNat 52 m) := by
  have hbias : (e + 1075).toNat = (e + 1023 + 52).toNat := by omega
  rw [hbias]
  rfl

theorem pack_toNat (canonical : Canonical m e) (he : e ≤ 971) :
    (UnpackedFloat.pack .binary64 (.finite (signOf negative) m e canonical.pos)).toNat
      = bitsOf negative m e := by
  obtain ⟨hpos, hbits, hmin, hfull⟩ := canonical
  rw [pack_finite, if_neg (by omega)]
  split
  · rename_i hlog
    have hlog' : m.log2 = 52 := by omega
    have hm : 2 ^ 52 ≤ m := hlog' ▸ Nat.log2_self_le hpos.ne'
    rw [packComponents_toNat, signOf_toNat, bitsOf_full hm]
    simp only [BitVec.toNat_ofNat]
    omega
  · rename_i hlog
    have hlog' : m.log2 ≠ 52 := by omega
    have hm : m < 2 ^ 52 := by
      by_contra hge
      have h1 : 52 ≤ m.log2 := (Nat.le_log2 hpos.ne').2 (by omega)
      have h2 : m.log2 < 53 := (Nat.log2_lt hpos.ne').2 hbits
      omega
    rw [packComponents_toNat, signOf_toNat, bitsOf_short hm]
    simp only [BitVec.toNat_ofNat]
    omega

/-- The double with the fields of a canonical mantissa and exponent. -/
def ofFields (negative : Bool) (m : ℕ) (e : ℤ) (pos : 0 < m) : Float :=
  .ofModel (.pack (.finite (signOf negative) m e pos))

/-- A double is given by the fields it decodes to. -/
theorem eq_ofFields (h : decode? x = some ⟨negative, m, e⟩) (pos : 0 < m) :
    Canonical m e ∧ e ≤ 971 ∧ x = ofFields negative m e pos := by
  obtain ⟨hbits, hlt, hmin, hmax, hfull⟩ := decode?_bits h
  refine ⟨⟨pos, hlt, hmin, hfull⟩, hmax, ?_⟩
  obtain ⟨⟨bits, valid⟩⟩ := x
  have heq : bits = UInt64.ofBitVec
      (UnpackedFloat.pack .binary64 (.finite (signOf negative) m e pos)) :=
    UInt64.toNat_inj.1 (hbits.trans (pack_toNat ⟨pos, hlt, hmin, hfull⟩ hmax).symm)
  subst heq
  rfl

theorem eq_zero (h : decode? x = some ⟨negative, 0, e⟩) : x = if negative then -0 else 0 := by
  obtain ⟨hbits, -, -, -, -⟩ := decode?_bits h
  obtain ⟨⟨bits, valid⟩⟩ := x
  cases negative with
  | false =>
      obtain rfl : bits = 0 := UInt64.toNat_inj.1 hbits
      rfl
  | true =>
      obtain rfl : bits = 0x8000000000000000 := UInt64.toNat_inj.1 hbits
      rfl

/-- The leading bit of a full mantissa is not stored. -/
theorem leadingBit_toNat (v : BitVec 52) : (1#1 ++ v).toNat = 0x10000000000000 + v.toNat := by
  rw [BitVec.toNat_append, ← Nat.shiftLeft_add_eq_or_of_lt v.isLt, Nat.shiftLeft_eq]
  rfl

theorem unpack_eq (b : BitVec Format.binary64.numBits) :
    unpack .binary64 b =
      if unpackExponent b = -1#11 then
        if unpackMantissa b = 0#52 then .infinity (.ofBitVec (unpackSign b)) else .notANumber
      else if unpackExponent b = 0#11 then
        if h : unpackMantissa b = 0#52 then .zero (.ofBitVec (unpackSign b))
        else .finite (.ofBitVec (unpackSign b)) (unpackMantissa b).toNat
          ((unpackExponent b).toNat - (1023 + 52) + 1)
          (by simpa [BitVec.toNat_pos, BitVec.pos_iff_ne_zero])
      else .finite (.ofBitVec (unpackSign b)) (1#1 ++ unpackMantissa b).toNat
        ((unpackExponent b).toNat - (1023 + 52)) ((leadingBit_toNat _).symm ▸ by omega) := rfl

theorem finite_congr {s : Sign} {m m' : ℕ} {e e' : ℤ} {pos : 0 < m} {pos' : 0 < m'} (hm : m = m')
    (he : e = e') : UnpackedFloat.finite s m e pos = .finite s m' e' pos' := by
  subst hm
  subst he
  rfl

theorem unpack_of_bits {b : BitVec Format.binary64.numBits} (canonical : Canonical m e)
    (he : e ≤ 971) (h : b.toNat = bitsOf negative m e) :
    unpack .binary64 b = .finite (signOf negative) m e canonical.pos := by
  obtain ⟨hpos, hbits, hmin, hfull⟩ := canonical
  have hmantissa := unpackMantissa_toNat b
  have hexponent := unpackExponent_toNat b
  have hsign := unpackSign_toNat b
  have hsigned : (if negative then 0x8000000000000000 else 0) = negative.toNat * 2 ^ 63 := by
    cases negative <;> rfl
  have hbool : negative.toNat ≤ 1 := negative.toNat_le
  have hof : Sign.ofBitVec (unpackSign b) = signOf negative := by
    have hfield : (unpackSign b).toNat = negative.toNat := by
      rcases lt_or_ge m (2 ^ 52) with hm | hm
      · rw [hsign, h, bitsOf_short hm, hsigned]
        omega
      · rw [hsign, h, bitsOf_full hm, hsigned]
        omega
    have heq : unpackSign b = BitVec.ofNat 1 negative.toNat :=
      BitVec.eq_of_toNat_eq (by rw [hfield]; cases negative <;> rfl)
    rw [heq]
    cases negative <;> rfl
  rw [unpack_eq, hof]
  have hfinite : unpackExponent b ≠ -1#11 := by
    intro hall
    have hall' : (unpackExponent b).toNat = 2047 := by rw [hall]; rfl
    rcases lt_or_ge m (2 ^ 52) with hm | hm
    · rw [h, bitsOf_short hm, hsigned] at hexponent
      omega
    · rw [h, bitsOf_full hm, hsigned] at hexponent
      omega
  rw [if_neg hfinite]
  rcases lt_or_ge m (2 ^ 52) with hm | hm
  · rw [h, bitsOf_short hm, hsigned] at hmantissa hexponent
    have hm' : (unpackMantissa b).toNat = m := by omega
    have hzero : unpackExponent b = 0#11 := BitVec.eq_of_toNat_eq (by rw [hexponent]; simp; omega)
    have hnonzero : unpackMantissa b ≠ 0#52 := by
      intro hall
      rw [hall] at hm'
      exact hpos.ne hm'
    have he' : e = -1074 := hfull.resolve_left (by omega)
    rw [if_pos hzero, dif_neg hnonzero]
    exact finite_congr hm' (by rw [hzero, he']; rfl)
  · rw [h, bitsOf_full hm, hsigned] at hmantissa hexponent
    have hm' : (1#1 ++ unpackMantissa b).toNat = m := by
      have hlead := leadingBit_toNat (unpackMantissa b)
      omega
    have he' : ((unpackExponent b).toNat : ℤ) - (1023 + 52) = e := by omega
    have hnonzero : unpackExponent b ≠ 0#11 := by
      intro hall
      rw [hall] at hexponent
      have : (0#11).toNat = 0 := rfl
      omega
    rw [if_neg hnonzero]
    exact finite_congr hm' he'

theorem unpack_pack (canonical : Canonical m e) (he : e ≤ 971) :
    (Float.Model.pack (.finite (signOf negative) m e canonical.pos)).unpack
      = .finite (signOf negative) m e canonical.pos :=
  unpack_of_bits canonical he (pack_toNat canonical he)

theorem neg_ofFields (canonical : Canonical m e) (he : e ≤ 971) :
    -ofFields negative m e canonical.pos = ofFields (!negative) m e canonical.pos := by
  show Float.ofModel (.pack (Float.Model.pack (.finite (signOf negative) m e canonical.pos)).unpack.neg)
    = _
  rw [unpack_pack canonical he]
  cases negative <;> rfl

/-- The doubles other than infinities and NaN are decoded. -/
theorem decode?_isSome : (decode? x).isSome = x.isFinite := by
  have hexponent := unpackExponent_toNat x.toBits.toBitVec
  have hall : @unpackExponent .binary64 x.toBits.toBitVec = -1#11 ↔
      x.toBits.toNat / 0x10000000000000 % 0x800 = 2047 := by
    rw [← BitVec.toNat_inj, hexponent]
    rfl
  show _ = (unpack .binary64 x.toBits.toBitVec).isFinite
  by_cases h : x.toBits.toNat / 0x10000000000000 % 0x800 = 2047
  · rw [decode?, if_pos h, unpack_eq, if_pos (hall.2 h)]
    split <;> rfl
  · have hdecoded : (decode? x).isSome = true := by
      rw [decode?, if_neg h]
      split <;> rfl
    rw [hdecoded, unpack_eq, if_neg (mt hall.1 h)]
    by_cases hexp : @unpackExponent .binary64 x.toBits.toBitVec = 0#11
    · rw [if_pos hexp]
      by_cases hmantissa : @unpackMantissa .binary64 x.toBits.toBitVec = 0#52
      · rw [dif_pos hmantissa]
        rfl
      · rw [dif_neg hmantissa]
        rfl
    · rw [if_neg hexp]
      rfl

theorem neg_neg_of_finite (h : x.isFinite = true) : - -x = x := by
  rw [← decode?_isSome] at h
  obtain ⟨⟨negative, m, e⟩, hd⟩ := Option.isSome_iff_exists.1 h
  rcases Nat.eq_zero_or_pos m with rfl | hpos
  · rw [eq_zero hd]
    cases negative <;> rfl
  · obtain ⟨canonical, he, rfl⟩ := eq_ofFields hd hpos
    rw [neg_ofFields canonical he, neg_ofFields canonical he, Bool.not_not]

/-! ## Decimal numbers -/

/-- The mantissa of 53 bits of a number that has no more of them. -/
def fullMantissa (k : ℕ) : ℕ := k * 2 ^ (52 - k.log2)

theorem fullMantissa_range {k : ℕ} (pos : 0 < k) (hk : k < 2 ^ 53) :
    2 ^ 52 ≤ fullMantissa k ∧ fullMantissa k < 2 ^ 53 := by
  have hlog : k.log2 < 53 := (Nat.log2_lt pos.ne').2 hk
  have hlow : 2 ^ k.log2 ≤ k := Nat.log2_self_le pos.ne'
  have hhigh : k < 2 ^ (k.log2 + 1) := Nat.lt_log2_self
  constructor
  · calc 2 ^ 52 = 2 ^ k.log2 * 2 ^ (52 - k.log2) := by rw [← Nat.pow_add]; congr 1; omega
      _ ≤ fullMantissa k := Nat.mul_le_mul_right _ hlow
  · calc fullMantissa k < 2 ^ (k.log2 + 1) * 2 ^ (52 - k.log2) :=
        Nat.mul_lt_mul_of_pos_right hhigh (by positivity)
      _ = 2 ^ 53 := by rw [← Nat.pow_add]; congr 1; omega

theorem amount_full (k n : ℕ) :
    amount (fullMantissa k) (n - (52 - k.log2 : ℕ)) = k * 2 ^ n := by
  rw [amount, fullMantissa, zpow_sub₀ two_ne_zero, zpow_natCast, zpow_natCast]
  push_cast
  field_simp

theorem canonical_full {k : ℕ} (pos : 0 < k) (hk : k < 2 ^ 53) (n : ℕ) :
    Canonical (fullMantissa k) (n - (52 - k.log2 : ℕ)) := by
  obtain ⟨hlow, hhigh⟩ := fullMantissa_range pos hk
  exact ⟨by omega, hhigh, by omega, .inl hlow⟩

/-- A natural number of at most 53 bits is a double. -/
theorem unpack_natural {k : ℕ} (pos : 0 < k) (hk : k < 2 ^ 53) :
    k.toUInt64.toFloat.toModel.unpack =
      .finite .positive (fullMantissa k) ((0 : ℕ) - (52 - k.log2 : ℕ))
        (canonical_full pos hk 0).pos := by
  have hlog : k.log2 < 53 := (Nat.log2_lt pos.ne').2 hk
  have hnear : Nears (fullMantissa k) ((0 : ℕ) - (52 - k.log2 : ℕ)) k := by
    have := nears_amount (fullMantissa k) ((0 : ℕ) - (52 - k.log2 : ℕ))
    rwa [amount_full, pow_zero, mul_one] at this
  have hof := ofNat_of_nears (canonical_full pos hk 0) hnear pos
  have hk' : k.toUInt64.toNat = k := by simp; omega
  show (Float.Model.pack (UnpackedFloat.ofNat .binary64 k.toUInt64.toNat)).unpack = _
  rw [hk', hof]
  exact @unpack_pack false _ _ (canonical_full pos hk 0) (by omega)

theorem powersOfTen_bits : ∀ n : Fin 23, Float.exactlyRepresentablePowersOfTen[n].toBits.toNat
    = bitsOf false (fullMantissa (5 ^ n.val)) (n.val - (52 - (5 ^ n.val).log2 : ℕ)) := by
  decide +kernel

theorem unpack_powerOfTen {n : ℕ} (hn : n ≤ 22) (hsize : n < Float.exactlyRepresentablePowersOfTen.size) :
    ∃ h, Float.exactlyRepresentablePowersOfTen[n].toModel.unpack
      = .finite .positive (fullMantissa (5 ^ n)) (n - (52 - (5 ^ n).log2 : ℕ)) h := by
  have hfive : 5 ^ n < 2 ^ 53 :=
    (Nat.pow_le_pow_right (by omega) hn).trans_lt (by norm_num)
  have hpos : 0 < 5 ^ n := by positivity
  exact ⟨_, unpack_of_bits (canonical_full hpos hfive n) (by omega)
    (powersOfTen_bits ⟨n, by omega⟩)⟩

theorem amount_five (n : ℕ) :
    amount (fullMantissa (5 ^ n)) (n - (52 - (5 ^ n).log2 : ℕ)) = 10 ^ n := by
  rw [amount_full]
  push_cast
  rw [← mul_pow]
  norm_num

/-- Decimal exponents whose power no double can make up for are cut off. -/
theorem scientific_range {digits : ℕ} {n : ℤ} (canonical : Canonical m e) (he : e ≤ 971)
    (near : Nears m e (digits * 10 ^ n)) (pos : 0 < digits) :
    n ≤ 2048 ∧ -(2048 + (digits.log2 : ℤ)) ≤ n := by
  have hpow : (0 : ℚ) < 2 ^ e := by positivity
  obtain ⟨hpos, hbits, hmin, -⟩ := canonical
  have hpositive := near.pos hpos
  obtain ⟨hlow, hhigh, -⟩ := near
  have hdigits : (1 : ℚ) ≤ digits := by exact_mod_cast pos
  have hm : (1 : ℚ) ≤ m := by exact_mod_cast hpos
  have hm' : (m : ℚ) + 1 ≤ 2 ^ 53 := by exact_mod_cast hbits
  have hten : (0 : ℚ) < 10 ^ n := by positivity
  constructor
  · -- the power is no greater than the number
    by_contra hbig
    have h1 : (2 : ℚ) ^ (e + 53) ≤ 2 ^ n := zpow_le_zpow_right₀ one_le_two (by omega)
    have h2 : (2 : ℚ) ^ n ≤ 10 ^ n := by
      obtain ⟨k, rfl⟩ := Int.eq_ofNat_of_zero_le (show 0 ≤ n by omega)
      simp only [zpow_natCast]
      gcongr
      norm_num
    rw [zpow_add₀ two_ne_zero] at h1
    norm_num at h1 hm'
    nlinarith
  · by_contra hsmall
    obtain ⟨k, hk⟩ := Int.eq_ofNat_of_zero_le (show 0 ≤ -n by omega)
    have hn : n = -(k : ℤ) := by omega
    have h1 : (10 : ℚ) ^ n ≤ 2 ^ n := by
      rw [hn, zpow_neg, zpow_neg, zpow_natCast, zpow_natCast]
      gcongr
      norm_num
    have h2 : (digits : ℚ) < 2 ^ (digits.log2 + 1) := by exact_mod_cast Nat.lt_log2_self
    have h3 : (2 : ℚ) ^ (digits.log2 + 1) * 2 ^ n ≤ 2 ^ (e - 1) := by
      rw [← zpow_natCast, ← zpow_add₀ two_ne_zero]
      apply zpow_le_zpow_right₀ one_le_two
      push_cast
      omega
    have h4 : (digits : ℚ) * 10 ^ n < 2 ^ (e - 1) := by
      calc (digits : ℚ) * 10 ^ n ≤ digits * 2 ^ n := by gcongr
        _ < 2 ^ (digits.log2 + 1) * 2 ^ n := by gcongr
        _ ≤ _ := h3
    rw [zpow_sub₀ two_ne_zero] at h4
    norm_num at h4
    split at hlow <;> nlinarith

/-- A scientific numeral near a double is read as the double. -/
theorem ofScientific_of_nears {digits n : ℕ} {negativeExponent : Bool} (canonical : Canonical m e)
    (he : e ≤ 971)
    (near : Nears m e (digits * 10 ^ (if negativeExponent then -n else n : ℤ))) :
    Float.ofScientific digits negativeExponent n = ofFields false m e canonical.pos := by
  have hpos : 0 < digits := by
    have := near.pos canonical.pos
    rcases Nat.eq_zero_or_pos digits with rfl | h
    · simp at this
    · exact h
  have hdigits : amount (fullMantissa digits) ((0 : ℕ) - (52 - digits.log2 : ℕ)) = digits := by
    rw [amount_full, pow_zero, mul_one]
  rw [Float.ofScientific]
  split
  · rename_i hfast
    obtain ⟨h, hpower⟩ := unpack_powerOfTen hfast.2
      (by simp [Float.exactlyRepresentablePowersOfTen]; omega)
    split
    · rename_i hneg
      show Float.ofModel (.pack (UnpackedFloat.div .binary64 _ _)) = _
      rw [unpack_natural hpos hfast.1, hpower]
      rw [hneg, if_pos rfl, zpow_neg, zpow_natCast, ← div_eq_mul_inv] at near
      rw [← amount_five n, ← hdigits] at near
      rw [div_of_nears canonical near]
      rfl
    · rename_i hneg
      show Float.ofModel (.pack (UnpackedFloat.mul .binary64 _ _)) = _
      rw [unpack_natural hpos hfast.1, hpower]
      rw [if_neg hneg, zpow_natCast, ← amount_five n, ← hdigits] at near
      have hlong := (fullMantissa_range hpos hfast.1).1
      rw [mul_of_nears canonical near (by nlinarith)]
      rfl
  · have hexp : (if negativeExponent then Int.negOfNat n else Int.ofNat n)
        = (if negativeExponent then -n else n : ℤ) := by
      cases negativeExponent
      · rfl
      · exact Int.negOfNat_eq
    dsimp only
    rw [hexp]
    generalize (if negativeExponent then -n else n : ℤ) = scale at near
    obtain ⟨hhigh, hlow⟩ := scientific_range canonical he near hpos
    rw [Float.Model.ofScientific, UnpackedFloat.ofScientific]
    rw [dif_neg hpos.ne', if_neg (by show ¬scale > 2048; omega),
      if_neg (by show ¬scale < -(2048 + (digits.log2 : ℤ)); omega)]
    rcases le_or_gt 0 scale with hscale | hscale
    · rw [if_pos hscale]
      have hamount : amount (digits <<< 53) (-53) * amount (10 ^ scale.toNat) 0
          = digits * 10 ^ scale := by
        have hnat : (10 : ℚ) ^ scale = 10 ^ scale.toNat := by
          rw [← zpow_natCast, Int.toNat_of_nonneg hscale]
        rw [hnat, amount, amount, Nat.shiftLeft_eq]
        push_cast
        norm_num
        ring
      rw [← hamount] at near
      have hlong : 2 ^ 52 ≤ digits <<< 53 * 10 ^ scale.toNat := by
        have hten : 1 ≤ 10 ^ scale.toNat := Nat.one_le_pow _ _ (by omega)
        rw [Nat.shiftLeft_eq]
        nlinarith
      exact congrArg (fun u => Float.ofModel (.pack u)) (mul_of_nears canonical near hlong)
    · rw [if_neg hscale.not_ge]
      have hamount : amount digits 0 / amount (10 ^ (-scale).toNat) 0 = digits * 10 ^ scale := by
        have hnat : (10 : ℚ) ^ scale = (10 ^ (-scale).toNat)⁻¹ := by
          rw [← zpow_natCast, Int.toNat_of_nonneg (by omega), zpow_neg, inv_inv]
        rw [hnat, amount, amount]
        push_cast
        norm_num
        rw [div_eq_mul_inv]
      rw [← hamount] at near
      exact congrArg (fun u => Float.ofModel (.pack u)) (div_of_nears canonical near)

/-! ## Integers of 64 bits -/

/-- The double nearest to a natural number, given its first 53 bits and the rest. Of two that are as
near it is the even one, and a mantissa that overflows is the next power of two. -/
theorem exists_nears_split {q r s : ℕ} (low : 2 ^ 52 ≤ q) (high : q < 2 ^ 53) (rest : r < 2 ^ s) :
    ∃ (m : ℕ) (e : ℤ), Canonical m e ∧ Nears m e (q * 2 ^ s + r : ℕ) ∧ e ≤ s + 1 := by
  have hpow : (0 : ℚ) < 2 ^ s := by positivity
  have hrest : (r : ℚ) < 2 ^ s := by exact_mod_cast rest
  have hr : (0 : ℚ) ≤ r := Nat.cast_nonneg r
  by_cases hdown : 2 * r < 2 ^ s ∨ 2 * r = 2 ^ s ∧ q % 2 = 0
  · have hhalf : 2 * (r : ℚ) ≤ 2 ^ s := by
      rcases hdown with h | ⟨h, -⟩
      · exact_mod_cast h.le
      · exact_mod_cast h.le
    refine ⟨q, s, ⟨by omega, high, by omega, .inl low⟩, ⟨?_, ?_, ?_⟩, by omega⟩
    · rw [zpow_natCast]
      push_cast
      split <;> nlinarith
    · rw [zpow_natCast]
      push_cast
      nlinarith
    · intro hodd
      have hless : 2 * (r : ℚ) < 2 ^ s := by
        rcases hdown with h | ⟨-, heven⟩
        · exact_mod_cast h
        · omega
      rw [zpow_natCast]
      push_cast
      constructor
      · split <;> nlinarith
      · nlinarith
  · have hhalf : (2 : ℚ) ^ s ≤ 2 * r := by
      have : 2 ^ s ≤ 2 * r := by omega
      exact_mod_cast this
    by_cases hcarry : q + 1 = 2 ^ 53
    · have hq : (q : ℚ) = 2 ^ 53 - 1 := by
        have hcast : (q : ℚ) + 1 = 2 ^ 53 := by exact_mod_cast hcarry
        linarith
      have hnext : (2 : ℚ) ^ (s + 1) = 2 * 2 ^ s := by ring
      refine ⟨2 ^ 52, (s + 1 : ℕ), ⟨by omega, by omega, by omega, .inl le_rfl⟩, ⟨?_, ?_, ?_⟩,
        by omega⟩
      · rw [if_pos ⟨rfl, by omega⟩, zpow_natCast, hnext]
        push_cast
        rw [hq]
        linarith
      · rw [zpow_natCast, hnext]
        push_cast
        rw [hq]
        linarith
      · intro hodd
        omega
    · refine ⟨q + 1, s, ⟨by omega, by omega, by omega, .inl (by omega)⟩, ⟨?_, ?_, ?_⟩, by omega⟩
      · rw [if_neg (by omega), zpow_natCast]
        push_cast
        nlinarith
      · rw [zpow_natCast]
        push_cast
        nlinarith
      · intro hodd
        have hmore : (2 : ℚ) ^ s < 2 * r := by
          have : 2 ^ s < 2 * r := by omega
          exact_mod_cast this
        rw [if_neg (by omega), zpow_natCast]
        push_cast
        constructor <;> nlinarith

/-- Every integer of 64 bits is near a double. -/
theorem exists_nears {k : ℕ} (pos : 0 < k) (hk : k < 2 ^ 64) :
    ∃ (m : ℕ) (e : ℤ), Canonical m e ∧ Nears m e k ∧ e ≤ 971 := by
  by_cases hshort : k < 2 ^ 53
  · have hnear := nears_amount (fullMantissa k) ((0 : ℕ) - (52 - k.log2 : ℕ))
    rw [amount_full, pow_zero, mul_one] at hnear
    exact ⟨_, _, canonical_full pos hshort 0, hnear, by omega⟩
  · have hlog : 52 < k.log2 := by
      rw [Nat.lt_iff_add_one_le, Nat.le_log2 pos.ne']
      omega
    have hlog' : k.log2 < 64 := (Nat.log2_lt pos.ne').2 hk
    have hlow : 2 ^ k.log2 ≤ k := Nat.log2_self_le pos.ne'
    have hhigh : k < 2 ^ (k.log2 + 1) := Nat.lt_log2_self
    obtain ⟨s, hs⟩ : ∃ s, k.log2 = 52 + s := ⟨k.log2 - 52, by omega⟩
    rw [hs, Nat.pow_add] at hlow
    rw [hs, show 52 + s + 1 = 53 + s by omega, Nat.pow_add] at hhigh
    have hunit : 0 < 2 ^ s := by positivity
    obtain ⟨m, e, hcanonical, hnear, he⟩ := exists_nears_split
      ((Nat.le_div_iff_mul_le hunit).2 hlow) ((Nat.div_lt_iff_lt_mul hunit).2 hhigh)
      (Nat.mod_lt k hunit)
    rw [mul_comm, Nat.div_add_mod] at hnear
    exact ⟨m, e, hcanonical, hnear, by omega⟩

/-- The double of an integer is finite. -/
theorem isFinite_toFloat (n : UInt64) : n.toFloat.isFinite = true := by
  rcases Nat.eq_zero_or_pos n.toNat with hzero | hpos
  · have hn : n = 0 := UInt64.toNat_inj.mp hzero
    rw [hn]
    rfl
  · obtain ⟨m, e, canonical, near, he⟩ := exists_nears hpos n.toNat_lt
    show (Float.Model.pack (UnpackedFloat.ofNat .binary64 n.toNat)).unpack.isFinite = true
    rw [ofNat_of_nears canonical near hpos]
    exact congrArg UnpackedFloat.isFinite (@unpack_pack false _ _ canonical he)

end RowPipeline.Binary64

namespace RowPipeline.Decimal

open Binary64 Rounding

variable {m : ℕ} {e : ℤ}

theorem digits_range {k : ℕ} (pos : 0 < k) :
    10 ^ ((toString k).length - 1) ≤ k ∧ k < 10 ^ (toString k).length ∧ 0 < (toString k).length := by
  have hlength : (toString k).length = (Nat.toDigits 10 k).length := by
    rw [← String.length_toList, Nat.toString_eq_repr, Nat.toList_repr]
  have hpos : 0 < (Nat.toDigits 10 k).length := Nat.length_toDigits_pos
  rw [hlength]
  refine ⟨?_, (Nat.length_toDigits_le_iff (by omega) hpos).1 le_rfl, hpos⟩
  rcases Nat.eq_or_lt_of_le (show 1 ≤ _ from hpos) with hone | hmore
  · rw [← hone]
    exact pos
  · by_contra hless
    have := (Nat.length_toDigits_le_iff (show 1 < 10 by omega)
      (show 0 < (Nat.toDigits 10 k).length - 1 by omega)).2 (Nat.lt_of_not_le hless)
    omega

/-- A thousand binary places are a little more than three hundred decimal ones. -/
theorem binary_lt_decimal : (2 : ℚ) ^ 1023 < 10 ^ 308 := by
  have h : ((2 : ℚ) ^ 93) ^ 11 < (10 ^ 28) ^ 11 :=
    pow_lt_pow_left₀ (by norm_num) (by norm_num) (by norm_num)
  rwa [← pow_mul, ← pow_mul] at h

/-- The leading digit of a number near a double is in the range of doubles. -/
theorem leading_range {v : ℚ} {leading : ℤ} (canonical : Canonical m e) (he : e ≤ 971)
    (near : Nears m e v) (low : (10 : ℚ) ^ (leading - 1) ≤ v) (high : v < 10 ^ leading) :
    leading ≤ 310 ∧ -330 ≤ leading := by
  have hpow : (0 : ℚ) < 2 ^ e := by positivity
  obtain ⟨hpos, hbits, hmin, -⟩ := canonical
  obtain ⟨hbelow, habove, -⟩ := near
  have hm : (1 : ℚ) ≤ m := by exact_mod_cast hpos
  have hm' : (m : ℚ) + 1 ≤ 2 ^ 53 := by exact_mod_cast hbits
  have hupper : v ≤ 2 ^ 53 * 2 ^ e := by nlinarith
  have hlower : 2 ^ e ≤ v * 2 := by split at hbelow <;> nlinarith
  have hten : (1 : ℚ) ≤ 10 := by norm_num
  constructor
  · by_contra hbig
    refine absurd (low.trans hupper) (not_le.2 ?_)
    calc (2 : ℚ) ^ 53 * 2 ^ e ≤ 2 ^ 53 * 2 ^ ((971 : ℕ) : ℤ) := by
          exact mul_le_mul_of_nonneg_left (zpow_le_zpow_right₀ one_le_two he) (by positivity)
      _ = 2 ^ 1023 * 2 := by rw [zpow_natCast, ← pow_add, ← pow_succ]
      _ < 10 ^ 308 * 10 := mul_lt_mul binary_lt_decimal (by norm_num) two_pos (by positivity)
      _ = 10 ^ ((309 : ℕ) : ℤ) := by rw [zpow_natCast, ← pow_succ]
      _ ≤ 10 ^ (leading - 1) := zpow_le_zpow_right₀ hten (by omega)
  · by_contra hsmall
    refine absurd hlower (not_le.2 ?_)
    calc v * 2 < 10 ^ leading * 2 := by gcongr
      _ ≤ 10 ^ (-((308 : ℕ) : ℤ) + -22) * 2 := by
          exact mul_le_mul_of_nonneg_right (zpow_le_zpow_right₀ hten (by omega)) two_pos.le
      _ = (10 ^ 308)⁻¹ * (10 ^ (-22 : ℤ) * 2) := by
          rw [zpow_add₀ (by norm_num), zpow_neg, zpow_natCast, mul_assoc]
      _ ≤ (2 ^ 1023)⁻¹ * 2 ^ (-51 : ℤ) := by
          refine mul_le_mul (inv_anti₀ (by positivity) binary_lt_decimal.le) (by norm_num)
            (by positivity) (by positivity)
      _ = 2 ^ (-1074 : ℤ) := by
          rw [← zpow_natCast, ← zpow_neg, ← zpow_add₀ two_ne_zero]
          rfl
      _ ≤ 2 ^ e := zpow_le_zpow_right₀ one_le_two hmin

/-- A numeral near a double is read as the double. -/
theorem nearest_of_nears {digits : ℕ} {exponent : ℤ} (canonical : Canonical m e) (he : e ≤ 971)
    (near : Nears m e (digits * 10 ^ exponent)) :
    nearest digits exponent = ofFields false m e canonical.pos := by
  have hdigits : 0 < digits := by
    have := near.pos canonical.pos
    rcases Nat.eq_zero_or_pos digits with rfl | h
    · simp at this
    · exact h
  obtain ⟨hlow, hhigh, hlength⟩ := digits_range hdigits
  have hrange : exponent + (toString digits).length ≤ 310 ∧
      -330 ≤ exponent + (toString digits).length := by
    have hlow' : (10 : ℚ) ^ ((toString digits).length - 1) ≤ digits := by exact_mod_cast hlow
    have hhigh' : (digits : ℚ) < 10 ^ (toString digits).length := by exact_mod_cast hhigh
    refine leading_range canonical he near ?_ ?_
    · have hexp : exponent + (toString digits).length - 1
          = ((toString digits).length - 1 : ℕ) + exponent := by omega
      rw [hexp, zpow_add₀ (by norm_num), zpow_natCast]
      gcongr
    · rw [add_comm, zpow_add₀ (by norm_num), zpow_natCast]
      gcongr
  have hscale : (if decide (exponent < 0) = true then -exponent.natAbs else exponent.natAbs : ℤ)
      = exponent := by
    rcases lt_or_ge exponent 0 with hneg | hneg
    · rw [decide_eq_true hneg, if_pos rfl]
      omega
    · rw [decide_eq_false (Int.not_lt.2 hneg), if_neg (by simp)]
      omega
  have hread : Float.ofScientific digits (exponent < 0) exponent.natAbs = _ :=
    ofScientific_of_nears canonical he (by rw [hscale]; exact near)
  rw [nearest, if_neg (by simp; omega)]
  simp only [if_neg (Int.not_lt.2 hrange.1), if_neg (Int.not_lt.2 hrange.2)]
  exact hread

end RowPipeline.Decimal
