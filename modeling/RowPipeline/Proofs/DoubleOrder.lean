import RowPipeline.Proofs.Doubles

/-!
# The order of doubles

Every double but NaN has a place among the integers, the same for both zeros, and doubles are compared
by their places. Rounding keeps the order: a smaller integer is never rounded to a greater double. An
integer that a double stands for is rounded to the place of the double.
-/

namespace RowPipeline.Binary64

open Float.Model Float.Model.UnpackedFloat Rounding

variable {x y : Float} {m m' : ℕ} {e e' : ℤ}

/-! ## Places -/

/-- The place among the others of a double with these fields. -/
def placeOf : UnpackedFloat → ℤ
  | .infinity .positive => 0x7ff0000000000000
  | .infinity .negative => -0x7ff0000000000000
  | .finite .positive m e _ => bitsOf false m e
  | .finite .negative m e _ => -bitsOf false m e
  | .zero _ | .notANumber => 0

/-- The place of a double. That of a positive one is its bit pattern. -/
def place (x : Float) : ℤ := placeOf x.toModel.unpack

/-- Fields as a double keeps them. -/
def Regular : UnpackedFloat → Prop
  | .finite _ m e _ => Canonical m e ∧ e ≤ 971
  | .infinity _ | .zero _ | .notANumber => True

theorem regular_unpack (x : Float) : Regular x.toModel.unpack := by
  cases hd : decode? x with
  | none =>
      have hinfinite : x.toModel.unpack.isFinite = false := by
        show x.isFinite = false
        rw [← decode?_isSome, hd]
        rfl
      cases hu : x.toModel.unpack <;> rw [hu] at hinfinite <;> trivial
  | some d =>
      obtain ⟨negative, m, e⟩ := d
      rcases Nat.eq_zero_or_pos m with rfl | hpos
      · rw [eq_zero hd]
        cases negative <;> trivial
      · obtain ⟨canonical, he, rfl⟩ := eq_ofFields hd hpos
        show Regular (Float.Model.pack (.finite (signOf negative) m e hpos)).unpack
        rw [unpack_pack canonical he]
        exact ⟨canonical, he⟩

/-- Fields are in the order of their bits. -/
theorem bits_lt_iff (h : Canonical m e) (h' : Canonical m' e') :
    bitsOf false m e < bitsOf false m' e' ↔ e < e' ∨ e = e' ∧ m < m' := by
  obtain ⟨hpos, hbits, hmin, hfull⟩ := h
  obtain ⟨hpos', hbits', hmin', hfull'⟩ := h'
  simp only [bitsOf, Bool.false_eq_true, if_false]
  split <;> split <;> omega

theorem bits_range (h : Canonical m e) (he : e ≤ 971) :
    0 < bitsOf false m e ∧ bitsOf false m e < 0x7ff0000000000000 := by
  obtain ⟨hpos, hbits, hmin, hfull⟩ := h
  simp only [bitsOf, Bool.false_eq_true, if_false]
  split <;> omega

theorem compare_fields (h : Canonical m e) (h' : Canonical m' e') :
    (compare e e').then (compare m m') = compare (bitsOf false m e : ℤ) (bitsOf false m' e') := by
  have hlt := bits_lt_iff h h'
  have hgt := bits_lt_iff h' h
  rcases lt_trichotomy e e' with he | rfl | he
  · rw [compare_lt_iff_lt.mpr he, compare_lt_iff_lt.mpr (Int.ofNat_lt.mpr (hlt.mpr (.inl he)))]
    rfl
  · rcases lt_trichotomy m m' with hm | rfl | hm
    · rw [compare_lt_iff_lt.mpr (Int.ofNat_lt.mpr (hlt.mpr (.inr ⟨rfl, hm⟩))),
        compare_lt_iff_lt.mpr hm, compare_eq_iff_eq.mpr rfl]
      rfl
    · rw [compare_eq_iff_eq.mpr rfl, compare_eq_iff_eq.mpr rfl, compare_eq_iff_eq.mpr rfl]
      rfl
    · rw [compare_gt_iff_gt.mpr (Int.ofNat_lt.mpr (hgt.mpr (.inr ⟨rfl, hm⟩))),
        compare_gt_iff_gt.mpr hm, compare_eq_iff_eq.mpr rfl]
      rfl
  · rw [compare_gt_iff_gt.mpr he, compare_gt_iff_gt.mpr (Int.ofNat_lt.mpr (hgt.mpr (.inl he)))]
    rfl

theorem compare_neg (a b : ℤ) : compare (-a) (-b) = compare b a := by
  rcases lt_trichotomy b a with h | rfl | h
  · rw [compare_lt_iff_lt.mpr h, compare_lt_iff_lt.mpr (neg_lt_neg h)]
  · rw [compare_eq_iff_eq.mpr rfl, compare_eq_iff_eq.mpr rfl]
  · rw [compare_gt_iff_gt.mpr h, compare_gt_iff_gt.mpr (neg_lt_neg h)]

/-- The finite places are between those of the infinities. -/
theorem placeOf_range {s : Sign} {pos : 0 < m} (h : Regular (.finite s m e pos)) :
    -0x7ff0000000000000 < placeOf (.finite s m e pos) ∧
      placeOf (.finite s m e pos) < 0x7ff0000000000000 := by
  have hrange := bits_range h.1 h.2
  cases s with
  | negative =>
      show -0x7ff0000000000000 < -(bitsOf false m e : ℤ) ∧ -(bitsOf false m e : ℤ) < 0x7ff0000000000000
      omega
  | positive =>
      show -0x7ff0000000000000 < (bitsOf false m e : ℤ) ∧ (bitsOf false m e : ℤ) < 0x7ff0000000000000
      omega

theorem compare_places {u v : UnpackedFloat} (hu : Regular u) (hv : Regular v) :
    u.compare v = if u.isNaN || v.isNaN then none else some (compare (placeOf u) (placeOf v)) := by
  have hlt : ∀ {a b : ℤ}, a < b → some Ordering.lt = some (compare a b) := fun h => by
    rw [compare_lt_iff_lt.mpr h]
  have hgt : ∀ {a b : ℤ}, b < a → some Ordering.gt = some (compare a b) := fun h => by
    rw [compare_gt_iff_gt.mpr h]
  have hbits : ∀ {m : ℕ} {e : ℤ}, Canonical m e ∧ e ≤ 971 → (0 : ℤ) < bitsOf false m e :=
    fun h => Int.natCast_pos.mpr (bits_range h.1 h.2).1
  cases u with
  | notANumber => rfl
  | infinity s =>
      cases v with
      | notANumber => cases s <;> rfl
      | infinity t => cases s <;> cases t <;> rfl
      | zero t => cases s <;> rfl
      | finite t m e pos =>
          obtain ⟨hlow, hhigh⟩ := placeOf_range hv
          cases s with
          | negative => exact hlt hlow
          | positive => exact hgt hhigh
  | zero s =>
      cases v with
      | notANumber => rfl
      | infinity t => cases t <;> rfl
      | zero t => rfl
      | finite t m e pos =>
          cases t with
          | negative => exact hgt (neg_neg_of_pos (hbits hv))
          | positive => exact hlt (hbits hv)
  | finite s m e pos =>
      cases v with
      | notANumber => cases s <;> rfl
      | infinity t =>
          obtain ⟨hlow, hhigh⟩ := placeOf_range hu
          cases t with
          | negative => exact hgt hlow
          | positive => exact hlt hhigh
      | zero t =>
          cases s with
          | negative => exact hlt (neg_neg_of_pos (hbits hu))
          | positive => exact hgt (hbits hu)
      | finite t m' e' pos' =>
          have hfields := compare_fields hu.1 hv.1
          have hpos := hbits hu
          have hpos' := hbits hv
          cases s <;> cases t
          · refine congrArg some ((congrArg Ordering.swap hfields).trans ?_)
            exact Std.OrientedCmp.eq_swap.symm.trans (compare_neg _ _).symm
          · exact hlt (show -(bitsOf false m e : ℤ) < bitsOf false m' e' by omega)
          · exact hgt (show -(bitsOf false m' e' : ℤ) < bitsOf false m e by omega)
          · exact congrArg some hfields

theorem lt_iff (x y : Float) : x < y ↔ x.toModel.unpack.compare y.toModel.unpack = some .lt := by
  show Float.lt x y = true ↔ _
  rw [Float.lt, decide_eq_true_iff]
  show (x.toModel.unpack.compare y.toModel.unpack == some .lt) = true ↔ _
  rw [beq_iff_eq]

theorem beq_iff (x y : Float) :
    (x == y) = true ↔ x.toModel.unpack.compare y.toModel.unpack = some .eq := by
  show (x.toModel.unpack.compare y.toModel.unpack == some .eq) = true ↔ _
  rw [beq_iff_eq]

/-- Doubles are compared by their places, and NaN is comparable with nothing. -/
theorem compare?_eq (x y : Float) : compare? x y =
    if x.isNaN || y.isNaN then none else some (compare (place x) (place y)) := by
  have hxy := compare_places (regular_unpack x) (regular_unpack y)
  have hyx := compare_places (regular_unpack y) (regular_unpack x)
  rw [compare?]
  simp only [lt_iff, beq_iff, hxy, hyx]
  show _ = if x.toModel.unpack.isNaN || y.toModel.unpack.isNaN then none
    else some (compare (placeOf _) (placeOf _))
  generalize placeOf x.toModel.unpack = a
  generalize placeOf y.toModel.unpack = b
  cases x.toModel.unpack.isNaN <;> cases y.toModel.unpack.isNaN
  · have hswap : compare b a = (compare a b).swap := Std.OrientedCmp.eq_swap
    simp only [Bool.false_eq_true, if_false, Bool.or_false, hswap]
    cases compare a b <;> rfl
  · rfl
  · rfl
  · rfl

theorem beq_iff_place (x y : Float) :
    (x == y) = true ↔ x.isNaN = false ∧ y.isNaN = false ∧ place x = place y := by
  have hplaces := compare_places (regular_unpack x) (regular_unpack y)
  rw [beq_iff, hplaces]
  show _ ↔ x.toModel.unpack.isNaN = false ∧ y.toModel.unpack.isNaN = false ∧ placeOf _ = placeOf _
  cases x.toModel.unpack.isNaN <;> cases y.toModel.unpack.isNaN <;> simp

theorem compare?_swap (x y : Float) : compare? y x = (compare? x y).map Ordering.swap := by
  rw [compare?_eq, compare?_eq, Bool.or_comm]
  split
  · rfl
  · exact congrArg some Std.OrientedCmp.eq_swap

theorem totalCompare_swap (x y : Float) : totalCompare y x = (totalCompare x y).swap := by
  unfold totalCompare
  exact Std.OrientedCmp.eq_swap

theorem beq_comm (x y : Float) : (x == y) = (y == x) := by
  rw [Bool.eq_iff_iff, beq_iff_place, beq_iff_place]
  exact ⟨fun h => ⟨h.2.1, h.1, h.2.2.symm⟩, fun h => ⟨h.2.1, h.1, h.2.2.symm⟩⟩

/-! ## NaN -/

theorem isNaN_unpack_iff (b : BitVec Format.binary64.numBits) :
    (unpack .binary64 b).isNaN = true ↔ unpackExponent b = -1#11 ∧ unpackMantissa b ≠ 0#52 := by
  rw [unpack_eq]
  by_cases hexponent : unpackExponent b = -1#11
  · rw [if_pos hexponent]
    by_cases hmantissa : unpackMantissa b = 0#52
    · rw [if_pos hmantissa]
      exact iff_of_false Bool.false_ne_true fun h => h.2 hmantissa
    · rw [if_neg hmantissa]
      exact iff_of_true rfl ⟨hexponent, hmantissa⟩
  · rw [if_neg hexponent]
    refine iff_of_false ?_ fun h => hexponent h.1
    by_cases hzero : unpackExponent b = 0#11
    · rw [if_pos hzero]
      by_cases hmantissa : unpackMantissa b = 0#52
      · rw [dif_pos hmantissa]
        exact Bool.false_ne_true
      · rw [dif_neg hmantissa]
        exact Bool.false_ne_true
    · rw [if_neg hzero]
      exact Bool.false_ne_true

/-- The bits of a number go no further than those of the infinity of its sign. -/
theorem toBits_of_number (h : x.isNaN = false) : x.toBits.toNat ≤ 0x7ff0000000000000 ∨
    0x8000000000000000 ≤ x.toBits.toNat ∧ x.toBits.toNat ≤ 0xfff0000000000000 := by
  have hnumber : ¬ (unpack .binary64 x.toBits.toBitVec).isNaN = true := ne_true_of_eq_false h
  have hexponent := unpackExponent_toNat x.toBits.toBitVec
  have hmantissa := unpackMantissa_toNat x.toBits.toBitVec
  have hnat : x.toBits.toBitVec.toNat = x.toBits.toNat := rfl
  have hbits := x.toBits.toBitVec.isLt
  by_contra hrange
  refine hnumber ((isNaN_unpack_iff _).mpr ⟨BitVec.eq_of_toNat_eq (hexponent.trans ?_), ?_⟩)
  · show _ = 2047
    omega
  · intro hzero
    rw [hzero] at hmantissa
    have : (0#52).toNat = 0 := rfl
    omega

/-- A NaN with a sign comes before every number in the order of bit patterns. -/
theorem orderKey_lt_of_signed {bits : UInt64} (signed : 0xfff0000000000000 < bits.toNat)
    (h : x.isNaN = false) : orderKey bits < orderKey x.toBits := by
  have hnumber := toBits_of_number h
  unfold orderKey
  rw [if_pos (by omega)]
  split <;> omega

/-! ## Integers as doubles -/

/-- Of two numbers the smaller one is near no greater double. -/
theorem bits_le_of_nears {v w : ℚ} (h : Canonical m e) (h' : Canonical m' e') (near : Nears m e v)
    (near' : Nears m' e' w) (less : v < w) : bitsOf false m e ≤ bitsOf false m' e' := by
  by_contra hmore
  obtain ⟨-, -, hmin, hfull⟩ := id h
  obtain ⟨-, hbits', hmin', -⟩ := id h'
  obtain ⟨hlow, -, -⟩ := near
  obtain ⟨-, hhigh, -⟩ := near'
  have hpow : (0 : ℚ) < 2 ^ e := by positivity
  rcases (bits_lt_iff h' h).mp (Nat.lt_of_not_le hmore) with he | ⟨rfl, hm⟩
  · have hlong : 2 ^ 52 ≤ m := hfull.resolve_right (by omega)
    have hbelow : ((2 : ℚ) ^ 54 - 1) * 2 ^ e ≤ 4 * v := by
      refine le_trans (mul_le_mul_of_nonneg_right ?_ hpow.le) hlow
      split
      · have hlong : (2 ^ 52 : ℚ) ≤ m := by exact_mod_cast hlong
        linarith
      · have hlong : (2 ^ 52 : ℚ) + 1 ≤ m := by exact_mod_cast (show 2 ^ 52 + 1 ≤ m by omega)
        linarith
    have habove : 4 * w ≤ ((2 : ℚ) ^ 54 - 1) * 2 ^ e := by
      have hm' : (m' : ℚ) + 1 ≤ 2 ^ 53 := by exact_mod_cast hbits'
      have hstep : (2 : ℚ) ^ e' ≤ 2 ^ (e - 1) := zpow_le_zpow_right₀ one_le_two (by omega)
      calc 4 * w ≤ (4 * m' + 2) * 2 ^ e' := hhigh
        _ ≤ (2 ^ 55 - 2) * 2 ^ (e - 1) := by
            refine mul_le_mul (by linarith) hstep (by positivity) (by norm_num)
        _ = (2 ^ 54 - 1) * 2 ^ e := by
            rw [zpow_sub_one₀ two_ne_zero]
            ring
    linarith
  · have hm : (m' : ℚ) + 1 ≤ m := by exact_mod_cast hm
    split at hlow <;> nlinarith

theorem toFloat_of_nears {n : ℕ} (canonical : Canonical m e) (near : Nears m e n) (pos : 0 < n)
    (hn : n < 2 ^ 64) : n.toUInt64.toFloat = ofFields false m e canonical.pos := by
  have hword : n.toUInt64.toNat = n := by
    rw [Nat.toUInt64, UInt64.toNat_ofNat']
    exact Nat.mod_eq_of_lt hn
  show Float.ofModel (.pack (UnpackedFloat.ofNat .binary64 n.toUInt64.toNat)) = _
  rw [hword, ofNat_of_nears canonical near pos]
  rfl

theorem natAbs_lt (i : Int64) : i.toInt.natAbs < 2 ^ 64 := by
  have hhigh := Int64.toInt_lt i
  have hlow := Int64.le_toInt i
  omega

/-- The double of an integer that is near a double of its sign. -/
theorem ofInt64_of_nears {i : Int64} (canonical : Canonical m e) (he : e ≤ 971)
    (near : Nears m e i.toInt.natAbs) (nonzero : i.toInt ≠ 0) :
    ofInt64 i = ofFields (decide (i.toInt < 0)) m e canonical.pos := by
  have hfloat := toFloat_of_nears canonical near (by omega) (natAbs_lt i)
  have hsign : i < 0 ↔ i.toInt < 0 := Int64.lt_iff_toInt_lt
  rw [ofInt64, hfloat]
  by_cases hneg : i.toInt < 0
  · rw [if_pos (hsign.mpr hneg), neg_ofFields canonical he, decide_eq_true hneg]
    rfl
  · rw [if_neg (mt hsign.mp hneg), decide_eq_false hneg]

/-- The double of an integer is the zero or a double that the integer is near. -/
theorem ofInt64_cases (i : Int64) : (i.toInt = 0 ∧ ofInt64 i = 0) ∨
    i.toInt ≠ 0 ∧ ∃ (m : ℕ) (e : ℤ) (canonical : Canonical m e), e ≤ 971 ∧
      Nears m e i.toInt.natAbs ∧ ofInt64 i = ofFields (decide (i.toInt < 0)) m e canonical.pos := by
  by_cases hzero : i.toInt = 0
  · obtain rfl : i = 0 := Int64.toInt_inj.mp hzero
    exact .inl ⟨rfl, rfl⟩
  · obtain ⟨m, e, canonical, near, he⟩ := exists_nears (show 0 < i.toInt.natAbs by omega) (natAbs_lt i)
    exact .inr ⟨hzero, m, e, canonical, he, near, ofInt64_of_nears canonical he near hzero⟩

theorem unpack_ofFields (negative : Bool) (canonical : Canonical m e) (he : e ≤ 971) :
    (ofFields negative m e canonical.pos).toModel.unpack =
      .finite (signOf negative) m e canonical.pos :=
  unpack_pack canonical he

theorem isNaN_ofInt64 (i : Int64) : (ofInt64 i).isNaN = false := by
  rcases ofInt64_cases i with ⟨-, hfloat⟩ | ⟨-, m, e, canonical, he, -, hfloat⟩
  · rw [hfloat]
    rfl
  · rw [hfloat]
    exact congrArg UnpackedFloat.isNaN (unpack_ofFields _ canonical he)

theorem place_ofFields (negative : Bool) (canonical : Canonical m e) (he : e ≤ 971) :
    place (ofFields negative m e canonical.pos) =
      if negative then -(bitsOf false m e : ℤ) else bitsOf false m e := by
  rw [place, unpack_ofFields negative canonical he]
  cases negative <;> rfl

/-- Rounding to a double keeps the order of integers. -/
theorem place_ofInt64_mono {i k : Int64} (h : i.toInt ≤ k.toInt) :
    place (ofInt64 i) ≤ place (ofInt64 k) := by
  rcases h.eq_or_lt with heq | hless
  · rw [Int64.toInt_inj.mp heq]
  have hzero : place 0 = 0 := rfl
  rcases ofInt64_cases i with ⟨hi, hfloat⟩ | ⟨hi, m, e, canonical, he, near, hfloat⟩ <;>
    rcases ofInt64_cases k with ⟨hk, hfloat'⟩ | ⟨hk, m', e', canonical', he', near', hfloat'⟩
  · rw [hfloat, hfloat']
  · rw [hfloat, hfloat', hzero, place_ofFields _ canonical' he', if_neg (by simp; omega)]
    exact Int.natCast_nonneg _
  · rw [hfloat, hfloat', hzero, place_ofFields _ canonical he, if_pos (by simp; omega)]
    exact neg_nonpos_of_nonneg (Int.natCast_nonneg _)
  · rw [hfloat, hfloat', place_ofFields _ canonical he, place_ofFields _ canonical' he']
    by_cases hneg : i.toInt < 0 <;> by_cases hneg' : k.toInt < 0
    · have hsizes : (k.toInt.natAbs : ℚ) < i.toInt.natAbs := by exact_mod_cast (by omega)
      have hbits := bits_le_of_nears canonical' canonical near' near hsizes
      rw [if_pos (by simpa using hneg), if_pos (by simpa using hneg')]
      omega
    · rw [if_pos (by simpa using hneg), if_neg (by simpa using hneg')]
      omega
    · omega
    · have hsizes : (i.toInt.natAbs : ℚ) < k.toInt.natAbs := by exact_mod_cast (by omega)
      have hbits := bits_le_of_nears canonical canonical' near near' hsizes
      rw [if_neg (by simpa using hneg), if_neg (by simpa using hneg')]
      omega

/-- A finite double without fraction is a sign and a natural number. -/
theorem amount_of_isIntegral {d : Dyadic} (h : d.isIntegral = true) :
    (d.truncate.natAbs : ℚ) = amount d.mantissa d.exponent ∧
      (0 < d.mantissa → (d.truncate < 0 ↔ d.negative = true)) := by
  obtain ⟨negative, m, e⟩ := d
  obtain ⟨size, hsize, hamount⟩ : ∃ size : ℕ,
      (⟨negative, m, e⟩ : Dyadic).truncate = (if negative then -(size : ℤ) else size) ∧
        (size : ℚ) = amount m e := by
    rw [Dyadic.truncate]
    by_cases he : 0 ≤ e
    · refine ⟨m * 2 ^ e.toNat, by simp only [he, if_true, Nat.pow_eq], ?_⟩
      rw [amount, ← Int.toNat_of_nonneg he, zpow_natCast, Int.toNat_natCast]
      push_cast
      rfl
    · refine ⟨m / 2 ^ (-e).toNat, by simp only [he, if_false, Nat.pow_eq], ?_⟩
      have hdvd : 2 ^ (-e).toNat ∣ m := by
        simpa [Dyadic.isIntegral, he, Nat.dvd_iff_mod_eq_zero] using h
      obtain ⟨k, rfl⟩ := hdvd
      have hpow : (2 : ℚ) ^ (-e).toNat ≠ 0 := by positivity
      have hexp : (2 : ℚ) ^ e = ((2 : ℚ) ^ (-e).toNat)⁻¹ := by
        rw [← zpow_natCast, Int.toNat_of_nonneg (by omega), zpow_neg, inv_inv]
      rw [Nat.mul_div_cancel_left k (by positivity), amount, hexp]
      push_cast
      field_simp
  rw [hsize]
  refine ⟨?_, fun pos => ?_⟩
  · cases negative <;> simpa using hamount
  · have hpos : 0 < size := by
      have : (0 : ℚ) < size := by
        rw [hamount, amount]
        positivity
      exact_mod_cast this
    cases negative
    · simp
    · simpa using hpos

/-- A double stands for an integer if it has no fraction. -/
theorem decode_of_smallInt64? {i : Int64} (h : smallInt64? x = some i) :
    ∃ d, decode? x = some d ∧ d.isIntegral = true ∧ i.toInt = d.truncate := by
  rw [smallInt64?] at h
  split at h
  · cases h
  · rename_i d hd
    split at h
    · rename_i hsmall
      obtain ⟨hintegral, hlt⟩ := Bool.and_eq_true_iff.mp hsmall
      have hlt := of_decide_eq_true hlt
      refine ⟨d, hd, hintegral, ?_⟩
      rw [← Option.some.inj h]
      exact Int64.toInt_ofInt_of_le (by omega) (by omega)
    · cases h

/-- The integer that a double stands for is rounded to the place of the double. -/
theorem ofInt64_beq_of_smallInt64? {i : Int64} (h : smallInt64? x = some i) :
    (ofInt64 i == x) = true := by
  obtain ⟨⟨negative, m, e⟩, hd, hintegral, hi⟩ := decode_of_smallInt64? h
  obtain ⟨hamount, hsign⟩ := amount_of_isIntegral hintegral
  rw [← hi] at hamount hsign
  rcases Nat.eq_zero_or_pos m with rfl | hpos
  · have hzero : (i.toInt.natAbs : ℚ) = 0 := by
      rw [hamount, amount, Nat.cast_zero, zero_mul]
    obtain rfl : i = 0 := Int64.toInt_inj.mp (Int.natAbs_eq_zero.mp (by exact_mod_cast hzero))
    rw [eq_zero hd]
    cases negative <;> rfl
  · obtain ⟨canonical, he, hx⟩ := eq_ofFields hd hpos
    have hnear : Nears m e i.toInt.natAbs := by
      rw [hamount]
      exact nears_amount m e
    have hnonzero : i.toInt ≠ 0 := by
      have hsize := hnear.pos hpos
      intro hzero
      rw [hzero] at hsize
      norm_num at hsize
    have hnegative : decide (i.toInt < 0) = negative := by
      rw [Bool.eq_iff_iff, decide_eq_true_iff, hsign hpos]
    rw [ofInt64_of_nears canonical he hnear hnonzero, hnegative, ← hx, beq_iff_place]
    have hnan : x.isNaN = false := by
      rw [hx]
      exact congrArg UnpackedFloat.isNaN (unpack_ofFields _ canonical he)
    exact ⟨hnan, hnan, rfl⟩

/-! ## Equal doubles -/

theorem isNaN_of_isFinite (h : x.isFinite = true) : x.isNaN = false := by
  have hunpack : x.toModel.unpack.isFinite = true := h
  show x.toModel.unpack.isNaN = false
  cases hu : x.toModel.unpack <;> rw [hu] at hunpack <;> first | rfl | cases hunpack

theorem place_of_decode {negative : Bool} (hd : decode? x = some ⟨negative, m, e⟩) :
    (m = 0 ∧ place x = 0) ∨ ∃ canonical : Canonical m e, e ≤ 971 ∧
      x = ofFields negative m e canonical.pos ∧
      place x = if negative then -(bitsOf false m e : ℤ) else bitsOf false m e := by
  rcases Nat.eq_zero_or_pos m with rfl | hpos
  · left
    rw [eq_zero hd]
    cases negative <;> exact ⟨rfl, rfl⟩
  · obtain ⟨canonical, he, hx⟩ := eq_ofFields hd hpos
    exact .inr ⟨canonical, he, hx, hx ▸ place_ofFields negative canonical he⟩

/-- The places of the infinities are past those of the finite doubles. -/
theorem isFinite_iff_place (h : x.isNaN = false) :
    x.isFinite = true ↔ -0x7ff0000000000000 < place x ∧ place x < 0x7ff0000000000000 := by
  have hregular := regular_unpack x
  have hnan : x.toModel.unpack.isNaN = false := h
  show x.toModel.unpack.isFinite = true ↔ _
  rw [place]
  generalize x.toModel.unpack = u at hregular hnan
  cases u with
  | infinity s => cases s <;> decide
  | zero s => cases s <;> decide
  | notANumber => cases hnan
  | finite s m e pos => exact iff_of_true rfl (placeOf_range hregular)

/-- A place that is not that of the zeros is the place of one sign and one pair of fields. -/
theorem eq_of_place {negative negative' : Bool} (h : Canonical m e) (h' : Canonical m' e')
    (hplace : (if negative then -(bitsOf false m e : ℤ) else bitsOf false m e) =
      if negative' then -(bitsOf false m' e' : ℤ) else bitsOf false m' e')
    (he : e ≤ 971) (he' : e' ≤ 971) : negative = negative' ∧ m = m' ∧ e = e' := by
  have hpos := (bits_range h he).1
  have hpos' := (bits_range h' he').1
  have hsign : negative = negative' := by
    cases negative <;> cases negative' <;> simp at hplace ⊢ <;> omega
  have hsame : bitsOf false m e = bitsOf false m' e' := by
    rw [hsign] at hplace
    split at hplace <;> omega
  have hless := mt (bits_lt_iff h h').mpr (by omega)
  have hmore := mt (bits_lt_iff h' h).mpr (by omega)
  exact ⟨hsign, by omega, by omega⟩

/-- Equal doubles are one and the same but for the sign of zero. -/
theorem eq_or_zero_of_beq (h : (x == y) = true) (hx : x.isFinite = true) :
    x = y ∨ (x = 0 ∨ x = -0) ∧ (y = 0 ∨ y = -0) := by
  obtain ⟨hnan, hnan', hplace⟩ := (beq_iff_place x y).mp h
  have hy : y.isFinite = true := by
    rw [isFinite_iff_place hnan] at hx
    rwa [isFinite_iff_place hnan', ← hplace]
  obtain ⟨⟨negative, m, e⟩, hd⟩ := Option.isSome_iff_exists.mp (decode?_isSome.trans hx)
  obtain ⟨⟨negative', m', e'⟩, hd'⟩ := Option.isSome_iff_exists.mp (decode?_isSome.trans hy)
  rcases place_of_decode hd with ⟨rfl, hzero⟩ | ⟨canonical, he, hfloat, hbits⟩ <;>
    rcases place_of_decode hd' with ⟨rfl, hzero'⟩ | ⟨canonical', he', hfloat', hbits'⟩
  · have hsigned : ∀ negative : Bool, (if negative then -0 else 0 : Float) = 0 ∨
        (if negative then -0 else 0 : Float) = -0 := by
      rintro (- | -)
      · exact .inl rfl
      · exact .inr rfl
    rw [eq_zero hd, eq_zero hd']
    exact .inr ⟨hsigned negative, hsigned negative'⟩
  · have hrange := (bits_range canonical' he').1
    rw [← hplace, hzero] at hbits'
    split at hbits' <;> omega
  · have hrange := (bits_range canonical he).1
    rw [hplace, hzero'] at hbits
    split at hbits <;> omega
  · rw [hbits, hbits'] at hplace
    obtain ⟨rfl, rfl, rfl⟩ := eq_of_place canonical canonical' hplace he he'
    exact .inl (hfloat.trans hfloat'.symm)

theorem smallInt64?_zero : smallInt64? 0 = some 0 := by decide +kernel

theorem smallInt64?_negZero : smallInt64? (-0) = some 0 := by decide +kernel

/-- Equal doubles stand for the same integer. -/
theorem smallInt64?_congr (h : (x == y) = true) : smallInt64? x = smallInt64? y := by
  obtain ⟨hnan, hnan', hplace⟩ := (beq_iff_place x y).mp h
  by_cases hx : x.isFinite = true
  · rcases eq_or_zero_of_beq h hx with rfl | ⟨rfl | rfl, rfl | rfl⟩
    · rfl
    · rfl
    · rw [smallInt64?_zero, smallInt64?_negZero]
    · rw [smallInt64?_zero, smallInt64?_negZero]
    · rfl
  · have hy : ¬ y.isFinite = true := by
      rw [isFinite_iff_place hnan] at hx
      rwa [isFinite_iff_place hnan', ← hplace]
    have hnone : ∀ {x : Float}, ¬ x.isFinite = true → smallInt64? x = none := by
      intro x hx
      rw [← decode?_isSome, Bool.not_eq_true, Option.isSome_eq_false_iff, Option.isNone_iff_eq_none] at hx
      rw [smallInt64?, hx]
    rw [hnone hx, hnone hy]

end RowPipeline.Binary64
