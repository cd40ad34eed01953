import RowPipeline.Proofs.CanonicalTexts
import RowPipeline.Proofs.Lexemes

/-!
# Texts of numbers

The JSON text of a double is read as the double, whether its digits stand around a point or in front of
an exponent. So two doubles with one text are the same double. A point or an exponent also tells the
text from that of every integer.
-/

namespace RowPipeline.Decimal

open Text Binary64

/-! ## Integers -/

/-- A negative number has a sign in front of its digits. -/
theorem toList_negSucc (n : ℕ) :
    (toString (Int.negSucc n)).toList = '-' :: (toString (n + 1)).toList := by
  rw [Int.toString_eq_repr, Int.repr, String.toList_append]
  rfl

theorem toString_int_ne_sign (n : ℕ) (cs : List Char) : (toString n).toList ≠ '-' :: cs := by
  intro h
  have hdigit := (digits_toString n).all '-' (h ▸ List.mem_cons_self)
  exact absurd hdigit (by decide)

theorem toString_int_injective {i k : Int} (h : toString i = toString k) : i = k := by
  have hlist := congrArg String.toList h
  cases i with
  | ofNat n =>
      cases k with
      | ofNat m => exact congrArg Int.ofNat (Json.toString_injective h)
      | negSucc m =>
          rw [toList_negSucc] at hlist
          exact absurd hlist (toString_int_ne_sign n _)
  | negSucc n =>
      cases k with
      | ofNat m =>
          rw [toList_negSucc] at hlist
          exact absurd hlist.symm (toString_int_ne_sign m _)
      | negSucc m =>
          rw [toList_negSucc, toList_negSucc] at hlist
          have hdigits := Json.toString_injective (String.toList_inj.mp (List.cons.inj hlist).2)
          exact congrArg Int.negSucc (Nat.succ.inj hdigits)

theorem toString_int_ne_nil (i : Int) : (toString i).toList ≠ [] := by
  cases i with
  | ofNat n => exact (digits_toString n).nonempty
  | negSucc n =>
      rw [toList_negSucc]
      exact List.cons_ne_nil _ _

/-- No integer is written with a point or an exponent. -/
theorem toString_int_unmarked (i : Int) : '.' ∉ (toString i).toList ∧ 'e' ∉ (toString i).toList := by
  have hdigits : ∀ n : ℕ, '.' ∉ (toString n).toList ∧ 'e' ∉ (toString n).toList := fun n =>
    ⟨fun h => absurd ((digits_toString n).all '.' h) (by decide),
      fun h => absurd ((digits_toString n).all 'e' h) (by decide)⟩
  cases i with
  | ofNat n => exact hdigits n
  | negSucc n =>
      rw [toList_negSucc]
      simpa using hdigits (n + 1)

/-! ## Reading -/

/-- A text that begins with a digit. -/
def BeginsDigit (cs : List Char) : Prop := ∃ c rest, cs = c :: rest ∧ isAsciiDigit c = true

theorem Digits.begins {cs : List Char} (h : Digits cs) (rest : List Char) :
    BeginsDigit (cs ++ rest) := by
  obtain ⟨c, tail, rfl⟩ := List.exists_cons_of_ne_nil h.nonempty
  exact ⟨c, tail ++ rest, rfl, h.all c List.mem_cons_self⟩

/-- An unsigned text of a double, with a point or an exponent, and the number that it is read as a
double for. -/
structure Reads (cs : List Char) (v : ℚ) : Prop where
  begins : BeginsDigit cs
  marked : '.' ∈ cs ∨ 'e' ∈ cs
  nearest : ∃ (digits : ℕ) (scale : ℤ), (digits : ℚ) * 10 ^ scale = v ∧
    readUnsigned? cs = some (nearest digits scale)

theorem readUnsigned?_point {whole fraction : List Char} (hwhole : Digits whole)
    (hfraction : Digits fraction) :
    readUnsigned? (whole ++ '.' :: fraction) = some (Parts.value ⟨whole, fraction, 0⟩) := by
  obtain ⟨htake, hdrop⟩ := @Lexer.takeWhile_append_of_stop isAsciiDigit whole ('.' :: fraction)
    hwhole.all (by simp [isAsciiDigit])
  obtain ⟨htake', hdrop'⟩ := @Lexer.takeWhile_append_of_stop isAsciiDigit fraction []
    hfraction.all (by simp)
  rw [List.append_nil] at htake' hdrop'
  have hempty : whole.isEmpty = false := by
    rw [List.isEmpty_eq_false_iff]
    exact hwhole.nonempty
  simp [readUnsigned?, htake, hdrop, htake', hdrop', hempty]

/-- Digits around a point, with an exponent. -/
theorem readUnsigned?_pointExponent {whole fraction rest : List Char} {k : ℤ} (hwhole : Digits whole)
    (hfraction : Digits fraction) (hexponent : readExponent? ('e' :: rest) = some (k, [])) :
    readUnsigned? (whole ++ '.' :: fraction ++ 'e' :: rest) =
      some (Parts.value ⟨whole, fraction, k⟩) := by
  obtain ⟨htake, hdrop⟩ := @Lexer.takeWhile_append_of_stop isAsciiDigit whole
    ('.' :: (fraction ++ 'e' :: rest)) hwhole.all (by simp [isAsciiDigit])
  obtain ⟨htake', hdrop'⟩ := @Lexer.takeWhile_append_of_stop isAsciiDigit fraction ('e' :: rest)
    hfraction.all (by simp [isAsciiDigit])
  have hempty : whole.isEmpty = false := by
    rw [List.isEmpty_eq_false_iff]
    exact hwhole.nonempty
  simp [readUnsigned?, htake, hdrop, htake', hdrop', hempty, hexponent]

/-- Digits without a point, with an exponent. -/
theorem readUnsigned?_exponent {whole rest : List Char} {k : ℤ} (hwhole : Digits whole)
    (hexponent : readExponent? ('e' :: rest) = some (k, [])) :
    readUnsigned? (whole ++ 'e' :: rest) = some (Parts.value ⟨whole, [], k⟩) := by
  obtain ⟨htake, hdrop⟩ := @Lexer.takeWhile_append_of_stop isAsciiDigit whole ('e' :: rest)
    hwhole.all (by simp [isAsciiDigit])
  have hempty : whole.isEmpty = false := by
    rw [List.isEmpty_eq_false_iff]
    exact hwhole.nonempty
  simp [readUnsigned?, htake, hdrop, hempty, hexponent]

/-- What a JSON text has behind the mark of an exponent. -/
def exponentText (k : ℤ) : List Char :=
  (if k < 0 then '-' else '+') :: (toString k.natAbs).toList

theorem readExponent?_exponentText (k : ℤ) :
    readExponent? ('e' :: exponentText k) = some (k, []) := by
  have hdigits := digits_toString k.natAbs
  obtain ⟨htake, hdrop⟩ := @Lexer.takeWhile_append_of_stop isAsciiDigit (toString k.natAbs).toList []
    hdigits.all (by simp)
  rw [List.append_nil] at htake hdrop
  have hempty : (toString k.natAbs).toList.isEmpty = false := by
    rw [List.isEmpty_eq_false_iff]
    exact hdigits.nonempty
  by_cases hneg : k < 0
  · have hk : -(k.natAbs : ℤ) = k := by omega
    rw [exponentText, if_pos hneg]
    simp only [readExponent?, htake, hdrop, hempty, digitsValue_toString]
    exact congrArg (fun k => some (k, [])) hk
  · have hk : (k.natAbs : ℤ) = k := by omega
    rw [exponentText, if_neg hneg]
    simp only [readExponent?, htake, hdrop, hempty, digitsValue_toString]
    exact congrArg (fun k => some (k, [])) hk

theorem toList_scientific (figures : String) (k : ℤ) :
    (figures ++ (if k < 0 then "e-" else "e" ++ jsonLayout.positiveMark) ++ toString k.natAbs).toList =
      figures.toList ++ 'e' :: exponentText k := by
  by_cases hneg : k < 0 <;> simp [exponentText, hneg, jsonLayout]

theorem Fixed.reads {cs : List Char} {v : ℚ} (h : Fixed cs v) : Reads cs v := by
  obtain ⟨whole, fraction, rfl, hwhole, hfraction, hvalue⟩ := h
  refine ⟨hwhole.begins _, .inl (by simp), _, _, hvalue, ?_⟩
  rw [readUnsigned?_point hwhole hfraction, Parts.value, Int.zero_sub]

theorem Fixed.reads_exponent {cs rest : List Char} {v : ℚ} {k : ℤ} (h : Fixed cs v)
    (hexponent : readExponent? ('e' :: rest) = some (k, [])) :
    Reads (cs ++ 'e' :: rest) (v * 10 ^ k) := by
  obtain ⟨whole, fraction, rfl, hwhole, hfraction, hvalue⟩ := h
  refine ⟨?_, .inl (by simp), digitsValue (whole ++ fraction), k - fraction.length, ?_, ?_⟩
  · rw [List.append_assoc]
    exact hwhole.begins _
  · rw [← hvalue, sub_eq_neg_add, zpow_add₀ (by norm_num), mul_assoc]
  · rw [readUnsigned?_pointExponent hwhole hfraction hexponent, Parts.value]

theorem Digits.reads_exponent {cs rest : List Char} {k : ℤ} (h : Digits cs)
    (hexponent : readExponent? ('e' :: rest) = some (k, [])) :
    Reads (cs ++ 'e' :: rest) (digitsValue cs * 10 ^ k) := by
  refine ⟨h.begins _, .inr (by simp), digitsValue cs, k, rfl, ?_⟩
  rw [readUnsigned?_exponent h hexponent, Parts.value, List.append_nil, List.length_nil,
    Nat.cast_zero, Int.sub_zero]

/-! ## Texts of doubles -/

/-- The JSON text of a positive number is read as a double for the number. -/
theorem reads_arrange (n : Numeral) : Reads (jsonLayout.arrange n).toList n.amount := by
  have hdigits := digits_toString n.digits
  have hpos : 0 < (toString n.digits).length := by
    rw [← String.length_toList]
    exact List.length_pos_iff.mpr hdigits.nonempty
  have hamount : ∀ k : ℤ, -(((toString n.digits).length : ℤ) - 1) + k = n.scale →
      (n.digits : ℚ) * 10 ^ (-(((toString n.digits).length : ℤ) - 1)) * 10 ^ k = n.amount := by
    rintro k hk
    rw [mul_assoc, ← zpow_add₀ (by norm_num), hk, Numeral.amount]
  rw [Layout.arrange]
  dsimp only
  split
  · split
    · rename_i hscale
      have hfixed := fixed_pointZero hdigits n.scale.toNat
      rw [digitsValue_toString, ← zpow_natCast, Int.toNat_of_nonneg hscale] at hfixed
      exact hfixed.reads
    · rename_i hscale
      have hfixed := @fixed_withPoint (toString n.digits) (-n.scale).toNat hdigits (by omega)
      rw [digitsValue_toString, Int.toNat_of_nonneg (by omega), neg_neg] at hfixed
      exact hfixed.reads
  · generalize hleading : n.scale + ((toString n.digits).length : ℤ) - 1 = leading
    have hexponent := readExponent?_exponentText leading
    rw [toList_scientific]
    split
    · rename_i hone
      have hone := beq_iff_eq.mp hone
      have hreads := hdigits.reads_exponent hexponent
      have hscale : leading = n.scale := by omega
      rw [digitsValue_toString] at hreads
      rw [Numeral.amount, ← hscale]
      exact hreads
    · rename_i hmore
      have hmore : (toString n.digits).length ≠ 1 := fun h => hmore (beq_iff_eq.mpr h)
      have hfixed := @fixed_withPoint (toString n.digits) ((toString n.digits).length - 1) hdigits
        (by omega)
      have hreads := hfixed.reads_exponent hexponent
      rw [digitsValue_toString, Nat.cast_sub hpos, Nat.cast_one, hamount leading (by omega)] at hreads
      exact hreads

/-- A text that begins with a digit is no name of a number. -/
theorem readFloat?_digit {c : Char} {cs : List Char} {x : Float} (hc : isAsciiDigit c = true)
    (h : readUnsigned? (c :: cs) = some x) (negative : Bool) :
    readFloat? (String.ofList ((if negative then ['-'] else []) ++ c :: cs)) =
      some (if negative then -x else x) := by
  obtain ⟨hminus, hplus, hi, hn⟩ := @Lexer.digit_forall
    (fun c => c ≠ '-' ∧ c ≠ '+' ∧ c.toLower ≠ 'i' ∧ c.toLower ≠ 'n') _ (by decide) c hc
  have hname : ∀ name : String, name.toList.head? ≠ some c.toLower →
      (String.ofList ((c :: cs).map Char.toLower) == name) = false := by
    intro name hname
    rw [beq_eq_false_iff_ne]
    rintro rfl
    simp at hname
  have hinf := hname "inf" (by simpa using hi.symm)
  have hinfinity := hname "infinity" (by simpa using hi.symm)
  have hnan := hname "nan" (by simpa using hn.symm)
  unfold readFloat?
  rw [String.toList_ofList]
  cases negative with
  | true =>
      simp only [if_true, List.cons_append, List.nil_append, hinf, hinfinity, hnan, h]
      rfl
  | false =>
      rw [if_neg Bool.false_ne_true, List.nil_append]
      split
      rename_i negative body heq
      split at heq
      · rename_i hmark
        exact absurd (List.cons.inj hmark).1 hminus
      · rename_i hmark
        exact absurd (List.cons.inj hmark).1 hplus
      · cases heq
        simp only [hinf, hinfinity, hnan, h]
        rfl

/-- The size of a double, with its sign. -/
theorem signed_size {x : Float} {negative : Bool} {m : ℕ} {e : ℤ}
    (hd : decode? x = some ⟨negative, m, e⟩) (pos : 0 < m) :
    (if negative then -ofFields false m e pos else ofFields false m e pos) = x := by
  obtain ⟨canonical, he, hx⟩ := eq_ofFields hd pos
  rw [hx]
  cases negative with
  | false => rfl
  | true => exact neg_ofFields canonical he

/-- Behind its sign a JSON text begins with a digit, it holds a point or an exponent, and it is read
as the size of the double. -/
theorem write_size {x : Float} {d : Dyadic} (hd : decode? x = some d) :
    ∃ c cs size, (jsonLayout.write x).toList = (if d.negative then ['-'] else []) ++ c :: cs ∧
      isAsciiDigit c = true ∧ ('.' ∈ c :: cs ∨ 'e' ∈ c :: cs) ∧
      readUnsigned? (c :: cs) = some size ∧ (if d.negative then -size else size) = x := by
  obtain ⟨negative, m, e⟩ := d
  have hsign : (if negative then "-" else "").toList = if negative then ['-'] else [] := by
    cases negative <;> rfl
  rcases Nat.eq_zero_or_pos m with rfl | hpos
  · refine ⟨'0', ['.', '0'], 0, ?_, rfl, .inl (by simp), rfl, (eq_zero hd).symm⟩
    rw [Layout.write, hd]
    exact String.toList_append.trans (congrArg (· ++ _) hsign)
  · obtain ⟨canonical, he, -⟩ := eq_ofFields hd hpos
    obtain ⟨⟨c, cs, htext, hdigit⟩, hmarked, digits, scale, hvalue, hread⟩ :=
      reads_arrange (shortest jsonLayout.tie m e)
    have hnear := shortest_nears jsonLayout.tie canonical
    rw [← hvalue] at hnear
    rw [nearest_of_nears canonical he hnear, htext] at hread
    refine ⟨c, cs, _, ?_, hdigit, htext ▸ hmarked, hread, signed_size hd hpos⟩
    have hzero : (m == 0) = false := beq_eq_false_iff_ne.mpr hpos.ne'
    rw [Layout.write, hd, ← htext]
    simp only [hzero, Bool.false_eq_true, if_false, String.toList_append, hsign]

/-- The JSON text of a finite double is read as the double. -/
theorem readFloat?_write {x : Float} (hx : x.isFinite = true) :
    readFloat? (jsonLayout.write x) = some x := by
  obtain ⟨d, hd⟩ := Option.isSome_iff_exists.mp (decode?_isSome.trans hx)
  obtain ⟨c, cs, size, htext, hdigit, -, hread, hsize⟩ := write_size hd
  have h := readFloat?_digit hdigit hread d.negative
  rwa [← htext, String.ofList_toList, hsize] at h

theorem write_injective {x y : Float} (hx : x.isFinite = true) (hy : y.isFinite = true)
    (h : jsonLayout.write x = jsonLayout.write y) : x = y := by
  have hread := readFloat?_write hx
  rw [h, readFloat?_write hy] at hread
  exact (Option.some.inj hread).symm

theorem write_ne_nil {x : Float} (hx : x.isFinite = true) : (jsonLayout.write x).toList ≠ [] := by
  obtain ⟨d, hd⟩ := Option.isSome_iff_exists.mp (decode?_isSome.trans hx)
  obtain ⟨c, cs, size, htext, -⟩ := write_size hd
  rw [htext]
  simp

/-- A double is not written as an integer is. -/
theorem write_ne_toString {x : Float} (hx : x.isFinite = true) (i : Int) :
    jsonLayout.write x ≠ toString i := by
  intro h
  obtain ⟨d, hd⟩ := Option.isSome_iff_exists.mp (decode?_isSome.trans hx)
  obtain ⟨c, cs, size, htext, -, hmarked, -⟩ := write_size hd
  obtain ⟨hpoint, hexponent⟩ := toString_int_unmarked i
  rw [← h, htext] at hpoint hexponent
  rcases hmarked with hmem | hmem
  · exact hpoint (List.mem_append_right _ hmem)
  · exact hexponent (List.mem_append_right _ hmem)

end RowPipeline.Decimal
