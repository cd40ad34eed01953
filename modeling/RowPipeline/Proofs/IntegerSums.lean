import RowPipeline.Expr.Aggregate
import RowPipeline.Proofs.IntegerArithmetic
import Mathlib.Algebra.BigOperators.Group.List.Basic
import Mathlib.Algebra.Order.BigOperators.Group.List

/-!
# Sums of integers

Integers are summed term by term, and the sum is exact as long as every partial sum fits 64 bits. So the
order of the terms decides whether a sum that fits is found, unless the positive terms alone fit, and the
negative terms alone.
-/

namespace RowPipeline

open ScalarFunction (exactInt64? exactInt64?_eq_some_iff exactInt64?_eq_none_iff)

variable {ints is front : List Int64}

/-- The exact sum. -/
def totalOf (ints : List Int64) : ℤ := (ints.map Int64.toInt).sum

/-- The sum of the terms that are not negative. -/
def gainsOf (ints : List Int64) : ℤ := totalOf (ints.filter fun i => 0 ≤ i.toInt)

/-- The sum of the negative terms. -/
def lossesOf (ints : List Int64) : ℤ := totalOf (ints.filter fun i => i.toInt < 0)

@[simp]
theorem totalOf_nil : totalOf [] = 0 := rfl

@[simp]
theorem totalOf_cons (i : Int64) (ints : List Int64) : totalOf (i :: ints) = i.toInt + totalOf ints := by
  simp [totalOf]

theorem totalOf_perm (h : is.Perm ints) : totalOf is = totalOf ints :=
  (h.map Int64.toInt).sum_eq

theorem gainsOf_perm (h : is.Perm ints) : gainsOf is = gainsOf ints := totalOf_perm (h.filter _)

theorem lossesOf_perm (h : is.Perm ints) : lossesOf is = lossesOf ints := totalOf_perm (h.filter _)

theorem gainsOf_cons (i : Int64) (ints : List Int64) :
    gainsOf (i :: ints) = max i.toInt 0 + gainsOf ints := by
  by_cases h : 0 ≤ i.toInt
  · simp [gainsOf, h]
  · have hmax : max i.toInt 0 = 0 := by omega
    simp [gainsOf, h, hmax]

theorem lossesOf_cons (i : Int64) (ints : List Int64) :
    lossesOf (i :: ints) = min i.toInt 0 + lossesOf ints := by
  by_cases h : i.toInt < 0
  · have hmin : min i.toInt 0 = i.toInt := by omega
    simp [lossesOf, h, hmin]
  · have hmin : min i.toInt 0 = 0 := by omega
    simp [lossesOf, h, hmin]

theorem gainsOf_eq_zero (h : ∀ i ∈ ints, i.toInt < 0) : gainsOf ints = 0 := by
  have hnone : (ints.filter fun i => 0 ≤ i.toInt) = [] :=
    List.filter_eq_nil_iff.mpr fun i hi => by simpa using h i hi
  rw [gainsOf, hnone, totalOf_nil]

theorem lossesOf_eq_zero (h : ∀ i ∈ ints, 0 ≤ i.toInt) : lossesOf ints = 0 := by
  have hnone : (ints.filter fun i => i.toInt < 0) = [] :=
    List.filter_eq_nil_iff.mpr fun i hi => by simpa using h i hi
  rw [lossesOf, hnone, totalOf_nil]

theorem totalOf_eq_gains_losses (ints : List Int64) : totalOf ints = gainsOf ints + lossesOf ints := by
  induction ints with
  | nil => rfl
  | cons i ints ih =>
      rw [totalOf_cons, gainsOf_cons, lossesOf_cons, ih]
      omega

/-- The terms may come with the gains in front, or with the losses. -/
theorem signs_perm (ints : List Int64) :
    ((ints.filter fun i => 0 ≤ i.toInt) ++ ints.filter fun i => i.toInt < 0).Perm ints ∧
      ((ints.filter fun i => i.toInt < 0) ++ ints.filter fun i => 0 ≤ i.toInt).Perm ints := by
  have hsigns := List.filter_append_perm (fun i : Int64 => decide (0 ≤ i.toInt)) ints
  simp only [← decide_not, not_le] at hsigns
  exact ⟨hsigns, List.perm_append_comm.trans hsigns⟩

/-- Every partial sum is between the losses and the gains. -/
theorem totalOf_prefix_range (h : front <+: ints) :
    lossesOf ints ≤ totalOf front ∧ totalOf front ≤ gainsOf ints := by
  induction ints generalizing front with
  | nil =>
      rw [List.prefix_nil.mp h]
      exact ⟨le_rfl, le_rfl⟩
  | cons i ints ih =>
      rw [gainsOf_cons, lossesOf_cons]
      rcases List.prefix_cons_iff.mp h with rfl | ⟨rest, rfl, hrest⟩
      · have hnone := ih List.nil_prefix
        rw [totalOf_nil] at hnone ⊢
        omega
      · have hrange := ih hrest
        rw [totalOf_cons]
        omega

/-! ## Partial sums -/

/-- Whether the partial sums from some number on have 64 bits. -/
def PartialSumsFit (start : ℤ) (ints : List Int64) : Prop :=
  ∀ front, front <+: ints → InInt64 (start + totalOf front)

theorem PartialSumsFit.start {start : ℤ} (h : PartialSumsFit start ints) : InInt64 start := by
  simpa using h [] List.nil_prefix

theorem PartialSumsFit.total {start : ℤ} (h : PartialSumsFit start ints) :
    InInt64 (start + totalOf ints) :=
  h ints List.prefix_rfl

theorem partialSumsFit_cons {start : ℤ} {i : Int64} :
    PartialSumsFit start (i :: ints) ↔ InInt64 start ∧ PartialSumsFit (start + i.toInt) ints := by
  constructor
  · intro h
    refine ⟨h.start, fun front hfront => ?_⟩
    have hsum := h (i :: front) (List.cons_prefix_cons.mpr ⟨rfl, hfront⟩)
    rwa [totalOf_cons, ← add_assoc] at hsum
  · rintro ⟨hstart, hrest⟩ front hfront
    rcases List.prefix_cons_iff.mp hfront with rfl | ⟨rest, rfl, hprefix⟩
    · simpa using hstart
    · rw [totalOf_cons, ← add_assoc]
      exact hrest rest hprefix

/-- If the gains alone fit and the losses alone, every partial sum does. -/
theorem partialSumsFit_of_gains_losses {start : ℤ} (gains : InInt64 (start + gainsOf ints))
    (losses : InInt64 (start + lossesOf ints)) : PartialSumsFit start ints := by
  intro front hfront
  have hrange := totalOf_prefix_range hfront
  rw [inInt64_iff] at gains losses ⊢
  omega

/-- The gains and the losses are partial sums in the orders with the gains and with the losses in front. So
they fit if the partial sums do in every order, and only they need to. -/
theorem partialSumsFit_perm_iff : (∀ is : List Int64, is.Perm ints → PartialSumsFit 0 is) ↔
    InInt64 (gainsOf ints) ∧ InInt64 (lossesOf ints) := by
  constructor
  · intro hfit
    obtain ⟨hgains, hlosses⟩ := signs_perm ints
    have gains := hfit _ hgains _ (List.prefix_append _ _)
    have losses := hfit _ hlosses _ (List.prefix_append _ _)
    rw [zero_add] at gains losses
    exact ⟨gains, losses⟩
  · rintro ⟨gains, losses⟩ is hperm
    refine partialSumsFit_of_gains_losses ?_ ?_
    · rwa [zero_add, gainsOf_perm hperm]
    · rwa [zero_add, lossesOf_perm hperm]

/-- Where the first number and the whole sum fit, the terms have an order in which all partial sums do:
at each turn a term is taken that leads back toward zero. -/
theorem exists_fitting_order {start : ℤ} (hstart : InInt64 start)
    (htotal : InInt64 (start + totalOf ints)) : ∃ is, is.Perm ints ∧ PartialSumsFit start is := by
  induction hlength : ints.length generalizing ints start with
  | zero =>
      obtain rfl := List.eq_nil_of_length_eq_zero hlength
      refine ⟨[], .refl _, ?_⟩
      intro front hfront
      rw [List.prefix_nil.mp hfront]
      exact htotal
  | succ n ih =>
      -- a term that may come first is followed by an order of the others
      have hfirst : ∀ i ∈ ints, InInt64 (start + i.toInt) →
          ∃ is, is.Perm ints ∧ PartialSumsFit start is := by
        intro i hi hnext
        have hperm := List.perm_cons_erase hi
        have hrest : InInt64 (start + i.toInt + totalOf (ints.erase i)) := by
          rwa [add_assoc, ← totalOf_cons, totalOf_perm hperm.symm]
        have hshort : (ints.erase i).length = n := by
          rw [List.length_erase_of_mem hi, hlength, Nat.add_sub_cancel]
        obtain ⟨is, horder, hfit⟩ := ih hnext hrest hshort
        exact ⟨i :: is, (horder.cons i).trans hperm.symm, partialSumsFit_cons.mpr ⟨hstart, hfit⟩⟩
      rw [totalOf_eq_gains_losses] at htotal
      rw [inInt64_iff] at hstart
      rcases lt_or_ge start 0 with hneg | hpos
      · by_cases hgain : ∃ i ∈ ints, 0 ≤ i.toInt
        · obtain ⟨i, hi, hsign⟩ := hgain
          have hrange := (inInt64_iff _).mp (inInt64_toInt i)
          exact hfirst i hi ((inInt64_iff _).mpr (by omega))
        · have hgains : gainsOf ints = 0 := gainsOf_eq_zero (by simpa using hgain)
          rw [hgains, zero_add] at htotal
          refine ⟨ints, .refl _, partialSumsFit_of_gains_losses ?_ htotal⟩
          rwa [hgains, add_zero]
      · by_cases hloss : ∃ i ∈ ints, i.toInt < 0
        · obtain ⟨i, hi, hsign⟩ := hloss
          have hrange := (inInt64_iff _).mp (inInt64_toInt i)
          exact hfirst i hi ((inInt64_iff _).mpr (by omega))
        · have hlosses : lossesOf ints = 0 := lossesOf_eq_zero (by simpa using hloss)
          rw [hlosses, add_zero] at htotal
          refine ⟨ints, .refl _, partialSumsFit_of_gains_losses htotal ?_⟩
          rwa [hlosses, add_zero]

/-- The running total is exact, as long as it fits. -/
theorem sumInts?_eq_some_iff {start k : Int64} :
    sumInts? start ints = some k ↔
      PartialSumsFit start.toInt ints ∧ k.toInt = start.toInt + totalOf ints := by
  induction ints generalizing start with
  | nil =>
      have hstart : InInt64 (start.toInt + 0) := (add_zero start.toInt).symm ▸ inInt64_toInt start
      have hfit : PartialSumsFit start.toInt [] := partialSumsFit_of_gains_losses hstart hstart
      rw [sumInts?, totalOf_nil, add_zero, Option.some.injEq, Int64.toInt_inj]
      exact ⟨fun h => ⟨hfit, h.symm⟩, fun h => h.2.symm⟩
  | cons i ints ih =>
      rw [sumInts?, partialSumsFit_cons, totalOf_cons, ← add_assoc]
      cases hnext : exactInt64? (start.toInt + i.toInt) with
      | none =>
          refine iff_of_false nofun ?_
          rintro ⟨⟨-, hfit⟩, -⟩
          exact exactInt64?_eq_none_iff.mp hnext hfit.start
      | some next =>
          rw [Option.bind_some, ih, exactInt64?_eq_some_iff.mp hnext]
          exact ⟨fun h => ⟨⟨inInt64_toInt start, h.1⟩, h.2⟩, fun h => ⟨h.1.2, h.2⟩⟩

/-! ## The sum of a column -/

theorem allInts?_ints (is : List Int64) : allInts? (is.map .int) = some is := by
  induction is with
  | nil => rfl
  | cons i is ih => rw [List.map_cons, allInts?, ih, Option.map_some]

theorem aggregateValues_sum_ints (nonempty : is ≠ []) :
    aggregateValues .sum (is.map .int) =
      (sumInts? 0 is).elim (.float (sumFloats (is.map Binary64.ofInt64))) .int := by
  have hpresent : (is.map Value.int).filter (fun v => !v.isNull) = is.map .int :=
    List.filter_eq_self.mpr fun v hv => by
      obtain ⟨i, -, rfl⟩ := List.mem_map.mp hv
      rfl
  have hnumbers : (is.map Value.int).filter Value.isNumeric = is.map .int :=
    List.filter_eq_self.mpr fun v hv => by
      obtain ⟨i, -, rfl⟩ := List.mem_map.mp hv
      rfl
  have hfloats : (is.map Value.int).filterMap Value.toFloat? = is.map Binary64.ofInt64 := by
    rw [List.filterMap_map, ← List.filterMap_eq_map]
    rfl
  have hsome : (is.map Value.int).isEmpty = false := by
    rw [List.isEmpty_eq_false_iff]
    simpa using nonempty
  simp only [aggregateValues, sumValues, hpresent, hnumbers, hsome, hfloats, allInts?_ints,
    Option.bind_some, Bool.false_eq_true, if_false]
  cases sumInts? 0 is <;> rfl

/-- The value of a sum whose terms come in this order: the exact integer if all partial sums fit, and the
sum of the doubles otherwise. -/
structure SummedInOrder (is : List Int64) (v : Value) : Prop where
  integer : ∀ k : Int64, v = .int k ↔ PartialSumsFit 0 is ∧ k.toInt = totalOf is
  double : ¬PartialSumsFit 0 is → v = .float (sumFloats (is.map Binary64.ofInt64))

/-- An order gives the exact sum if its partial sums fit. -/
theorem SummedInOrder.eq_int_iff {v : Value} {k : Int64} (h : SummedInOrder is v) (hperm : is.Perm ints)
    (hk : k.toInt = totalOf ints) : v = .int k ↔ PartialSumsFit 0 is := by
  rw [h.integer k, totalOf_perm hperm]
  exact and_iff_left hk

theorem summedInOrder (nonempty : is ≠ []) :
    SummedInOrder is (aggregateValues .sum (is.map .int)) := by
  have hsum : ∀ k, sumInts? 0 is = some k ↔ PartialSumsFit 0 is ∧ k.toInt = totalOf is := by
    intro k
    rw [sumInts?_eq_some_iff]
    simp
  rw [aggregateValues_sum_ints nonempty]
  cases htotal : sumInts? 0 is with
  | none =>
      constructor
      case integer =>
        intro k
        rw [← hsum, htotal]
        exact iff_of_false nofun nofun
      case double => exact fun _ => rfl
  | some total =>
      constructor
      case integer =>
        intro k
        rw [← hsum, htotal]
        simp
      case double => exact fun h => absurd ((hsum total).mp htotal).1 h

/-- A sum of integers is exact if the partial sums fit, in the order in which the terms come. It is the same
in every order, and exact, if the terms that are not negative have a sum that fits, and the negative ones.
Of the sums that fit only these are the same in every order. -/
theorem sum_order_independent_iff (ints : List Int64) (nonempty : ints ≠ []) :
    (∀ is : List Int64, is.Perm ints → SummedInOrder is (aggregateValues .sum (is.map .int))) ∧
    (InInt64 (gainsOf ints) → InInt64 (lossesOf ints) → ∃ k : Int64, k.toInt = totalOf ints ∧
      ∀ is : List Int64, is.Perm ints → aggregateValues .sum (is.map .int) = .int k) ∧
    (InInt64 (totalOf ints) →
      ((∀ is : List Int64, is.Perm ints →
          aggregateValues .sum (is.map .int) = aggregateValues .sum (ints.map .int)) ↔
        InInt64 (gainsOf ints) ∧ InInt64 (lossesOf ints))) := by
  have hordered : ∀ is : List Int64, is.Perm ints →
      SummedInOrder is (aggregateValues .sum (is.map .int)) := by
    intro is hperm
    refine summedInOrder ?_
    rintro rfl
    exact nonempty hperm.nil_eq.symm
  have hfitting : InInt64 (gainsOf ints) → InInt64 (lossesOf ints) → ∃ k : Int64,
      k.toInt = totalOf ints ∧
        ∀ is : List Int64, is.Perm ints → aggregateValues .sum (is.map .int) = .int k := by
    intro gains losses
    have hfit := partialSumsFit_perm_iff.mpr ⟨gains, losses⟩
    have htotal := (hfit ints (.refl _)).total
    rw [zero_add] at htotal
    have hk := toInt_ofInt htotal
    exact ⟨_, hk, fun is hperm => ((hordered is hperm).eq_int_iff hperm hk).mpr (hfit is hperm)⟩
  refine ⟨hordered, hfitting, fun htotal => ⟨fun hsame => ?_, ?_⟩⟩
  · -- some order gives the exact sum, so all of them do
    obtain ⟨is, hperm, hfit⟩ := @exists_fitting_order ints 0 (by decide) (by rwa [zero_add])
    have hk := toInt_ofInt htotal
    have hsum := ((hordered is hperm).eq_int_iff hperm hk).mpr hfit
    refine partialSumsFit_perm_iff.mp fun js hjs => ((hordered js hjs).eq_int_iff hjs hk).mp ?_
    rw [hsame js hjs, ← hsame is hperm, hsum]
  · rintro ⟨gains, losses⟩ is hperm
    obtain ⟨k, -, hk⟩ := hfitting gains losses
    rw [hk is hperm, hk ints (.refl _)]

/-- Terms near the upper end of the range, of which the negative one comes last. -/
theorem sum_order_independent_iff_greatest :
    aggregateValues .sum ([9223372036854775800, 7, -5].map .int) = .int 9223372036854775802 := by
  obtain ⟨-, hfitting, -⟩ := sum_order_independent_iff [7, -5, 9223372036854775800] (by decide)
  obtain ⟨k, hk, hsum⟩ := hfitting (by decide) (by decide)
  have htotal : k = 9223372036854775802 := Int64.toInt_inj.mp (hk.trans (by decide))
  rw [hsum _ (by decide), htotal]

/-- A partial sum that does not fit makes a double of a sum that does, in one order of the terms and not in
another. Sums of doubles that do not fit differ in the last place. -/
theorem order_decides_sum :
    (aggregateValues .sum ([9223372036854775807, 1, -1].map .int) = .float 9223372036854775808 ∧
      aggregateValues .sum ([1, -1, 9223372036854775807].map .int) = .int 9223372036854775807) ∧
    aggregateValues .sum ([9223372036854775807, 1024, 1024].map .int) = .float 9223372036854775808 ∧
      aggregateValues .sum ([1024, 1024, 9223372036854775807].map .int) = .float 9223372036854777856 := by
  decide +kernel

end RowPipeline
