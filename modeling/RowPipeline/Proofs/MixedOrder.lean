import RowPipeline.Proofs.KeyEquality
import RowPipeline.Proofs.SortKeys

/-!
# The order of mixed values

The sorting order turned around is the other way around for all values. It is transitive on the values over
some integers and some doubles other than NaN exactly if none of the doubles is what two of the integers are
rounded to: an integer and a double are compared as doubles, two integers exactly.

With NaN, transitivity is a matter of its sign. An integer comes before NaN, as their keys do, but a double
and NaN are compared by their bits, and those of a NaN with a sign come before all others.
-/

namespace RowPipeline

namespace Value

/-! ## Numbers -/

/-- Every integer, and every double but NaN. -/
def IsNumber : Value → Prop
  | .int _ => True
  | .float x => x.isNaN = false
  | _ => False

/-- The place of a number among the doubles. -/
def numberPlace : Value → ℤ
  | .int i => Binary64.place (Binary64.ofInt64 i)
  | .float x => Binary64.place x
  | _ => 0

theorem compareAtoms_of_some {a b : Value} {order : Ordering} (h : compare? a b = some order) :
    compareAtoms a b = order := by
  unfold compareAtoms
  rw [h]

theorem compareAtoms_of_none {a b : Value} (h : compare? a b = none)
    (mixed : ∀ x y, a = float x → b = float y → False) :
    compareAtoms a b = (compare a.kindRank b.kindRank).then (compare a.canonicalKey b.canonicalKey) := by
  rw [compareAtoms, h]
  exact mixed

theorem compareAtoms_floats_of_none {x y : Float} (h : compare? (float x) (float y) = none) :
    compareAtoms (float x) (float y) = Binary64.totalCompare x y := by
  rw [compareAtoms, h]

/-- Numbers that are not both integers are compared by their places. -/
theorem compare?_numbers {a b : Value} (ha : a.IsNumber) (hb : b.IsNumber)
    (mixed : ∀ i k, a = int i → b = int k → False) :
    compare? a b = some (compare a.numberPlace b.numberPlace) := by
  have hdoubles : ∀ {x y : Float}, x.isNaN = false → y.isNaN = false →
      Binary64.compare? x y = some (compare (Binary64.place x) (Binary64.place y)) := by
    intro x y hx hy
    rw [Binary64.compare?_eq, hx, hy]
    rfl
  cases a with
  | int i =>
      cases b with
      | int k => exact (mixed i k rfl rfl).elim
      | float y => exact hdoubles (Binary64.isNaN_ofInt64 i) hb
      | _ => exact hb.elim
  | float x =>
      cases b with
      | int k => exact hdoubles ha (Binary64.isNaN_ofInt64 k)
      | float y => exact hdoubles ha hb
      | _ => exact hb.elim
  | _ => exact ha.elim

theorem totalCompare_of_kindRank_two {a b : Value} (h : a.kindRank = 2) :
    a.totalCompare b = compareAtoms a b :=
  totalCompare_eq_compareAtoms fun h' => absurd (h.symm.trans h') (by decide)

theorem kindRank_of_isNumber {a : Value} (h : a.IsNumber) : a.kindRank = 2 := by
  cases a <;> first | rfl | exact h.elim

/-- One number does not come after another if its place does not and, where both are integers, it is not
greater. -/
theorem totalCompare_isLE_iff {a b : Value} (ha : a.IsNumber) (hb : b.IsNumber) :
    (a.totalCompare b).isLE = true ↔
      a.numberPlace ≤ b.numberPlace ∧ ∀ i k, a = int i → b = int k → i.toInt ≤ k.toInt := by
  by_cases mixed : ∀ i k, a = int i → b = int k → False
  · rw [totalCompare_of_kindRank_two (kindRank_of_isNumber ha),
      compareAtoms_of_some (compare?_numbers ha hb mixed), Int.isLE_compare]
    exact (and_iff_left fun i k hi hk => (mixed i k hi hk).elim).symm
  · push Not at mixed
    obtain ⟨i, k, rfl, rfl, -⟩ := mixed
    show (compare i.toInt k.toInt).isLE = true ↔ _
    rw [Int.isLE_compare]
    constructor
    · intro hle
      refine ⟨Binary64.place_ofInt64_mono hle, ?_⟩
      rintro _ _ ⟨⟩ ⟨⟩
      exact hle
    · exact fun h => h.2 i k rfl rfl

/-! ## NaN -/

/-- The key of an integer comes before that of a double that is no number. -/
theorem compare_int_null (i : Int64) :
    compare (int i).canonicalKey null.canonicalKey = Ordering.lt := by
  obtain ⟨c, cs, hcs⟩ := List.exists_cons_of_ne_nil (Decimal.toString_int_ne_nil i.toInt)
  have hnumber := Json.numberChars_int i.toInt c (hcs ▸ List.mem_cons_self)
  have hc : c < 'n' := by
    simp only [Json.isNumberChar, Text.isAsciiDigit, Bool.or_eq_true, Bool.and_eq_true,
      decide_eq_true_eq, beq_iff_eq] at hnumber
    rcases hnumber with (((⟨-, hdigit⟩ | rfl) | rfl) | rfl) | rfl
    · exact UInt32.lt_of_le_of_lt hdigit (by decide)
    · decide
    · decide
    · decide
    · decide
  have hlt : (int i).canonicalKey < null.canonicalKey := by
    rw [String.lt_iff]
    show (toString i.toInt).toList < 'n' :: _
    rw [hcs]
    exact List.cons_lt_cons_iff.mpr (.inl hc)
  exact if_pos hlt

theorem canonicalKey_of_isNaN {x : Float} (hx : x.isNaN = true) :
    (float x).canonicalKey = null.canonicalKey := by
  rw [canonicalKey_eq_iff]
  refine keyForm_float_eq_null.mpr (Bool.eq_false_iff.mpr fun hfinite => ?_)
  rw [Binary64.isNaN_of_isFinite hfinite] at hx
  cases hx

/-- An integer is not comparable with NaN and comes before it by its key. -/
theorem totalCompare_int_nan (i : Int64) {x : Float} (hx : x.isNaN = true) :
    (int i).totalCompare (float x) = .lt := by
  have hcompare : compare? (int i) (float x) = none := by
    show Binary64.compare? (Binary64.ofInt64 i) x = _
    rw [Binary64.compare?_eq, hx, Bool.or_true]
    rfl
  rw [totalCompare_of_kindRank_two rfl, compareAtoms_of_none hcompare nofun, canonicalKey_of_isNaN hx,
    compare_int_null]
  rfl

/-- With a NaN that has a sign the order goes round in a circle: from a double to an integer that is no
smaller, from there to NaN by their keys, and from the bits of NaN to those of the double. -/
theorem circle_of_signed_nan {x nan : Float} {i : Int64} {bits : UInt64} (hx : x.isNaN = false)
    (hnan : nan.isNaN = true) (signed : 0xfff0000000000000 < bits.toNat)
    (hle : Binary64.place x ≤ Binary64.place (Binary64.ofInt64 i)) :
    ((float x).totalCompare (int i)).isLE = true ∧ (int i).totalCompare (float nan) = .lt ∧
      Binary64.orderKey bits < Binary64.orderKey x.toBits := by
  have hnumber : (float x).IsNumber := hx
  have hint : (int i).IsNumber := trivial
  refine ⟨?_, totalCompare_int_nan i hnan, Binary64.orderKey_lt_of_signed signed hx⟩
  exact (totalCompare_isLE_iff hnumber hint).mpr ⟨hle, nofun⟩

/-! ## Reversal -/

/-- The order of integers and doubles turned around, NaN included, wherever its bits put it. -/
theorem compareAtoms_swap {a b : Value} (ha : a.kindRank = 2) (hb : b.kindRank = 2) :
    compareAtoms b a = (compareAtoms a b).swap := by
  have hcompare : compare? b a = (compare? a b).map Ordering.swap := by
    cases a <;> cases ha <;> cases b <;> cases hb
    · exact congrArg some Std.OrientedCmp.eq_swap
    · exact Binary64.compare?_swap _ _
    · exact Binary64.compare?_swap _ _
    · exact Binary64.compare?_swap _ _
  cases hab : compare? a b with
  | some order =>
      rw [hab] at hcompare
      rw [compareAtoms_of_some hab, compareAtoms_of_some hcompare]
  | none =>
      rw [hab] at hcompare
      by_cases hfloats : ∃ x y, a = float x ∧ b = float y
      · obtain ⟨x, y, rfl, rfl⟩ := hfloats
        rw [compareAtoms_floats_of_none hab, compareAtoms_floats_of_none hcompare]
        exact Binary64.totalCompare_swap x y
      · have hno : ∀ x y, a = float x → b = float y → False :=
          fun x y hx hy => hfloats ⟨x, y, hx, hy⟩
        rw [compareAtoms_of_none hab hno, compareAtoms_of_none hcompare fun x y hx hy => hno y x hy hx,
          Ordering.swap_then]
        congr 1 <;> exact Std.OrientedCmp.eq_swap

mutual

/-- The sorting order turned around is the other way around. -/
theorem totalCompare_swap (a b : Value) : b.totalCompare a = (a.totalCompare b).swap := by
  by_cases hrank : a.kindRank = b.kindRank
  · cases a with
    | array as =>
        cases b <;> cases hrank
        exact compareItems_swap as _
    | int | float =>
        rw [totalCompare_of_kindRank_two hrank.symm, totalCompare_of_kindRank_two rfl]
        exact compareAtoms_swap rfl hrank.symm
    | null | bool | string | object =>
        have hfree : b.FloatFree := by
          cases b <;> first | trivial | cases hrank
        exact comparesOn_totalCompare.swap _ b trivial hfree
  · rw [totalCompare_of_kindRank_ne hrank, totalCompare_of_kindRank_ne (Ne.symm hrank)]
    exact Std.OrientedCmp.eq_swap
termination_by structural a

theorem compareItems_swap (as bs : List Value) : compareItems bs as = (compareItems as bs).swap := by
  cases as with
  | nil => cases bs <;> rfl
  | cons a as =>
      cases bs with
      | nil => rfl
      | cons b bs =>
          rw [compareItems, compareItems, Ordering.swap_then, totalCompare_swap a b,
            compareItems_swap as bs]
termination_by structural as

end

/-! ## Transitivity -/

mutual

/-- A value over some integers and doubles, in arrays too. What is in an object does not count, which is
compared by its key. -/
def Over (I : Int64 → Prop) (F : Float → Prop) : Value → Prop
  | .int i => I i
  | .float x => F x
  | .array items => OverItems I F items
  | .null | .bool _ | .string _ | .object _ => True

def OverItems (I : Int64 → Prop) (F : Float → Prop) : List Value → Prop
  | [] => True
  | v :: rest => v.Over I F ∧ OverItems I F rest

end

/-- No double is what two of the integers are rounded to. -/
def Separated (I : Int64 → Prop) (F : Float → Prop) : Prop :=
  ∀ i k x, I i → I k → F x → (Binary64.ofInt64 i == x) = true → (Binary64.ofInt64 k == x) = true →
    i = k

variable {I : Int64 → Prop} {F : Float → Prop}

theorem overItems_iff (items : List Value) : OverItems I F items ↔ ∀ v ∈ items, v.Over I F := by
  induction items with
  | nil => simp [OverItems]
  | cons v rest ih => simp [OverItems, ih]

/-- Between two integers stands a double only if the first one is not greater. -/
theorem le_of_between (h : Separated I F) {i k : Int64} {x : Float} (hi : I i) (hk : I k) (hx : F x)
    (number : x.isNaN = false) (hix : (int i).numberPlace ≤ (float x).numberPlace)
    (hxk : (float x).numberPlace ≤ (int k).numberPlace) : i.toInt ≤ k.toInt := by
  by_contra hless
  have hmono : (int k).numberPlace ≤ (int i).numberPlace :=
    Binary64.place_ofInt64_mono (Int.le_of_lt (Int.not_le.mp hless))
  have hequal : ∀ m : Int64, (int m).numberPlace = (float x).numberPlace →
      (Binary64.ofInt64 m == x) = true := fun m hm =>
    (Binary64.beq_iff_place _ _).mpr ⟨Binary64.isNaN_ofInt64 m, number, hm⟩
  obtain rfl := h i k x hi hk hx (hequal i (by omega)) (hequal k (by omega))
  exact hless (Int.le_refl _)

theorem isNumber_of_over (numbers : ∀ x, F x → x.isNaN = false) {v : Value} (hv : v.Over I F)
    (hrank : v.kindRank = 2) : v.IsNumber := by
  cases v with
  | int i => trivial
  | float x => exact numbers x hv
  | _ => cases hrank

theorem comparesOn_over (numbers : ∀ x, F x → x.isNaN = false) (h : Separated I F) :
    ComparesOn (Over I F) totalCompare := by
  refine comparesOn_of_numbers (fun as => (overItems_iff as).mp) ⟨?_, ?_⟩
  · exact fun a b ha hb => totalCompare_swap a b
  · intro a b c ha hb hc hab hbc
    have hnumber : ∀ {v : Value}, v.Over I F ∧ v.kindRank = 2 → v.IsNumber :=
      fun hv => isNumber_of_over numbers hv.1 hv.2
    rw [totalCompare_isLE_iff (hnumber ha) (hnumber hb)] at hab
    rw [totalCompare_isLE_iff (hnumber hb) (hnumber hc)] at hbc
    rw [totalCompare_isLE_iff (hnumber ha) (hnumber hc)]
    refine ⟨hab.1.trans hbc.1, ?_⟩
    rintro i k rfl rfl
    obtain ⟨hb, hrank⟩ := hb
    cases b with
    | int m => exact (hab.2 i m rfl rfl).trans (hbc.2 m k rfl rfl)
    | float x => exact le_of_between h ha.1 hc.1 hb (numbers x hb) hab.1 hbc.1
    | _ => cases hrank

theorem separated_of_isLE_trans (h : ∀ a b c : Value, a.Over I F → b.Over I F → c.Over I F →
    (a.totalCompare b).isLE = true → (b.totalCompare c).isLE = true → (a.totalCompare c).isLE = true) :
    Separated I F := by
  intro i k x hi hk hx hix hkx
  obtain ⟨-, number, hplace⟩ := (Binary64.beq_iff_place _ _).mp hix
  obtain ⟨-, -, hplace'⟩ := (Binary64.beq_iff_place _ _).mp hkx
  have hle : ∀ {m n : Int64}, I m → I n → (int m).numberPlace = (float x).numberPlace →
      (int n).numberPlace = (float x).numberPlace → m.toInt ≤ n.toInt := by
    intro m n hm hn hmx hnx
    have hint : ∀ i : Int64, (int i).IsNumber := fun _ => trivial
    have hfloat : (float x).IsNumber := number
    have hmn := h (int m) (float x) (int n) hm hx hn
      ((totalCompare_isLE_iff (hint m) hfloat).mpr ⟨hmx.le, nofun⟩)
      ((totalCompare_isLE_iff hfloat (hint n)).mpr ⟨hnx.ge, nofun⟩)
    exact ((totalCompare_isLE_iff (hint m) (hint n)).mp hmn).2 m n rfl rfl
  exact Int64.toInt_inj.mp (Int.le_antisymm (hle hi hk hplace hplace') (hle hk hi hplace' hplace))

theorem compareNullsLast_swap (a b : Value) :
    b.compareNullsLast a = (a.compareNullsLast b).swap := by
  rw [compareNullsLast, compareNullsLast]
  cases a.isNull <;> cases b.isNull <;> first | rfl | exact totalCompare_swap a b

theorem compareDirected_swap (descending : Bool) (a b : Value) :
    compareDirected descending b a = (compareDirected descending a b).swap := by
  cases descending with
  | false => exact compareNullsLast_swap a b
  | true => exact congrArg Ordering.swap (compareNullsLast_swap a b)

end Value

theorem compareSortKeys_swap (as bs : List Value) (directions : List Bool) :
    compareSortKeys bs as directions = (compareSortKeys as bs directions).swap := by
  induction directions generalizing as bs with
  | nil => cases as <;> cases bs <;> rfl
  | cons descending directions ih =>
      cases as with
      | nil => cases bs <;> rfl
      | cons a as =>
          cases bs with
          | nil => rfl
          | cons b bs =>
              rw [compareSortKeys_cons, compareSortKeys_cons, Ordering.swap_then,
                Value.compareDirected_swap descending a b, ih as bs]

/-- Turned around, values and sort keys are compared the other way around. Not being greater is
transitive on the values over some integers and some doubles other than NaN exactly if none of these doubles
is what two of the integers are rounded to, and then it is so on sort keys of one length, whatever the
directions. -/
theorem total_preorder_iff_separated (I : Int64 → Prop) (F : Float → Prop)
    (numbers : ∀ x, F x → x.isNaN = false) :
    (∀ a b : Value, b.totalCompare a = (a.totalCompare b).swap) ∧
    (∀ (as bs : List Value) (directions : List Bool),
      compareSortKeys bs as directions = (compareSortKeys as bs directions).swap) ∧
    ((∀ a b c : Value, a.Over I F → b.Over I F → c.Over I F → (a.totalCompare b).isLE = true →
        (b.totalCompare c).isLE = true → (a.totalCompare c).isLE = true) ↔ Value.Separated I F) ∧
    (Value.Separated I F → ∀ (directions : List Bool) (as bs cs : List Value),
      as.length = bs.length → bs.length = cs.length →
      (∀ v ∈ as, v.Over I F) → (∀ v ∈ bs, v.Over I F) → (∀ v ∈ cs, v.Over I F) →
      (compareSortKeys as bs directions).isLE = true →
      (compareSortKeys bs cs directions).isLE = true →
        (compareSortKeys as cs directions).isLE = true) := by
  refine ⟨Value.totalCompare_swap, compareSortKeys_swap, ⟨?_, ?_⟩, ?_⟩
  · exact Value.separated_of_isLE_trans
  · intro separated a b c ha hb hc
    exact (Value.comparesOn_over numbers separated).isLE_trans a b c ha hb hc
  · intro separated directions as bs cs hab hbc has hbs hcs
    have hkeys := comparesOn_keys (Value.comparesOn_over numbers separated) directions as.length
    exact hkeys.isLE_trans as bs cs ⟨rfl, has⟩ ⟨hab.symm, hbs⟩ ⟨(hab.trans hbc).symm, hcs⟩

theorem total_preorder_iff_separated_halves :
    let I := fun i : Int64 => i = 1 ∨ i = 3
    let F := fun x : Float => x = 1.5
    (∀ x, F x → x.isNaN = false) ∧ Value.Separated I F ∧
      (compareSortKeys [.int 1, .float 1.5] [.float 1.5, .null] [false, true]).isLE = true ∧
      (compareSortKeys [.float 1.5, .null] [.int 3, .float 1.5] [false, true]).isLE = true ∧
      (compareSortKeys [.int 1, .float 1.5] [.int 3, .float 1.5] [false, true]).isLE = true := by
  intro I F
  have hnumbers : ∀ x, F x → x.isNaN = false := by
    rintro x rfl
    decide +kernel
  have hseparated : Value.Separated I F := by
    rintro i k x (rfl | rfl) - rfl hix
    · exact absurd hix (by decide +kernel)
    · exact absurd hix (by decide +kernel)
  have hfirst : (compareSortKeys [.int 1, .float 1.5] [.float 1.5, .null] [false, true]).isLE = true := by
    decide +kernel
  have hsecond : (compareSortKeys [.float 1.5, .null] [.int 3, .float 1.5] [false, true]).isLE = true := by
    decide +kernel
  refine ⟨hnumbers, hseparated, hfirst, hsecond, ?_⟩
  obtain ⟨-, -, -, hkeys⟩ := total_preorder_iff_separated I F hnumbers
  refine hkeys hseparated [false, true] _ _ _ rfl rfl ?_ ?_ ?_ hfirst hsecond
  · simp [Value.Over, I, F]
  · simp [Value.Over, I, F]
  · simp [Value.Over, I, F]

/-- A double stands between two integers that are rounded to it, in both orders. -/
theorem rounded_order_intransitive :
    let a := Value.int 9007199254740993
    let b := Value.float 9007199254740992
    let c := Value.int 9007199254740992
    (a.totalCompare b).isLE = true ∧ (b.totalCompare c).isLE = true ∧
      (a.totalCompare c).isLE = false := by
  decide +kernel

end RowPipeline
