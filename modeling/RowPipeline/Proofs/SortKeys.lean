import Mathlib.Data.List.Nodup
import RowPipeline.Expr.Window
import RowPipeline.Proofs.Sorting

/-!
# The order of sort keys

Values without doubles are put in order by their types and then by their own order, and lists of them
place by place. A sort key reads the same order forwards or backwards, with nulls last or first. All of
these are weak orders, so that a sort by them is stable and there is only one.
-/

namespace RowPipeline

variable {α β : Type}

/-! ## Comparisons -/

/-- A comparison of the elements with a property: turned around it is the other way around, and what
is not greater goes on. -/
structure ComparesOn (P : α → Prop) (cmp : α → α → Ordering) : Prop where
  swap : ∀ a b, P a → P b → cmp b a = (cmp a b).swap
  isLE_trans : ∀ a b c, P a → P b → P c → (cmp a b).isLE → (cmp b c).isLE → (cmp a c).isLE

namespace ComparesOn

variable {P Q : α → Prop} {cmp other : α → α → Ordering}

theorem mono (h : ComparesOn Q cmp) (sub : ∀ a, P a → Q a) : ComparesOn P cmp :=
  ⟨fun a b ha hb => h.swap a b (sub a ha) (sub b hb),
    fun a b c ha hb hc => h.isLE_trans a b c (sub a ha) (sub b hb) (sub c hc)⟩

theorem congr (h : ComparesOn P other) (same : ∀ a b, P a → P b → cmp a b = other a b) :
    ComparesOn P cmp := by
  constructor
  · intro a b ha hb
    rw [same a b ha hb, same b a hb ha]
    exact h.swap a b ha hb
  · intro a b c ha hb hc
    rw [same a b ha hb, same b c hb hc, same a c ha hc]
    exact h.isLE_trans a b c ha hb hc

theorem of_transCmp [Std.TransCmp cmp] : ComparesOn P cmp :=
  ⟨fun _ _ _ _ => Std.OrientedCmp.eq_swap, fun _ _ _ _ _ _ => Std.TransCmp.isLE_trans⟩

theorem flip (h : ComparesOn P cmp) : ComparesOn P fun a b => (cmp a b).swap := by
  constructor
  · intro a b ha hb
    rw [h.swap a b ha hb]
  · intro a b c ha hb hc
    rw [← h.swap a b ha hb, ← h.swap b c hb hc, ← h.swap a c ha hc]
    exact fun hab hbc => h.isLE_trans c b a hc hb ha hbc hab

theorem tied (h : ∀ a b, P a → P b → cmp a b = .eq) : ComparesOn P cmp := by
  constructor
  · intro a b ha hb
    rw [h a b ha hb, h b a hb ha]
    rfl
  · intro a b c ha _ hc _ _
    rw [h a c ha hc]
    rfl

/-- The elements with a property are those that are built from others. -/
theorem image {β : Type} {R : β → Prop} {f : β → α} (h : ComparesOn R fun x y => cmp (f x) (f y))
    (built : ∀ a, P a → ∃ x, R x ∧ f x = a) : ComparesOn P cmp := by
  constructor
  · intro a b ha hb
    obtain ⟨x, hx, rfl⟩ := built a ha
    obtain ⟨y, hy, rfl⟩ := built b hb
    exact h.swap x y hx hy
  · intro a b c ha hb hc
    obtain ⟨x, hx, rfl⟩ := built a ha
    obtain ⟨y, hy, rfl⟩ := built b hb
    obtain ⟨z, hz, rfl⟩ := built c hc
    exact h.isLE_trans x y z hx hy hz

/-- Elements of different rank are told apart by it, those of one rank by the comparison. -/
theorem graded (rank : α → Nat)
    (apart : ∀ a b, P a → P b → rank a ≠ rank b → cmp a b = compare (rank a) (rank b))
    (within : ∀ k, ComparesOn (fun a => P a ∧ rank a = k) cmp) : ComparesOn P cmp := by
  constructor
  · intro a b ha hb
    by_cases hrank : rank a = rank b
    · exact (within (rank b)).swap a b ⟨ha, hrank⟩ ⟨hb, rfl⟩
    · rw [apart a b ha hb hrank, apart b a hb ha (Ne.symm hrank)]
      exact Std.OrientedCmp.eq_swap
  · intro a b c ha hb hc hab hbc
    have hle : ∀ a b, P a → P b → (cmp a b).isLE → rank a ≤ rank b := by
      intro a b ha hb hab
      by_cases hrank : rank a = rank b
      · exact Nat.le_of_eq hrank
      · rw [apart a b ha hb hrank] at hab
        exact Nat.isLE_compare.mp hab
    have hleft := hle a b ha hb hab
    have hright := hle b c hb hc hbc
    by_cases hrank : rank a = rank c
    · exact (within (rank c)).isLE_trans a b c ⟨ha, hrank⟩ ⟨hb, by omega⟩ ⟨hc, rfl⟩ hab hbc
    · rw [apart a c ha hc hrank]
      exact Nat.isLE_compare.mpr (Nat.le_trans hleft hright)

theorem isLE_of_ne_lt (h : ComparesOn P cmp) {a b : α} (ha : P a) (hb : P b)
    (hab : cmp a b ≠ .lt) : (cmp b a).isLE := by
  rw [h.swap a b ha hb]
  cases hcmp : cmp a b with
  | lt => exact absurd hcmp hab
  | eq => rfl
  | gt => rfl

theorem not_isLE_of_lt (h : ComparesOn P cmp) {a b : α} (ha : P a) (hb : P b)
    (hab : cmp a b = .lt) : ¬ (cmp b a).isLE := by
  rw [h.swap a b ha hb, hab]
  exact Bool.false_ne_true

theorem lt_of_lt_of_isLE (h : ComparesOn P cmp) {a b c : α} (ha : P a) (hb : P b) (hc : P c)
    (hab : cmp a b = .lt) (hbc : (cmp b c).isLE) : cmp a c = .lt := by
  by_contra hac
  have hca := h.isLE_of_ne_lt ha hc hac
  exact h.not_isLE_of_lt ha hb hab (h.isLE_trans b c a hb hc ha hbc hca)

theorem lt_of_isLE_of_lt (h : ComparesOn P cmp) {a b c : α} (ha : P a) (hb : P b) (hc : P c)
    (hab : (cmp a b).isLE) (hbc : cmp b c = .lt) : cmp a c = .lt := by
  by_contra hac
  have hca := h.isLE_of_ne_lt ha hc hac
  exact h.not_isLE_of_lt hb hc hbc (h.isLE_trans c a b hc ha hb hca hab)

/-- A first place compared before the rest. -/
theorem then_isLE_trans (h : ComparesOn P cmp) {a b c : α} (ha : P a) (hb : P b) (hc : P c)
    {left right whole : Ordering} (rest : left.isLE → right.isLE → whole.isLE)
    (hab : ((cmp a b).then left).isLE) (hbc : ((cmp b c).then right).isLE) :
    ((cmp a c).then whole).isLE := by
  rw [Ordering.isLE_then_iff_or] at hab hbc ⊢
  rcases hab with hab | ⟨hab, hleft⟩
  · have hle : (cmp b c).isLE := by
      rcases hbc with hbc | ⟨hbc, -⟩ <;> rw [hbc] <;> rfl
    exact .inl (h.lt_of_lt_of_isLE ha hb hc hab hle)
  · have hle : (cmp a b).isLE := by rw [hab]; rfl
    rcases hbc with hbc | ⟨hbc, hright⟩
    · exact .inl (h.lt_of_isLE_of_lt ha hb hc hle hbc)
    · have hac := h.isLE_trans a b c ha hb hc hle (by rw [hbc]; rfl)
      cases hcmp : cmp a c with
      | lt => exact .inl rfl
      | eq => exact .inr ⟨rfl, rest hleft hright⟩
      | gt =>
          rw [hcmp] at hac
          cases hac

/-- Pairs, by their first parts before the second. -/
theorem pair {β : Type} {R : β → Prop} {cmp' : β → β → Ordering} (h : ComparesOn P cmp)
    (h' : ComparesOn R cmp') : ComparesOn (fun x : α × β => P x.1 ∧ R x.2) fun x y =>
      (cmp x.1 y.1).then (cmp' x.2 y.2) := by
  constructor
  · intro x y hx hy
    rw [Ordering.swap_then, h.swap x.1 y.1 hx.1 hy.1, h'.swap x.2 y.2 hx.2 hy.2]
  · intro x y z hx hy hz
    exact h.then_isLE_trans hx.1 hy.1 hz.1 (h'.isLE_trans x.2 y.2 z.2 hx.2 hy.2 hz.2)

/-- Being less is a weak order. -/
theorem weakOrderOn {before : α → α → Prop} (h : ComparesOn P cmp)
    (less : ∀ a b, P a → P b → (cmp a b = .lt ↔ before a b)) : WeakOrderOn P before := by
  constructor
  · intro a b ha hb hab hba
    have hle : (cmp b a).isLE := by
      rw [(less b a hb ha).mpr hba]
      rfl
    exact h.not_isLE_of_lt ha hb ((less a b ha hb).mpr hab) hle
  · intro a b c ha hb hc hba hcb hca
    have hbc := h.isLE_of_ne_lt hc hb (mt (less c b hc hb).mp hcb)
    have hlt := h.lt_of_isLE_of_lt hb hc ha hbc ((less c a hc ha).mpr hca)
    exact hba ((less b a hb ha).mp hlt)

end ComparesOn

/-- Fields in the order of their names do not depend on the order they had, where each name comes once. -/
theorem sortBy_names_eq_iff {fields others : List (String × α)} (nodup : (fields.map Prod.fst).Nodup) :
    sortBy (fun a b => compare a.1 b.1) fields = sortBy (fun a b => compare a.1 b.1) others ↔
      fields.Perm others := by
  have hperm : ∀ fields : List (String × α),
      (sortBy (fun a b => compare a.1 b.1) fields).Perm fields := fun fields => sortBy_perm _ fields
  have hordered : ∀ fields : List (String × α),
      (sortBy (fun a b => compare a.1 b.1) fields).Pairwise fun a b => ¬ compare b.1 a.1 = .lt := by
    intro fields
    have horder : WeakOrderOn (fun _ : String × α => True) fun a b => compare a.1 b.1 = .lt :=
      (ComparesOn.of_transCmp : ComparesOn _ (compareOn Prod.fst)).weakOrderOn fun _ _ _ _ => .rfl
    exact (stableSort_sortBy (horder.mono fun _ _ => trivial) fun _ _ _ _ => .rfl).ordered
  constructor
  · intro h
    exact (hperm fields).symm.trans (h ▸ hperm others)
  · intro h
    have hsame := (hperm fields).trans (h.trans (hperm others).symm)
    have hnames := ((hperm fields).map Prod.fst).nodup_iff.mpr nodup
    refine List.Perm.eq_of_pairwise ?_ (hordered fields) (hordered others) hsame
    intro f g hf hg hfg hgf
    -- names that are not told apart by their order are the same, and each name comes once
    have hname : f.1 = g.1 := by
      have hswap : compare g.1 f.1 = (compare f.1 g.1).swap := Std.OrientedCmp.eq_swap
      cases hcmp : compare f.1 g.1 with
      | lt => exact absurd hcmp hgf
      | eq => exact Std.LawfulEqCmp.eq_of_compare hcmp
      | gt =>
          rw [hcmp] at hswap
          exact absurd hswap hfg
    exact List.inj_on_of_nodup_map hnames hf (hsame.mem_iff.mpr hg) hname

namespace Value

/-! ## Values without doubles -/

mutual

/-- A value that is compared without comparing doubles. Objects are compared by their texts, whatever
they hold. -/
def FloatFree : Value → Prop
  | .float _ => False
  | .array items => FloatFreeItems items
  | .null | .bool _ | .int _ | .string _ | .object _ => True

def FloatFreeItems : List Value → Prop
  | [] => True
  | v :: rest => v.FloatFree ∧ FloatFreeItems rest

end

theorem floatFreeItems_iff (items : List Value) :
    FloatFreeItems items ↔ ∀ v ∈ items, v.FloatFree := by
  induction items with
  | nil => simp [FloatFreeItems]
  | cons v rest ih => simp [FloatFreeItems, ih]

/-- The number that a boolean or an integer is compared by. -/
def sortNumber : Value → Int
  | .bool b => b.toNat
  | .int i => i.toInt
  | _ => 0

/-- The text that any other value but an array is compared by. -/
def sortText : Value → String
  | .bool _ | .int _ => ""
  | .string s => s
  | v => v.canonicalKey

/-- Only two arrays are compared item by item. -/
theorem totalCompare_eq_compareAtoms {a b : Value} (h : a.kindRank = 4 → b.kindRank ≠ 4) :
    a.totalCompare b = compareAtoms a b := by
  cases a with
  | array => cases b <;> first | rfl | exact absurd rfl (h rfl)
  | _ => cases b <;> rfl

/-- Values of different types are in the order of the types. -/
theorem totalCompare_of_kindRank_ne {a b : Value} (h : a.kindRank ≠ b.kindRank) :
    a.totalCompare b = compare a.kindRank b.kindRank := by
  have hatoms : a.totalCompare b = compareAtoms a b :=
    totalCompare_eq_compareAtoms fun ha => ha ▸ Ne.symm h
  have hnone : compare? a b = none := by
    cases a <;> cases b <;> first | rfl | exact absurd rfl h
  have hrank : (compare a.kindRank b.kindRank).then (compare a.canonicalKey b.canonicalKey) =
      compare a.kindRank b.kindRank := by
    rcases Nat.lt_or_gt_of_ne h with hlt | hgt
    · rw [Nat.compare_eq_lt.mpr hlt]
      rfl
    · rw [Nat.compare_eq_gt.mpr hgt]
      rfl
  rw [hatoms, compareAtoms, hnone]
  · exact hrank
  · rintro x y rfl rfl
    exact h rfl

/-- Two values of one type that are no arrays are compared as numbers or as texts. -/
theorem totalCompare_of_kindRank_eq {a b : Value} (ha : a.FloatFree) (hb : b.FloatFree)
    (h : a.kindRank = b.kindRank) (noArray : a.kindRank ≠ 4) :
    a.totalCompare b = (compare a.sortNumber b.sortNumber).then (compare a.sortText b.sortText) := by
  have hequal : ∀ (n : Int) (s t : String), (compare n n).then (compare s t) = compare s t := by
    intro n s t
    rw [Std.compare_self]
    rfl
  cases a with
  | null => cases b <;> first | rfl | cases h
  | bool x =>
      cases b with
      | bool y => cases x <;> cases y <;> rfl
      | _ => cases h
  | int x =>
      cases b with
      | int y =>
          have htext : compare "" "" = Ordering.eq := Std.compare_self
          change compare x.toInt y.toInt = (compare x.toInt y.toInt).then (compare "" "")
          rw [htext, Ordering.then_eq]
      | float y => exact hb.elim
      | _ => cases h
  | float x => exact ha.elim
  | string s =>
      cases b with
      | string t => exact (hequal 0 s t).symm
      | _ => cases h
  | array items => exact absurd rfl noArray
  | object fields =>
      cases b with
      | object others => exact (hequal 0 _ _).symm
      | _ => cases h

/-- Lists of elements that are compared. -/
theorem comparesOn_items {P : Value → Prop} (h : ComparesOn P totalCompare) :
    ComparesOn (fun items => ∀ v ∈ items, P v) compareItems := by
  constructor
  · intro as
    induction as with
    | nil =>
        intro bs _ _
        cases bs <;> rfl
    | cons a as ih =>
        intro bs has hbs
        cases bs with
        | nil => rfl
        | cons b bs =>
            obtain ⟨ha, has⟩ := List.forall_mem_cons.mp has
            obtain ⟨hb, hbs⟩ := List.forall_mem_cons.mp hbs
            rw [compareItems, compareItems, Ordering.swap_then, h.swap a b ha hb, ih bs has hbs]
  · intro as
    induction as with
    | nil =>
        intro bs cs _ _ _ _ _
        cases cs <;> rfl
    | cons a as ih =>
        intro bs cs has hbs hcs hab hbc
        cases bs with
        | nil => cases hab
        | cons b bs =>
            cases cs with
            | nil => cases hbc
            | cons c cs =>
                obtain ⟨ha, has⟩ := List.forall_mem_cons.mp has
                obtain ⟨hb, hbs⟩ := List.forall_mem_cons.mp hbs
                obtain ⟨hc, hcs⟩ := List.forall_mem_cons.mp hcs
                rw [compareItems] at hab hbc ⊢
                exact h.then_isLE_trans ha hb hc (ih bs cs has hbs hcs) hab hbc

/-- The sorting order compares values if it compares the numbers among them. The induction is on their
size, as arrays are compared by their items. -/
theorem comparesOn_of_numbers {P : Value → Prop} (items : ∀ as, P (.array as) → ∀ v ∈ as, P v)
    (numbers : ComparesOn (fun v => P v ∧ v.kindRank = 2) totalCompare) :
    ComparesOn P totalCompare := by
  have hsized : ∀ n, ComparesOn (fun v : Value => P v ∧ sizeOf v < n) totalCompare := by
    intro n
    induction n with
    | zero => exact ⟨fun a _ ha => absurd ha.2 (by omega), fun a _ _ ha => absurd ha.2 (by omega)⟩
    | succ n ih =>
        refine .graded kindRank (fun a b _ _ => totalCompare_of_kindRank_ne) fun k => ?_
        by_cases harray : k = 4
        · subst harray
          refine .image (f := Value.array) (comparesOn_items ih) ?_
          rintro v ⟨⟨hv, hsize⟩, hrank⟩
          cases v with
          | array as =>
              refine ⟨as, fun w hw => ⟨items as hv w hw, ?_⟩, rfl⟩
              have hw := List.sizeOf_lt_of_mem hw
              simp only [array.sizeOf_spec] at hsize
              omega
          | _ => cases hrank
        · by_cases hnumber : k = 2
          · subst hnumber
            exact numbers.mono fun v hv => ⟨hv.1.1, hv.2⟩
          · have hkeys : ComparesOn (fun v : Value => (P v ∧ sizeOf v < n + 1) ∧ v.kindRank = k)
                (compareLex (compareOn sortNumber) (compareOn sortText)) := .of_transCmp
            have hfree : ∀ v : Value, v.kindRank = k → v.FloatFree := by
              intro v hv
              cases v <;> first | trivial | exact absurd hv.symm hnumber | exact absurd hv.symm harray
            refine hkeys.congr fun a b ha hb => ?_
            exact totalCompare_of_kindRank_eq (hfree a ha.2) (hfree b hb.2) (ha.2.trans hb.2.symm)
              fun h => harray (ha.2.symm.trans h)
  constructor
  · intro a b ha hb
    exact (hsized (sizeOf a + sizeOf b + 1)).swap a b ⟨ha, by omega⟩ ⟨hb, by omega⟩
  · intro a b c ha hb hc
    exact (hsized (sizeOf a + sizeOf b + sizeOf c + 1)).isLE_trans a b c ⟨ha, by omega⟩
      ⟨hb, by omega⟩ ⟨hc, by omega⟩

/-- The sorting order compares values without doubles. -/
theorem comparesOn_totalCompare : ComparesOn FloatFree totalCompare := by
  refine comparesOn_of_numbers (fun as => (floatFreeItems_iff as).mp) ?_
  have hkeys : ComparesOn (fun v : Value => v.FloatFree ∧ v.kindRank = 2)
      (compareLex (compareOn sortNumber) (compareOn sortText)) := .of_transCmp
  refine hkeys.congr fun a b ha hb => ?_
  exact totalCompare_of_kindRank_eq ha.1 hb.1 (ha.2.trans hb.2.symm) (by rw [ha.2]; decide)

/-! ## Nulls and directions -/

/-- Values in ascending order with nulls last. -/
def compareNullsLast (a b : Value) : Ordering :=
  match a.isNull, b.isNull with
  | true, true => .eq
  | true, false => .gt
  | false, true => .lt
  | false, false => a.totalCompare b

theorem comparesOn_nullsLast {P : Value → Prop} (h : ComparesOn P totalCompare) :
    ComparesOn P compareNullsLast := by
  refine .graded (fun v => if v.isNull then 1 else 0) ?_ fun k => ?_
  · intro a b _ _ hrank
    rw [compareNullsLast]
    cases ha : a.isNull <;> cases hb : b.isNull <;> simp only [ha, hb] at hrank ⊢
    · exact absurd rfl hrank
    · rfl
    · rfl
    · exact absurd rfl hrank
  · by_cases hnull : k = 1
    · have hnulls : ∀ v : Value, P v ∧ (if v.isNull then 1 else 0) = k → v.isNull = true := by
        intro v hv
        simpa [hnull] using hv.2
      refine .tied fun a b ha hb => ?_
      rw [compareNullsLast, hnulls a ha, hnulls b hb]
    · refine (h.mono fun a ha => ha.1).congr ?_
      intro a b ha hb
      have ha : a.isNull = false := by
        rw [← Bool.not_eq_true]
        exact fun h => hnull (by rw [← ha.2, if_pos h])
      have hb : b.isNull = false := by
        rw [← Bool.not_eq_true]
        exact fun h => hnull (by rw [← hb.2, if_pos h])
      rw [compareNullsLast, ha, hb]

/-- One value stands before another in ascending order, nulls after everything else. -/
def Ascends (a b : Value) : Prop :=
  a.isNull = false ∧ (b.isNull = true ∨ a.totalCompare b = .lt)

/-- One value stands before another in a direction; descending is the other way around, so that nulls
are first. -/
def StandsBefore (descending : Bool) (a b : Value) : Prop :=
  if descending then b.Ascends a else a.Ascends b

theorem compareNullsLast_eq_lt (a b : Value) : a.compareNullsLast b = .lt ↔ a.Ascends b := by
  rw [compareNullsLast, Ascends]
  cases a.isNull <;> cases b.isNull <;> simp

/-- The comparison in a direction. -/
def compareDirected (descending : Bool) (a b : Value) : Ordering :=
  if descending then (a.compareNullsLast b).swap else a.compareNullsLast b

theorem comparesOn_directed {P : Value → Prop} (h : ComparesOn P totalCompare) (descending : Bool) :
    ComparesOn P (compareDirected descending) := by
  cases descending with
  | false => exact comparesOn_nullsLast h
  | true => exact (comparesOn_nullsLast h).flip

theorem compareDirected_eq_lt {descending : Bool} {a b : Value} (ha : a.FloatFree)
    (hb : b.FloatFree) : compareDirected descending a b = .lt ↔ StandsBefore descending a b := by
  cases descending with
  | false => exact compareNullsLast_eq_lt a b
  | true =>
      have hswap : compareDirected true a b = b.compareNullsLast a :=
        ((comparesOn_nullsLast comparesOn_totalCompare).swap a b ha hb).symm
      rw [hswap]
      exact compareNullsLast_eq_lt b a

end Value

/-! ## Sort keys -/

/-- One sort key stands before another: at the first place where they differ in order. -/
def KeyBefore : List Bool → List Value → List Value → Prop
  | descending :: rest, a :: as, b :: bs =>
      a.StandsBefore descending b ∨ ¬ b.StandsBefore descending a ∧ KeyBefore rest as bs
  | _, _, _ => False

/-- Without directions no key stands before another. -/
theorem not_keyBefore_nil (as bs : List Value) : ¬ KeyBefore [] as bs := id

/-- A key with a value for each direction, none of which is compared as a double. -/
structure SortKeyOf (directions : List Bool) (key : List Value) : Prop where
  length : key.length = directions.length
  floatFree : ∀ v ∈ key, v.FloatFree

namespace SortKeyOf

variable {directions : List Bool} {key other : List Value}

theorem of_nil (h : SortKeyOf [] key) : key = [] := List.length_eq_zero_iff.mp h.length

theorem of_cons {descending : Bool} (h : SortKeyOf (descending :: directions) key) :
    ∃ v rest, key = v :: rest ∧ v.FloatFree ∧ SortKeyOf directions rest := by
  cases key with
  | nil => cases h.length
  | cons v rest =>
      obtain ⟨hv, hrest⟩ := List.forall_mem_cons.mp h.floatFree
      exact ⟨v, rest, rfl, hv, Nat.succ.inj h.length, hrest⟩

end SortKeyOf

theorem compareSortKeys_cons (descending : Bool) (directions : List Bool) (a b : Value)
    (as bs : List Value) : compareSortKeys (a :: as) (b :: bs) (descending :: directions) =
      (Value.compareDirected descending a b).then (compareSortKeys as bs directions) := rfl

/-- Sort keys of one length are compared, if the values in them are, whatever the directions. -/
theorem comparesOn_keys {P : Value → Prop} (h : ComparesOn P Value.totalCompare)
    (directions : List Bool) (length : Nat) :
    ComparesOn (fun key : List Value => key.length = length ∧ ∀ v ∈ key, P v)
      fun as bs => compareSortKeys as bs directions := by
  induction directions generalizing length with
  | nil =>
      refine .tied fun as bs _ _ => ?_
      cases as <;> cases bs <;> rfl
  | cons descending directions ih =>
      cases length with
      | zero =>
          refine .tied fun as bs has hbs => ?_
          rw [List.length_eq_zero_iff.mp has.1, List.length_eq_zero_iff.mp hbs.1]
          rfl
      | succ length =>
          refine .image (f := fun key : Value × List Value => key.1 :: key.2)
            ((Value.comparesOn_directed h descending).pair (ih length)) ?_
          rintro (- | ⟨v, rest⟩) ⟨hlength, hkey⟩
          · cases hlength
          · obtain ⟨hv, hrest⟩ := List.forall_mem_cons.mp hkey
            exact ⟨(v, rest), ⟨hv, Nat.succ.inj hlength, hrest⟩, rfl⟩

theorem comparesOn_sortKeys (directions : List Bool) :
    ComparesOn (SortKeyOf directions) fun as bs => compareSortKeys as bs directions :=
  (comparesOn_keys Value.comparesOn_totalCompare directions directions.length).mono
    fun _ h => ⟨h.length, h.floatFree⟩

theorem compareSortKeys_eq_lt {directions : List Bool} {as bs : List Value}
    (has : SortKeyOf directions as) (hbs : SortKeyOf directions bs) :
    compareSortKeys as bs directions = .lt ↔ KeyBefore directions as bs := by
  induction directions generalizing as bs with
  | nil =>
      rw [has.of_nil, hbs.of_nil]
      exact iff_of_false nofun (not_keyBefore_nil [] [])
  | cons descending directions ih =>
      obtain ⟨a, as, rfl, ha, has⟩ := has.of_cons
      obtain ⟨b, bs, rfl, hb, hbs⟩ := hbs.of_cons
      rw [compareSortKeys_cons, KeyBefore, ← ih has hbs, ← Value.compareDirected_eq_lt ha hb,
        ← Value.compareDirected_eq_lt hb ha,
        (Value.comparesOn_directed Value.comparesOn_totalCompare descending).swap a b ha hb]
      cases Value.compareDirected descending a b <;> simp

/-- Standing before is a weak order of the keys. -/
theorem weakOrderOn_keyBefore (directions : List Bool) :
    WeakOrderOn (SortKeyOf directions) (KeyBefore directions) :=
  (comparesOn_sortKeys directions).weakOrderOn fun _ _ has hbs => compareSortKeys_eq_lt has hbs

end RowPipeline
