import RowPipeline.Proofs.CompositeKeys
import RowPipeline.Proofs.SortKeys

/-!
# Keys without doubles

Values without doubles, in arrays and objects too, are equal when neither stands before the other, and so
are sort keys of them. Of two different keys one stands before the other.
-/

namespace RowPipeline

namespace Value

mutual

theorem Exact.floatFree : ∀ {v : Value}, v.Exact → v.FloatFree
  | .null, _ | .bool _, _ | .int _, _ | .string _, _ | .object _, _ => trivial
  | .array _, h => ExactItems.floatFree h

theorem ExactItems.floatFree : ∀ {items : List Value}, ExactItems items → FloatFreeItems items
  | [], _ => trivial
  | _ :: _, h => ⟨h.1.floatFree, ExactItems.floatFree h.2⟩

end

theorem canonicalKey_injective {v w : Value} (hv : v.Exact) (hw : w.Exact)
    (h : v.canonicalKey = w.canonicalKey) : v = w := by
  rwa [canonicalKey_eq_iff, hv.keyForm_eq, hw.keyForm_eq] at h

/-- Values of one type other than an array are told by the number and the text they are compared by. -/
theorem eq_of_sortNumber_of_sortText {v w : Value} (hv : v.Exact) (hw : w.Exact)
    (rank : v.kindRank = w.kindRank) (number : v.sortNumber = w.sortNumber)
    (text : v.sortText = w.sortText) : v = w := by
  cases v with
  | bool b =>
      cases w <;> cases rank
      rename_i c
      cases b <;> cases c <;> first | rfl | cases number
  | int i =>
      cases w with
      | int k => exact congrArg int (Int64.toInt_inj.mp number)
      | float x => exact hw.elim
      | _ => cases rank
  | float x => exact hv.elim
  | string s =>
      cases w <;> cases rank
      exact congrArg string text
  | null =>
      cases w <;> cases rank
      rfl
  | array items =>
      cases w <;> cases rank
      exact canonicalKey_injective hv hw text
  | object fields =>
      cases w <;> cases rank
      exact canonicalKey_injective hv hw text

mutual

theorem eq_of_totalCompare (v : Value) (hv : v.Exact) {w : Value} (hw : w.Exact)
    (h : v.totalCompare w = .eq) : v = w := by
  have hrank : v.kindRank = w.kindRank := by
    by_contra hne
    rw [totalCompare_of_kindRank_ne hne] at h
    exact hne (Nat.compare_eq_eq.mp h)
  cases v with
  | array items =>
      cases w <;> cases hrank
      rename_i others
      rw [eq_of_compareItems items hv hw h]
  | null | bool | int | float | string | object =>
      rw [totalCompare_of_kindRank_eq hv.floatFree hw.floatFree hrank nofun,
        Ordering.then_eq_eq] at h
      exact eq_of_sortNumber_of_sortText hv hw hrank (Std.LawfulEqCmp.eq_of_compare h.1)
        (Std.LawfulEqCmp.eq_of_compare h.2)

theorem eq_of_compareItems (items : List Value) (hv : ExactItems items) {others : List Value}
    (hw : ExactItems others) (h : compareItems items others = .eq) : items = others := by
  cases items with
  | nil =>
      cases others with
      | nil => rfl
      | cons => cases h
  | cons v rest =>
      cases others with
      | nil => cases h
      | cons w others =>
          rw [compareItems, Ordering.then_eq_eq] at h
          rw [eq_of_totalCompare v hv.1 hw.1 h.1, eq_of_compareItems rest hv.2 hw.2 h.2]

end

theorem eq_of_compareNullsLast {v w : Value} (hv : v.Exact) (hw : w.Exact)
    (h : v.compareNullsLast w = .eq) : v = w := by
  rw [compareNullsLast] at h
  cases hvnull : v.isNull <;> cases hwnull : w.isNull <;> simp only [hvnull, hwnull] at h
  · exact eq_of_totalCompare v hv hw h
  · cases h
  · cases h
  · cases v <;> cases hvnull
    cases w <;> cases hwnull
    rfl

theorem eq_of_compareDirected {descending : Bool} {v w : Value} (hv : v.Exact) (hw : w.Exact)
    (h : compareDirected descending v w = .eq) : v = w := by
  cases descending with
  | false => exact eq_of_compareNullsLast hv hw h
  | true => exact eq_of_compareNullsLast hv hw (Ordering.swap_eq_eq.mp h)

end Value

/-- A sort key with a value for each direction, and no doubles in any of them. -/
structure ExactKey (directions : List Bool) (key : List Value) : Prop where
  length : key.length = directions.length
  exact : ∀ v ∈ key, v.Exact

namespace ExactKey

variable {directions : List Bool} {key other third : List Value}

theorem sortKeyOf (h : ExactKey directions key) : SortKeyOf directions key :=
  ⟨h.length, fun v hv => (h.exact v hv).floatFree⟩

theorem eq_of_tied (h : ExactKey directions key) (h' : ExactKey directions other)
    (tied : compareSortKeys key other directions = .eq) : key = other := by
  induction directions generalizing key other with
  | nil => rw [h.sortKeyOf.of_nil, h'.sortKeyOf.of_nil]
  | cons descending directions ih =>
      obtain ⟨v, rest, rfl, -, -⟩ := h.sortKeyOf.of_cons
      obtain ⟨w, others, rfl, -, -⟩ := h'.sortKeyOf.of_cons
      obtain ⟨hv, hrest⟩ := List.forall_mem_cons.mp h.exact
      obtain ⟨hw, hothers⟩ := List.forall_mem_cons.mp h'.exact
      rw [compareSortKeys_cons, Ordering.then_eq_eq] at tied
      rw [Value.eq_of_compareDirected hv hw tied.1,
        ih ⟨Nat.succ.inj h.length, hrest⟩ ⟨Nat.succ.inj h'.length, hothers⟩ tied.2]

theorem tied_self (h : ExactKey directions key) : compareSortKeys key key directions = .eq := by
  have hswap := (comparesOn_sortKeys directions).swap key key h.sortKeyOf h.sortKeyOf
  cases hcmp : compareSortKeys key key directions <;> rw [hcmp] at hswap <;>
    first | rfl | cases hswap

theorem tied_iff (h : ExactKey directions key) (h' : ExactKey directions other) :
    compareSortKeys key other directions = .eq ↔ key = other :=
  ⟨h.eq_of_tied h', fun heq => heq ▸ h.tied_self⟩

/-- Of two keys neither of which stands before the other one is the other. -/
theorem eq_of_not_before (h : ExactKey directions key) (h' : ExactKey directions other)
    (behind : ¬ KeyBefore directions key other) (ahead : ¬ KeyBefore directions other key) :
    key = other := by
  rw [← compareSortKeys_eq_lt h.sortKeyOf h'.sortKeyOf] at behind
  rw [← compareSortKeys_eq_lt h'.sortKeyOf h.sortKeyOf,
    (comparesOn_sortKeys directions).swap key other h.sortKeyOf h'.sortKeyOf] at ahead
  refine h.eq_of_tied h' ?_
  cases hcmp : compareSortKeys key other directions with
  | lt => exact absurd hcmp behind
  | eq => rfl
  | gt => exact absurd (by rw [hcmp]; rfl) ahead

theorem not_before_self (h : ExactKey directions key) : ¬ KeyBefore directions key key := by
  rw [← compareSortKeys_eq_lt h.sortKeyOf h.sortKeyOf, h.tied_self]
  exact nofun

theorem before_of_before_of_not (h : ExactKey directions key) (h' : ExactKey directions other)
    (h'' : ExactKey directions third) (before : KeyBefore directions key other)
    (behind : ¬ KeyBefore directions third other) : KeyBefore directions key third := by
  by_contra hnot
  exact (weakOrderOn_keyBefore directions).trans other third key h'.sortKeyOf h''.sortKeyOf
    h.sortKeyOf behind hnot before

theorem before_of_not_of_before (h : ExactKey directions key) (h' : ExactKey directions other)
    (h'' : ExactKey directions third) (behind : ¬ KeyBefore directions other key)
    (before : KeyBefore directions other third) : KeyBefore directions key third := by
  by_contra hnot
  exact (weakOrderOn_keyBefore directions).trans third key other h''.sortKeyOf h.sortKeyOf
    h'.sortKeyOf hnot behind before

end ExactKey

end RowPipeline
