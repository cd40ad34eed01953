import RowPipeline.Proofs.FailurePolicies
import RowPipeline.Proofs.WindowSlots
import RowPipeline.Proofs.WindowValues

/-!
# Evaluation after replacement

The values of an expression on rows are those of the expressions with literals in it, one for each row: the
windows stand for their values on the row and the aggregates outside windows for theirs over its group. In
three steps: filling in a group is a replacement of the aggregates that leaves the windows, evaluation reads
what stands for a window only for its value, and since no two windows share a slot, a window finds its own
values there.
-/

namespace RowPipeline

namespace Expr

/-! ## Replacement -/

section Replacement

variable (window : Nat → WindowSpec Expr → Expr) (aggregate : AggregateFunction → Option Expr → Value)

mutual

/-- An expression with others in the places of its windows and values in those of the aggregates outside
windows. Both are replaced whole, with all that stands in them. -/
def replaced : Expr → Expr
  | .window slot spec => window slot spec
  | .aggregate f arg => .literal (aggregate f arg)
  | .literal v => .literal v
  | .field name => .field name
  | .param name => .param name
  | .unary op e => .unary op e.replaced
  | .binary op l r => .binary op l.replaced r.replaced
  | .call f args => .call f (replacedList args)
  | .case operand branches otherwise =>
      .case (replacedOption operand) (replacedBranches branches) (replacedOption otherwise)
  | .inList e list negated => .inList e.replaced (replacedList list) negated
  | .between e low high negated => .between e.replaced low.replaced high.replaced negated
  | .like e pattern negated => .like e.replaced pattern.replaced negated
  | .isNull e negated => .isNull e.replaced negated

def replacedList : List Expr → List Expr
  | [] => []
  | e :: rest => e.replaced :: replacedList rest

def replacedOption : Option Expr → Option Expr
  | none => none
  | some e => some e.replaced

def replacedBranches : List (Expr × Expr) → List (Expr × Expr)
  | [] => []
  | (whenExpr, thenExpr) :: rest =>
      (whenExpr.replaced, thenExpr.replaced) :: replacedBranches rest

end

end Replacement

mutual

/-- The aggregates that are replaced, in the order of the text. -/
def outerAggregates : Expr → List (AggregateFunction × Option Expr)
  | .aggregate f arg => [(f, arg)]
  | .literal _ | .field _ | .param _ | .window .. => []
  | .unary _ e => e.outerAggregates
  | .binary _ l r => l.outerAggregates ++ r.outerAggregates
  | .call _ args => outerAggregatesOfList args
  | .case operand branches otherwise =>
      outerAggregatesOfOption operand ++ outerAggregatesOfBranches branches ++
        outerAggregatesOfOption otherwise
  | .inList e list _ => e.outerAggregates ++ outerAggregatesOfList list
  | .between e low high _ => e.outerAggregates ++ low.outerAggregates ++ high.outerAggregates
  | .like e pattern _ => e.outerAggregates ++ pattern.outerAggregates
  | .isNull e _ => e.outerAggregates

def outerAggregatesOfList : List Expr → List (AggregateFunction × Option Expr)
  | [] => []
  | e :: rest => e.outerAggregates ++ outerAggregatesOfList rest

def outerAggregatesOfOption : Option Expr → List (AggregateFunction × Option Expr)
  | none => []
  | some e => e.outerAggregates

def outerAggregatesOfBranches : List (Expr × Expr) → List (AggregateFunction × Option Expr)
  | [] => []
  | (whenExpr, thenExpr) :: rest =>
      whenExpr.outerAggregates ++ thenExpr.outerAggregates ++ outerAggregatesOfBranches rest

end

/-! ## Failures -/

/-- How an outcome fails, if it does. -/
def failure? {α : Type} : Outcome α → Option ExpressionError
  | .ok _ => none
  | .error err => some err

/-- A value, or a failure instead of it. -/
def unlessFailed {α : Type} (failure : Option ExpressionError) (a : α) : Outcome α :=
  match failure with
  | some err => .error err
  | none => .ok a

/-- The first failure among windows. -/
def windowFailure? (rows : List Row) (params : Option Parameters)
    (windows : List (Nat × WindowSpec Expr)) : Option ExpressionError :=
  windows.findSome? fun w => failure? (windowValues w.2 rows params)

/-- The first failure among aggregates. -/
def aggregateFailure? (group : List Row) (params : Option Parameters)
    (aggregates : List (AggregateFunction × Option Expr)) : Option ExpressionError :=
  aggregates.findSome? fun a => failure? (evalAggregate a.1 a.2 group params)

/-! ## Aggregates -/

/-- The value of an aggregate that has one. -/
def aggregateOver (group : List Row) (params : Option Parameters) (func : AggregateFunction)
    (arg : Option Expr) : Value :=
  (evalAggregate func arg group params).toOption.getD .null

theorem unlessFailed_one {α β : Type} (failure : Option ExpressionError) (a : α) (make : α → β) :
    (do let a ← unlessFailed failure a; return make a) = unlessFailed failure (make a) := by
  cases failure <;> rfl

/-- Two parts are computed one after the other, so the failure of the first comes first. -/
theorem unlessFailed_both {α β γ : Type} (first second : Option ExpressionError) (a : α) (b : β)
    (make : α → β → γ) :
    (do let a ← unlessFailed first a; let b ← unlessFailed second b; return make a b) =
      unlessFailed (first.or second) (make a b) := by
  cases first <;> cases second <;> rfl

theorem unlessFailed_three {α β γ δ : Type} (first second third : Option ExpressionError) (a : α)
    (b : β) (c : γ) (make : α → β → γ → δ) :
    (do
      let a ← unlessFailed first a
      let b ← unlessFailed second b
      let c ← unlessFailed third c
      return make a b c) = unlessFailed ((first.or second).or third) (make a b c) := by
  cases first <;> cases second <;> cases third <;> rfl

section Filling

variable (group : List Row) (params : Option Parameters)

theorem aggregateFailure?_append (as bs : List (AggregateFunction × Option Expr)) :
    aggregateFailure? group params (as ++ bs) =
      (aggregateFailure? group params as).or (aggregateFailure? group params bs) :=
  List.findSome?_append

mutual

/-- Filling replaces the aggregates by their values, unless one of them fails. -/
theorem fillAggregates_eq : ∀ e : Expr, e.fillAggregates group params =
    unlessFailed (aggregateFailure? group params e.outerAggregates)
      (e.replaced .window (aggregateOver group params))
  | .literal _ | .field _ | .param _ | .window .. => rfl
  | .aggregate f arg => by
      rw [fillAggregates, outerAggregates, replaced, aggregateOver, aggregateFailure?,
        List.findSome?_singleton]
      cases evalAggregate f arg group params <;> rfl
  | .unary op e => by
      rw [fillAggregates, fillAggregates_eq e, outerAggregates, replaced]
      exact unlessFailed_one ..
  | .binary op l r => by
      rw [fillAggregates, fillAggregates_eq l, fillAggregates_eq r, outerAggregates, replaced,
        aggregateFailure?_append]
      exact unlessFailed_both ..
  | .call f args => by
      rw [fillAggregates, fillList_eq args, outerAggregates, replaced]
      exact unlessFailed_one ..
  | .case operand branches otherwise => by
      rw [fillAggregates, fillOption_eq operand, fillBranches_eq branches, fillOption_eq otherwise,
        outerAggregates, replaced, aggregateFailure?_append, aggregateFailure?_append]
      exact unlessFailed_three ..
  | .inList e list negated => by
      rw [fillAggregates, fillAggregates_eq e, fillList_eq list, outerAggregates, replaced,
        aggregateFailure?_append]
      exact unlessFailed_both ..
  | .between e low high negated => by
      rw [fillAggregates, fillAggregates_eq e, fillAggregates_eq low, fillAggregates_eq high,
        outerAggregates, replaced, aggregateFailure?_append, aggregateFailure?_append]
      exact unlessFailed_three ..
  | .like e pattern negated => by
      rw [fillAggregates, fillAggregates_eq e, fillAggregates_eq pattern, outerAggregates, replaced,
        aggregateFailure?_append]
      exact unlessFailed_both ..
  | .isNull e negated => by
      rw [fillAggregates, fillAggregates_eq e, outerAggregates, replaced]
      exact unlessFailed_one ..

theorem fillList_eq : ∀ es : List Expr, fillList group params es =
    unlessFailed (aggregateFailure? group params (outerAggregatesOfList es))
      (replacedList .window (aggregateOver group params) es)
  | [] => rfl
  | e :: rest => by
      rw [fillList, fillAggregates_eq e, fillList_eq rest, outerAggregatesOfList, replacedList,
        aggregateFailure?_append]
      exact unlessFailed_both ..

theorem fillOption_eq : ∀ e : Option Expr, fillOption group params e =
    unlessFailed (aggregateFailure? group params (outerAggregatesOfOption e))
      (replacedOption .window (aggregateOver group params) e)
  | none => rfl
  | some e => by
      rw [fillOption, fillAggregates_eq e, outerAggregatesOfOption, replacedOption]
      exact unlessFailed_one ..

theorem fillBranches_eq : ∀ branches : List (Expr × Expr), fillBranches group params branches =
    unlessFailed (aggregateFailure? group params (outerAggregatesOfBranches branches))
      (replacedBranches .window (aggregateOver group params) branches)
  | [] => rfl
  | (whenExpr, thenExpr) :: rest => by
      rw [fillBranches, fillAggregates_eq whenExpr, fillAggregates_eq thenExpr, fillBranches_eq rest,
        outerAggregatesOfBranches, replacedBranches, aggregateFailure?_append,
        aggregateFailure?_append]
      exact unlessFailed_three ..

end

end Filling

/-! ## Windows -/

section Reading

variable {row : Option Row} {params : Option Parameters} {values values' : Nat → Option Value}
  {window window' : Nat → WindowSpec Expr → Expr}
  {aggregate : AggregateFunction → Option Expr → Value}

/-- What stands for a window here and what stands for it there have the same value, each with the values
of windows that go with it. -/
def SameValue (row : Option Row) (params : Option Parameters) (values values' : Nat → Option Value)
    (window window' : Nat → WindowSpec Expr → Expr) (t : Expr) : Prop :=
  ∀ slot spec, t = .window slot spec →
    (window slot spec).eval ⟨row, params, values⟩ = (window' slot spec).eval ⟨row, params, values'⟩

theorem both_of_terms {P : Expr → Prop} {t : Expr} {terms terms' : List Expr}
    (h : ∀ u ∈ t :: (terms ++ terms'), P u) : (∀ u ∈ terms, P u) ∧ ∀ u ∈ terms', P u :=
  List.forall_mem_append.1 (List.forall_mem_cons.1 h).2

mutual

/-- An expression reads what stands for its windows only for the values. -/
theorem eval_replaced : ∀ e : Expr,
    (∀ t ∈ e.subterms, SameValue row params values values' window window' t) →
    (e.replaced window aggregate).eval ⟨row, params, values⟩ =
      (e.replaced window' aggregate).eval ⟨row, params, values'⟩
  | .literal _, _ | .field _, _ | .param _, _ | .aggregate _ _, _ => rfl
  | .window slot spec, h => h _ List.mem_cons_self slot spec rfl
  | .unary _ e, h => by
      simp only [replaced, eval, eval_replaced e (List.forall_mem_cons.1 h).2]
  | .binary op l r, h => by
      obtain ⟨hl, hr⟩ := both_of_terms h
      have hleft := eval_replaced l hl
      have hright := eval_replaced r hr
      cases op <;> simp only [replaced, eval, hleft, hright]
  | .call _ args, h => by
      simp only [replaced, eval, evalList_replaced args (List.forall_mem_cons.1 h).2]
  | .case none branches otherwise, h => by
      obtain ⟨h, hotherwise⟩ := both_of_terms h
      simp only [replaced, replacedOption, eval, evalBranches_replaced branches h,
        evalOption_replaced otherwise hotherwise]
  | .case (some operand) branches otherwise, h => by
      obtain ⟨h, hotherwise⟩ := both_of_terms h
      obtain ⟨hoperand, hbranches⟩ := List.forall_mem_append.1 h
      simp only [replaced, replacedOption, eval, eval_replaced operand hoperand,
        evalBranches_replaced branches hbranches, evalOption_replaced otherwise hotherwise]
  | .inList e list _, h => by
      obtain ⟨he, hlist⟩ := both_of_terms h
      simp only [replaced, eval, eval_replaced e he, evalMember_replaced list hlist]
  | .between e low high _, h => by
      obtain ⟨h, hhigh⟩ := both_of_terms h
      obtain ⟨he, hlow⟩ := List.forall_mem_append.1 h
      simp only [replaced, eval, eval_replaced e he, eval_replaced low hlow, eval_replaced high hhigh]
  | .like e pattern _, h => by
      obtain ⟨he, hpattern⟩ := both_of_terms h
      simp only [replaced, eval, eval_replaced e he, eval_replaced pattern hpattern]
  | .isNull e _, h => by
      simp only [replaced, eval, eval_replaced e (List.forall_mem_cons.1 h).2]

theorem evalList_replaced : ∀ es : List Expr,
    (∀ t ∈ subtermsOfList es, SameValue row params values values' window window' t) →
    evalList ⟨row, params, values⟩ (replacedList window aggregate es) =
      evalList ⟨row, params, values'⟩ (replacedList window' aggregate es)
  | [], _ => rfl
  | e :: rest, h => by
      obtain ⟨he, hrest⟩ := List.forall_mem_append.1 h
      simp only [replacedList, evalList, eval_replaced e he, evalList_replaced rest hrest]

theorem evalOption_replaced : ∀ e : Option Expr,
    (∀ t ∈ subtermsOfOption e, SameValue row params values values' window window' t) →
    evalOption ⟨row, params, values⟩ (replacedOption window aggregate e) =
      evalOption ⟨row, params, values'⟩ (replacedOption window' aggregate e)
  | none, _ => rfl
  | some e, h => eval_replaced e h

theorem evalBranches_replaced {chosen : Value → Bool} : ∀ branches : List (Expr × Expr),
    (∀ t ∈ subtermsOfBranches branches, SameValue row params values values' window window' t) →
    evalBranches ⟨row, params, values⟩ chosen (replacedBranches window aggregate branches) =
      evalBranches ⟨row, params, values'⟩ chosen (replacedBranches window' aggregate branches)
  | [], _ => rfl
  | (whenExpr, thenExpr) :: rest, h => by
      obtain ⟨h, hrest⟩ := List.forall_mem_append.1 h
      obtain ⟨hwhen, hthen⟩ := List.forall_mem_append.1 h
      simp only [replacedBranches, evalBranches, eval_replaced whenExpr hwhen,
        eval_replaced thenExpr hthen, evalBranches_replaced rest hrest]

theorem evalMember_replaced {v : Value} : ∀ list : List Expr,
    (∀ t ∈ subtermsOfList list, SameValue row params values values' window window' t) →
    evalMember ⟨row, params, values⟩ v (replacedList window aggregate list) =
      evalMember ⟨row, params, values'⟩ v (replacedList window' aggregate list)
  | [], _ => rfl
  | e :: rest, h => by
      obtain ⟨he, hrest⟩ := List.forall_mem_append.1 h
      simp only [replacedList, evalMember, eval_replaced e he, evalMember_replaced rest hrest]

end

end Reading

section Table

variable (rows : List Row) (params : Option Parameters)

/-- The value of a window that has one, on the row at `index`. -/
def windowAt (index : Nat) (spec : WindowSpec Expr) : Value :=
  ((windowValues spec rows params).toOption.bind (·[index]?)).getD .null

/-- A window that has values has one for each row. -/
theorem length_windowValues {spec : WindowSpec Expr} {rows : List Row} {params : Option Parameters}
    {values : List Value} (h : windowValues spec rows params = .ok values) :
    values.length = rows.length := by
  obtain ⟨entries, -, h⟩ := bind_eq_ok h
  obtain ⟨partitions, -, h⟩ := bind_eq_ok h
  cases h
  rw [List.length_map, List.length_range]

/-- The values of the windows by slot, unless one of them fails. -/
theorem windowTable_eq (windows : List (Nat × WindowSpec Expr)) :
    windowTable rows params windows = unlessFailed (windowFailure? rows params windows)
      (windows.map fun w => (w.1, (windowValues w.2 rows params).toOption.getD [])) := by
  induction windows with
  | nil => rfl
  | cons w rest ih =>
      have hfailure : windowFailure? rows params (w :: rest) =
          (failure? (windowValues w.2 rows params)).or (windowFailure? rows params rest) := by
        rw [windowFailure?, List.findSome?_cons]
        cases failure? (windowValues w.2 rows params) <;> rfl
      rw [windowTable, ih, hfailure, List.map_cons]
      cases windowValues w.2 rows params with
      | error err => rfl
      | ok values => exact unlessFailed_one ..

/-- The values of a window are found under its slot, which no other window has. -/
theorem lookup_of_nodup {α : Type} {pairs : List (Nat × α)} (nodup : (pairs.map Prod.fst).Nodup)
    {slot : Nat} {a : α} (h : (slot, a) ∈ pairs) : pairs.lookup slot = some a := by
  obtain ⟨front, back, rfl⟩ := List.append_of_mem h
  refine List.lookup_eq_some_iff.2 ⟨front, back, rfl, fun p hp => ?_⟩
  rw [List.map_append, List.map_cons] at nodup
  have hother : p.1 ≠ slot :=
    (List.nodup_append.1 nodup).2.2 _ (List.mem_map_of_mem hp) _ List.mem_cons_self
  exact bne_iff_ne.2 hother.symm

end Table

/-! ## Rows -/

/-- The rows that the aggregates of the row at `index` range over. -/
def groupOf (rows : List Row) (groups : Option (List (List Row))) (index : Nat) : List Row :=
  match groups with
  | none => rows
  | some groups => (groups[index]?).getD []

/-- The value on the row at `index` of an expression with literals for its windows and aggregates, or the
first failure of these aggregates. -/
def evalReplaced (rows group : List Row) (params : Option Parameters) (index : Nat) (row : Row)
    (e : Expr) : Outcome Value :=
  match aggregateFailure? group params e.outerAggregates with
  | some err => .error err
  | none =>
      (e.replaced (fun _ spec => .literal (windowAt rows params index spec))
        (aggregateOver group params)).eval ⟨some row, params, fun _ => none⟩

section Rows

variable {e : Expr} {rows : List Row} {params : Option Parameters}

theorem eval_windows (nodup : (e.windows.map Prod.fst).Nodup)
    (computed : windowFailure? rows params e.windows = none) {index : Nat} (hindex : index < rows.length)
    (row : Row) (aggregate : AggregateFunction → Option Expr → Value) :
    evalAt (e.windows.map fun w => (w.1, (windowValues w.2 rows params).toOption.getD [])) params index
        row (e.replaced .window aggregate) =
      (e.replaced (fun _ spec => .literal (windowAt rows params index spec)) aggregate).eval
        ⟨some row, params, fun _ => none⟩ := by
  refine eval_replaced e ?_
  rintro _ ht slot spec rfl
  -- the window is one of those that were computed, and its values stand in the table under its slot alone
  have hmem : (slot, spec) ∈ e.windows := List.mem_filterMap.2 ⟨_, ht, rfl⟩
  obtain ⟨values, hvalues⟩ : ∃ values, windowValues spec rows params = .ok values := by
    have hfailure := List.findSome?_eq_none_iff.1 computed _ hmem
    cases hvalues : windowValues spec rows params with
    | ok values => exact ⟨values, rfl⟩
    | error err =>
        rw [hvalues] at hfailure
        cases hfailure
  have hlookup : (e.windows.map fun w =>
      (w.1, (windowValues w.2 rows params).toOption.getD [])).lookup slot = some values := by
    refine lookup_of_nodup (by rwa [List.map_map]) (List.mem_map.2 ⟨_, hmem, ?_⟩)
    rw [hvalues]
    rfl
  have hvalue : values[index]? = some (windowAt rows params index spec) := by
    have hlength : index < values.length := by rwa [length_windowValues hvalues]
    rw [windowAt, hvalues, Except.toOption, Option.bind_some, List.getElem?_eq_getElem hlength,
      Option.getD_some]
  simp only [eval, hlookup, Option.bind_some, hvalue]

theorem eval_filled (nodup : (e.windows.map Prod.fst).Nodup)
    (computed : windowFailure? rows params e.windows = none) {index : Nat} (hindex : index < rows.length)
    (row : Row) (group : List Row) :
    ((if e.containsAggregate then e.fillAggregates group params else .ok e).bind
        (evalAt (e.windows.map fun w => (w.1, (windowValues w.2 rows params).toOption.getD [])) params
          index row)) = e.evalReplaced rows group params index row := by
  have hfilled : (if e.containsAggregate then e.fillAggregates group params else .ok e) =
      e.fillAggregates group params := by
    split
    · rfl
    · rename_i hfree
      exact (fillAggregates_of_free group params e (Bool.eq_false_of_not_eq_true hfree)).symm
  rw [hfilled, fillAggregates_eq, evalReplaced]
  -- a failing aggregate fails the row; otherwise what is left are the windows, read from the table
  cases aggregateFailure? group params e.outerAggregates with
  | some err => rfl
  | none => exact eval_windows nodup computed hindex row (aggregateOver group params)

end Rows

end Expr

/-- The values of an expression on rows. If a window of it fails, every row fails as the first such window
does. Otherwise each row has the value of the expression with literals in it, for a window its value on the
row and for an aggregate its value over the group of the row, or the first failure of the aggregates. No two
windows have the same slot, and each has one value for every row. -/
theorem evalRows_eq_evalReplaced {text : String} {e : Expr} (parsed : Expr.parse text = .ok e)
    (rows : List Row) (groups : Option (List (List Row))) (params : Option Parameters) :
    (e.windows.map Prod.fst).Nodup ∧
      (∀ w ∈ e.windows, ∀ values, windowValues w.2 rows params = .ok values →
        values.length = rows.length) ∧
      e.evalRows rows groups params =
        match Expr.windowFailure? rows params e.windows with
        | some err => rows.map fun _ => .error err
        | none => rows.mapIdx fun index row =>
            e.evalReplaced rows (Expr.groupOf rows groups index) params index row := by
  refine ⟨nodup_slots parsed, fun _ _ _ => Expr.length_windowValues, ?_⟩
  rw [Expr.evalRows, Expr.windowTable_eq]
  cases hcomputed : Expr.windowFailure? rows params e.windows with
  | some err => rfl
  | none =>
      cases groups with
      | none =>
          exact List.mapIdx_eq_mapIdx_iff.2 fun index hindex =>
            Expr.eval_filled (nodup_slots parsed) hcomputed hindex rows[index] rows
      | some groups =>
          exact List.mapIdx_eq_mapIdx_iff.2 fun index hindex =>
            Expr.eval_filled (nodup_slots parsed) hcomputed hindex rows[index]
              ((groups[index]?).getD [])

/-- For every row the rows with its name. -/
def amountGroups : List (List Row) :=
  namedAmounts.map fun r => namedAmounts.filter fun q => q.get? "name" == r.get? "name"

/-- Two windows and an aggregate over the rows with the name of the row. -/
theorem evalRows_eq_evalReplaced_amounts : ∃ e,
    Expr.parse "RANK() OVER (ORDER BY amount DESC) * 100 + SUM(amount) - COUNT(*) OVER (PARTITION BY name)"
      = .ok e ∧
    (e.windows.map Prod.fst).Nodup ∧ e.windows.map Prod.fst = [0, 1] ∧
    (e.evalRows namedAmounts (some amountGroups) none).map Except.toOption =
      [204, 400, 104, 204, 404].map (fun i => some (.int i)) ∧
    e.evalRows namedAmounts (some amountGroups) none = namedAmounts.mapIdx fun index row =>
      e.evalReplaced namedAmounts (Expr.groupOf namedAmounts (some amountGroups) index) none index
        row := by
  obtain ⟨text, htext⟩ : ∃ text, text =
      "RANK() OVER (ORDER BY amount DESC) * 100 + SUM(amount) - COUNT(*) OVER (PARTITION BY name)" :=
    ⟨_, rfl⟩
  have hchecked : (Expr.parse text).toOption.map (fun e => (e.windows.map Prod.fst,
      (Expr.windowFailure? namedAmounts none e.windows).isNone,
      (e.evalRows namedAmounts (some amountGroups) none).map Except.toOption)) =
        some ([0, 1], true, [204, 400, 104, 204, 404].map fun i => some (.int i)) := by
    rw [htext]
    decide +kernel
  rw [← htext]
  cases hparse : Expr.parse text with
  | error problem =>
      rw [hparse] at hchecked
      cases hchecked
  | ok e =>
      rw [hparse] at hchecked
      obtain ⟨hslots, hcomputed⟩ := Prod.mk.inj (Option.some.inj hchecked)
      obtain ⟨hcomputed, hvalues⟩ := Prod.mk.inj hcomputed
      obtain ⟨hnodup, -, hrows⟩ :=
        evalRows_eq_evalReplaced hparse namedAmounts (some amountGroups) none
      rw [Option.isNone_iff_eq_none.1 hcomputed] at hrows
      exact ⟨e, rfl, hnodup, hslots, hvalues, hrows⟩

end RowPipeline
