import RowPipeline.Expr.Window
import RowPipeline.Proofs.Outcomes

/-!
# The parameters an expression reads

The values of an expression on rows depend on the parameters it mentions and on no others: neither the
evaluation on a row nor the aggregates and window functions look up a name that is not in the text.
-/

namespace RowPipeline

namespace Expr

variable {p q : Parameters}

/-- Two maps give the same parameters to some terms. -/
def AgreeIn (p q : Parameters) (terms : List Expr) : Prop :=
  ∀ name, .param name ∈ terms → p.get? name = q.get? name

namespace AgreeIn

variable {terms terms' : List Expr}

theorem of_subset (h : AgreeIn p q terms) (sub : terms' ⊆ terms) : AgreeIn p q terms' :=
  fun name hname => h name (sub hname)

theorem nil : AgreeIn p q [] := fun name hname => by cases hname

theorem tail {t : Expr} (h : AgreeIn p q (t :: terms)) : AgreeIn p q terms :=
  h.of_subset (List.subset_cons_self t terms)

theorem left (h : AgreeIn p q (terms ++ terms')) : AgreeIn p q terms :=
  h.of_subset (List.subset_append_left terms terms')

theorem right (h : AgreeIn p q (terms ++ terms')) : AgreeIn p q terms' :=
  h.of_subset (List.subset_append_right terms terms')

theorem append (h : AgreeIn p q terms) (h' : AgreeIn p q terms') : AgreeIn p q (terms ++ terms') :=
  fun name hname => (List.mem_append.mp hname).elim (h name) (h' name)

theorem cons {t : Expr} (ht : ∀ name, t ≠ .param name) (h : AgreeIn p q terms) :
    AgreeIn p q (t :: terms) := by
  intro name hname
  rcases List.mem_cons.mp hname with heq | hname
  · exact absurd heq.symm (ht name)
  · exact h name hname

end AgreeIn

/-- The names an expression mentions are those of the terms in it. -/
theorem agreeIn_params {e : Expr} (h : ∀ name ∈ e.params, p.get? name = q.get? name) :
    AgreeIn p q e.subterms :=
  fun name hname => h name (List.mem_filterMap.mpr ⟨_, hname, rfl⟩)

/-! ## Values on a row -/

variable {row : Option Row} {window : Nat → Option Value}

mutual

/-- The value of an expression on a row depends on the parameters in it alone. -/
theorem eval_agree : ∀ e : Expr, AgreeIn p q e.subterms →
    e.eval ⟨row, some p, window⟩ = e.eval ⟨row, some q, window⟩
  | .literal _, _ => rfl
  | .field _, _ => rfl
  | .param name, h => by
      have hname : p.get? name = q.get? name := h name (by simp [subterms])
      simp only [eval, Scope.param, Option.bind_some, hname]
  | .unary _ e, h => by
      rw [subterms] at h
      simp only [eval, eval_agree e h.tail]
  | .binary op l r, h => by
      rw [subterms] at h
      have hl := eval_agree l h.tail.left
      have hr := eval_agree r h.tail.right
      cases op <;> simp only [eval, hl, hr]
  | .call _ args, h => by
      rw [subterms] at h
      simp only [eval, evalList_agree args h.tail]
  | .aggregate _ _, _ => rfl
  | .window _ _, _ => rfl
  | .case none branches otherwise, h => by
      rw [subterms] at h
      simp only [eval, evalBranches_agree branches h.tail.left.right,
        evalOption_agree otherwise h.tail.right]
  | .case (some operand) branches otherwise, h => by
      rw [subterms, subtermsOfOption] at h
      simp only [eval, eval_agree operand h.tail.left.left,
        evalBranches_agree branches h.tail.left.right, evalOption_agree otherwise h.tail.right]
  | .inList e list _, h => by
      rw [subterms] at h
      simp only [eval, eval_agree e h.tail.left, evalMember_agree list h.tail.right]
  | .between e low high _, h => by
      rw [subterms] at h
      simp only [eval, eval_agree e h.tail.left.left, eval_agree low h.tail.left.right,
        eval_agree high h.tail.right]
  | .like e pattern _, h => by
      rw [subterms] at h
      simp only [eval, eval_agree e h.tail.left, eval_agree pattern h.tail.right]
  | .isNull e _, h => by
      rw [subterms] at h
      simp only [eval, eval_agree e h.tail]

theorem evalList_agree : ∀ es : List Expr, AgreeIn p q (subtermsOfList es) →
    evalList ⟨row, some p, window⟩ es = evalList ⟨row, some q, window⟩ es
  | [], _ => rfl
  | e :: rest, h => by
      rw [subtermsOfList] at h
      simp only [evalList, eval_agree e h.left, evalList_agree rest h.right]

theorem evalOption_agree : ∀ e : Option Expr, AgreeIn p q (subtermsOfOption e) →
    evalOption ⟨row, some p, window⟩ e = evalOption ⟨row, some q, window⟩ e
  | none, _ => rfl
  | some e, h => by
      rw [subtermsOfOption] at h
      simp only [evalOption, eval_agree e h]

theorem evalBranches_agree {chosen : Value → Bool} : ∀ branches : List (Expr × Expr),
    AgreeIn p q (subtermsOfBranches branches) →
    evalBranches ⟨row, some p, window⟩ chosen branches =
      evalBranches ⟨row, some q, window⟩ chosen branches
  | [], _ => rfl
  | (whenExpr, thenExpr) :: rest, h => by
      rw [subtermsOfBranches] at h
      simp only [evalBranches, eval_agree whenExpr h.left.left, eval_agree thenExpr h.left.right,
        evalBranches_agree rest h.right]

theorem evalMember_agree {v : Value} : ∀ list : List Expr, AgreeIn p q (subtermsOfList list) →
    evalMember ⟨row, some p, window⟩ v list = evalMember ⟨row, some q, window⟩ v list
  | [], _ => rfl
  | e :: rest, h => by
      rw [subtermsOfList] at h
      simp only [evalMember, eval_agree e h.left, evalMember_agree rest h.right]

end

theorem evalLenient_agree {e : Expr} (h : AgreeIn p q e.subterms) (row : Row) :
    e.evalLenient row (some p) = e.evalLenient row (some q) := by
  rw [evalLenient, eval_agree e h, evalLenient]

/-! ## Aggregates -/

theorem evalAggregate_agree (func : AggregateFunction) {arg : Option Expr} {group : List Row}
    (h : AgreeIn p q (subtermsOfOption arg)) :
    evalAggregate func arg group (some p) = evalAggregate func arg group (some q) := by
  cases arg with
  | none => rfl
  | some e =>
      rw [subtermsOfOption] at h
      simp only [evalAggregate, evalLenient_agree h]

variable {group : List Row}

mutual

/-- The aggregates of an expression over a group depend on the parameters in it alone. -/
theorem fillAggregates_agree : ∀ e : Expr, AgreeIn p q e.subterms →
    e.fillAggregates group (some p) = e.fillAggregates group (some q)
  | .literal _, _ => rfl
  | .field _, _ => rfl
  | .param _, _ => rfl
  | .unary _ e, h => by
      rw [subterms] at h
      simp only [fillAggregates, fillAggregates_agree e h.tail]
  | .binary _ l r, h => by
      rw [subterms] at h
      simp only [fillAggregates, fillAggregates_agree l h.tail.left,
        fillAggregates_agree r h.tail.right]
  | .call _ args, h => by
      rw [subterms] at h
      simp only [fillAggregates, fillList_agree args h.tail]
  | .aggregate func arg, h => by
      rw [subterms] at h
      simp only [fillAggregates, evalAggregate_agree func h.tail]
  | .window _ _, _ => rfl
  | .case operand branches otherwise, h => by
      rw [subterms] at h
      simp only [fillAggregates, fillOption_agree operand h.tail.left.left,
        fillBranches_agree branches h.tail.left.right, fillOption_agree otherwise h.tail.right]
  | .inList e list _, h => by
      rw [subterms] at h
      simp only [fillAggregates, fillAggregates_agree e h.tail.left,
        fillList_agree list h.tail.right]
  | .between e low high _, h => by
      rw [subterms] at h
      simp only [fillAggregates, fillAggregates_agree e h.tail.left.left,
        fillAggregates_agree low h.tail.left.right, fillAggregates_agree high h.tail.right]
  | .like e pattern _, h => by
      rw [subterms] at h
      simp only [fillAggregates, fillAggregates_agree e h.tail.left,
        fillAggregates_agree pattern h.tail.right]
  | .isNull e _, h => by
      rw [subterms] at h
      simp only [fillAggregates, fillAggregates_agree e h.tail]

theorem fillList_agree : ∀ es : List Expr, AgreeIn p q (subtermsOfList es) →
    fillList group (some p) es = fillList group (some q) es
  | [], _ => rfl
  | e :: rest, h => by
      rw [subtermsOfList] at h
      simp only [fillList, fillAggregates_agree e h.left, fillList_agree rest h.right]

theorem fillOption_agree : ∀ e : Option Expr, AgreeIn p q (subtermsOfOption e) →
    fillOption group (some p) e = fillOption group (some q) e
  | none, _ => rfl
  | some e, h => by
      rw [subtermsOfOption] at h
      simp only [fillOption, fillAggregates_agree e h]

theorem fillBranches_agree : ∀ branches : List (Expr × Expr),
    AgreeIn p q (subtermsOfBranches branches) →
    fillBranches group (some p) branches = fillBranches group (some q) branches
  | [], _ => rfl
  | (whenExpr, thenExpr) :: rest, h => by
      rw [subtermsOfBranches] at h
      simp only [fillBranches, fillAggregates_agree whenExpr h.left.left,
        fillAggregates_agree thenExpr h.left.right, fillBranches_agree rest h.right]

end

variable {params : Option Parameters}

mutual

/-- Filling in the aggregates brings no parameter into an expression. -/
theorem agreeIn_filled : ∀ (e : Expr) {e' : Expr}, AgreeIn p q e.subterms →
    e.fillAggregates group params = .ok e' → AgreeIn p q e'.subterms
  | .literal _, _, h, hfill => by
      cases hfill
      exact h
  | .field _, _, h, hfill => by
      cases hfill
      exact h
  | .param _, _, h, hfill => by
      cases hfill
      exact h
  | .unary _ e, _, h, hfill => by
      rw [subterms] at h
      rw [fillAggregates] at hfill
      obtain ⟨e', he, hfill⟩ := bind_eq_ok hfill
      cases hfill
      rw [subterms]
      exact .cons nofun (agreeIn_filled e h.tail he)
  | .binary _ l r, _, h, hfill => by
      rw [subterms] at h
      rw [fillAggregates] at hfill
      obtain ⟨l', hl, hfill⟩ := bind_eq_ok hfill
      obtain ⟨r', hr, hfill⟩ := bind_eq_ok hfill
      cases hfill
      rw [subterms]
      exact .cons nofun ((agreeIn_filled l h.tail.left hl).append (agreeIn_filled r h.tail.right hr))
  | .call _ args, _, h, hfill => by
      rw [subterms] at h
      rw [fillAggregates] at hfill
      obtain ⟨args', hargs, hfill⟩ := bind_eq_ok hfill
      cases hfill
      rw [subterms]
      exact .cons nofun (agreeIn_filledList args h.tail hargs)
  | .aggregate _ _, _, _, hfill => by
      rw [fillAggregates] at hfill
      obtain ⟨v, -, hfill⟩ := bind_eq_ok hfill
      cases hfill
      rw [subterms]
      exact .cons nofun nofun
  | .window _ _, _, h, hfill => by
      cases hfill
      exact h
  | .case operand branches otherwise, _, h, hfill => by
      rw [subterms] at h
      rw [fillAggregates] at hfill
      obtain ⟨operand', hoperand, hfill⟩ := bind_eq_ok hfill
      obtain ⟨branches', hbranches, hfill⟩ := bind_eq_ok hfill
      obtain ⟨otherwise', hotherwise, hfill⟩ := bind_eq_ok hfill
      cases hfill
      rw [subterms]
      exact .cons nofun (((agreeIn_filledOption operand h.tail.left.left hoperand).append
        (agreeIn_filledBranches branches h.tail.left.right hbranches)).append
          (agreeIn_filledOption otherwise h.tail.right hotherwise))
  | .inList e list _, _, h, hfill => by
      rw [subterms] at h
      rw [fillAggregates] at hfill
      obtain ⟨e', he, hfill⟩ := bind_eq_ok hfill
      obtain ⟨list', hlist, hfill⟩ := bind_eq_ok hfill
      cases hfill
      rw [subterms]
      exact .cons nofun ((agreeIn_filled e h.tail.left he).append
        (agreeIn_filledList list h.tail.right hlist))
  | .between e low high _, _, h, hfill => by
      rw [subterms] at h
      rw [fillAggregates] at hfill
      obtain ⟨e', he, hfill⟩ := bind_eq_ok hfill
      obtain ⟨low', hlow, hfill⟩ := bind_eq_ok hfill
      obtain ⟨high', hhigh, hfill⟩ := bind_eq_ok hfill
      cases hfill
      rw [subterms]
      exact .cons nofun (((agreeIn_filled e h.tail.left.left he).append
        (agreeIn_filled low h.tail.left.right hlow)).append
          (agreeIn_filled high h.tail.right hhigh))
  | .like e pattern _, _, h, hfill => by
      rw [subterms] at h
      rw [fillAggregates] at hfill
      obtain ⟨e', he, hfill⟩ := bind_eq_ok hfill
      obtain ⟨pattern', hpattern, hfill⟩ := bind_eq_ok hfill
      cases hfill
      rw [subterms]
      exact .cons nofun ((agreeIn_filled e h.tail.left he).append
        (agreeIn_filled pattern h.tail.right hpattern))
  | .isNull e _, _, h, hfill => by
      rw [subterms] at h
      rw [fillAggregates] at hfill
      obtain ⟨e', he, hfill⟩ := bind_eq_ok hfill
      cases hfill
      rw [subterms]
      exact .cons nofun (agreeIn_filled e h.tail he)

theorem agreeIn_filledList : ∀ (es : List Expr) {es' : List Expr},
    AgreeIn p q (subtermsOfList es) → fillList group params es = .ok es' →
    AgreeIn p q (subtermsOfList es')
  | [], _, h, hfill => by
      cases hfill
      exact h
  | e :: rest, _, h, hfill => by
      rw [subtermsOfList] at h
      rw [fillList] at hfill
      obtain ⟨e', he, hfill⟩ := bind_eq_ok hfill
      obtain ⟨rest', hrest, hfill⟩ := bind_eq_ok hfill
      cases hfill
      rw [subtermsOfList]
      exact (agreeIn_filled e h.left he).append (agreeIn_filledList rest h.right hrest)

theorem agreeIn_filledOption : ∀ (e : Option Expr) {e' : Option Expr},
    AgreeIn p q (subtermsOfOption e) → fillOption group params e = .ok e' →
    AgreeIn p q (subtermsOfOption e')
  | none, _, h, hfill => by
      cases hfill
      exact h
  | some e, _, h, hfill => by
      rw [subtermsOfOption] at h
      rw [fillOption] at hfill
      obtain ⟨e', he, hfill⟩ := bind_eq_ok hfill
      cases hfill
      rw [subtermsOfOption]
      exact agreeIn_filled e h he

theorem agreeIn_filledBranches : ∀ (branches : List (Expr × Expr)) {branches' : List (Expr × Expr)},
    AgreeIn p q (subtermsOfBranches branches) → fillBranches group params branches = .ok branches' →
    AgreeIn p q (subtermsOfBranches branches')
  | [], _, h, hfill => by
      cases hfill
      exact h
  | (whenExpr, thenExpr) :: rest, _, h, hfill => by
      rw [subtermsOfBranches] at h
      rw [fillBranches] at hfill
      obtain ⟨when', hwhen, hfill⟩ := bind_eq_ok hfill
      obtain ⟨then', hthen, hfill⟩ := bind_eq_ok hfill
      obtain ⟨rest', hrest, hfill⟩ := bind_eq_ok hfill
      cases hfill
      rw [subtermsOfBranches]
      exact ((agreeIn_filled whenExpr h.left.left hwhen).append
        (agreeIn_filled thenExpr h.left.right hthen)).append
          (agreeIn_filledBranches rest h.right hrest)

end

/-! ## Window functions -/

/-- Terms that have all terms in them among them. -/
def Closed (terms : List Expr) : Prop := ∀ t ∈ terms, t.subterms ⊆ terms

namespace Closed

theorem nil : Closed [] := nofun

theorem append {terms terms' : List Expr} (h : Closed terms) (h' : Closed terms') :
    Closed (terms ++ terms') := by
  intro t ht
  rcases List.mem_append.mp ht with ht | ht
  · exact List.Subset.trans (h t ht) (List.subset_append_left terms terms')
  · exact List.Subset.trans (h' t ht) (List.subset_append_right terms terms')

theorem under {e : Expr} {terms : List Expr} (h : Closed terms) (hterms : e.subterms = e :: terms) :
    Closed e.subterms := by
  rw [hterms]
  intro t ht
  rcases List.mem_cons.mp ht with rfl | ht
  · rw [hterms]
    exact List.Subset.refl _
  · exact List.Subset.trans (h t ht) (List.subset_cons_self e terms)

end Closed

mutual

theorem closed : ∀ e : Expr, Closed e.subterms
  | .literal _ => Closed.nil.under rfl
  | .field _ => Closed.nil.under rfl
  | .param _ => Closed.nil.under rfl
  | .unary _ e => (closed e).under (by rw [subterms])
  | .binary _ l r => ((closed l).append (closed r)).under (by rw [subterms])
  | .call _ args => (closedList args).under (by rw [subterms])
  | .aggregate _ arg => (closedOption arg).under (by rw [subterms])
  | .window _ spec => (closedSpec spec).under (by rw [subterms])
  | .case operand branches otherwise =>
      (((closedOption operand).append (closedBranches branches)).append
        (closedOption otherwise)).under (by rw [subterms])
  | .inList e list _ => ((closed e).append (closedList list)).under (by rw [subterms])
  | .between e low high _ =>
      (((closed e).append (closed low)).append (closed high)).under (by rw [subterms])
  | .like e pattern _ => ((closed e).append (closed pattern)).under (by rw [subterms])
  | .isNull e _ => (closed e).under (by rw [subterms])

theorem closedList : ∀ es : List Expr, Closed (subtermsOfList es)
  | [] => .nil
  | e :: rest => by
      rw [subtermsOfList]
      exact (closed e).append (closedList rest)

theorem closedOption : ∀ e : Option Expr, Closed (subtermsOfOption e)
  | none => .nil
  | some e => by
      rw [subtermsOfOption]
      exact closed e

theorem closedBranches : ∀ branches : List (Expr × Expr), Closed (subtermsOfBranches branches)
  | [] => .nil
  | (whenExpr, thenExpr) :: rest => by
      rw [subtermsOfBranches]
      exact ((closed whenExpr).append (closed thenExpr)).append (closedBranches rest)

theorem closedKeys : ∀ keys : List (OrderKey Expr), Closed (subtermsOfKeys keys)
  | [] => .nil
  | ⟨e, _⟩ :: rest => by
      rw [subtermsOfKeys]
      exact (closed e).append (closedKeys rest)

theorem closedFunction : ∀ func : WindowFunction Expr, Closed (subtermsOfFunction func)
  | .rowNumber => .nil
  | .rank => .nil
  | .denseRank => .nil
  | .aggregate _ arg => by
      rw [subtermsOfFunction]
      exact closedOption arg

theorem closedSpec : ∀ spec : WindowSpec Expr, Closed (subtermsOfSpec spec)
  | ⟨func, partitionBy, orderBy⟩ => by
      rw [subtermsOfSpec]
      exact ((closedFunction func).append (closedList partitionBy)).append (closedKeys orderBy)

end

theorem subterms_subset_list {e : Expr} : ∀ {es : List Expr}, e ∈ es →
    e.subterms ⊆ subtermsOfList es
  | [], h => by cases h
  | first :: rest, h => by
      rw [subtermsOfList]
      rcases List.mem_cons.mp h with rfl | h
      · exact List.subset_append_left _ _
      · exact List.Subset.trans (subterms_subset_list h) (List.subset_append_right _ _)

theorem subterms_subset_keys {k : OrderKey Expr} : ∀ {keys : List (OrderKey Expr)}, k ∈ keys →
    k.expr.subterms ⊆ subtermsOfKeys keys
  | [], h => by cases h
  | ⟨e, descending⟩ :: rest, h => by
      rw [subtermsOfKeys]
      rcases List.mem_cons.mp h with rfl | h
      · exact List.subset_append_left _ _
      · exact List.Subset.trans (subterms_subset_keys h) (List.subset_append_right _ _)

section Windows

variable {spec : WindowSpec Expr}

theorem entryOf_agree (h : AgreeIn p q (subtermsOfSpec spec)) (index : Nat) (row : Row) :
    Window.entryOf spec (some p) index row = Window.entryOf spec (some q) index row := by
  obtain ⟨func, partitionBy, orderBy⟩ := spec
  rw [subtermsOfSpec] at h
  have hpartition : (partitionBy.mapM fun e => e.evalLenient row (some p)) =
      partitionBy.mapM fun e => e.evalLenient row (some q) :=
    mapM_congr fun e he => evalLenient_agree (h.left.right.of_subset (subterms_subset_list he)) row
  have hkeys : (orderBy.mapM fun k => k.expr.evalLenient row (some p)) =
      orderBy.mapM fun k => k.expr.evalLenient row (some q) :=
    mapM_congr fun k hk => evalLenient_agree (h.right.of_subset (subterms_subset_keys hk)) row
  rw [Window.entryOf, hpartition, hkeys, Window.entryOf]

theorem entriesFrom_agree (h : AgreeIn p q (subtermsOfSpec spec)) (index : Nat) (rows : List Row) :
    Window.entriesFrom spec (some p) index rows = Window.entriesFrom spec (some q) index rows := by
  induction rows generalizing index with
  | nil => rfl
  | cons row rest ih => rw [Window.entriesFrom, entryOf_agree h, ih, Window.entriesFrom]

theorem partitionValues_agree (h : AgreeIn p q (subtermsOfSpec spec))
    (members : List Window.Entry) :
    Window.partitionValues spec (some p) members =
      Window.partitionValues spec (some q) members := by
  obtain ⟨func, partitionBy, orderBy⟩ := spec
  rw [subtermsOfSpec] at h
  cases func with
  | rowNumber => rfl
  | rank => rfl
  | denseRank => rfl
  | aggregate func arg =>
      have hfunction := h.left.left
      rw [subtermsOfFunction] at hfunction
      have hwhole : evalAggregate func arg (members.map Window.Entry.row) (some p) =
          evalAggregate func arg (members.map Window.Entry.row) (some q) :=
        evalAggregate_agree func hfunction
      simp only [Window.partitionValues, hwhole]
      cases arg with
      | none => rfl
      | some arg =>
          rw [subtermsOfOption] at hfunction
          simp only [evalLenient_agree hfunction]

/-- The values of a window function depend on the parameters in it alone. -/
theorem windowValues_agree (h : AgreeIn p q (subtermsOfSpec spec)) (rows : List Row) :
    windowValues spec rows (some p) = windowValues spec rows (some q) := by
  have hpartitions : Window.partitionValues spec (some p) = Window.partitionValues spec (some q) :=
    funext (partitionValues_agree h)
  rw [windowValues, entriesFrom_agree h, hpartitions, windowValues]

end Windows

theorem windowTable_agree {windows : List (Nat × WindowSpec Expr)}
    (h : ∀ w ∈ windows, AgreeIn p q (subtermsOfSpec w.2)) (rows : List Row) :
    windowTable rows (some p) windows = windowTable rows (some q) windows := by
  induction windows with
  | nil => rfl
  | cons w rest ih =>
      rw [windowTable, windowValues_agree (h w List.mem_cons_self),
        ih fun w hw => h w (List.mem_cons_of_mem _ hw), windowTable]

/-- The parameters in the window functions of an expression are in the expression. -/
theorem agreeIn_windows {e : Expr} (h : AgreeIn p q e.subterms) :
    ∀ w ∈ e.windows, AgreeIn p q (subtermsOfSpec w.2) := by
  intro w hw
  obtain ⟨t, ht, heq⟩ := List.mem_filterMap.mp hw
  cases t with
  | window slot spec =>
      cases heq
      have hsub := closed e _ ht
      rw [subterms] at hsub
      exact h.of_subset fun u hu => hsub (List.mem_cons_of_mem _ hu)
  | _ => cases heq

/-! ## Values on all rows -/

theorem evalAt_agree {e : Expr} (h : AgreeIn p q e.subterms) (windows : List (Nat × List Value))
    (index : Nat) (row : Row) :
    evalAt windows (some p) index row e = evalAt windows (some q) index row e :=
  eval_agree e h

/-- The values of an expression on rows depend on the parameters it mentions alone. -/
theorem evalRows_agree {e : Expr} (h : ∀ name ∈ e.params, p.get? name = q.get? name)
    (rows : List Row) (groups : Option (List (List Row))) :
    e.evalRows rows groups (some p) = e.evalRows rows groups (some q) := by
  have hin := agreeIn_params h
  -- with an aggregate the expression is filled in for each group first, and then read on the row
  have hfilled : ∀ (group : List Row) (windows : List (Nat × List Value)) (index : Nat) (row : Row),
      ((if e.containsAggregate then e.fillAggregates group (some p) else .ok e).bind
          (evalAt windows (some p) index row)) =
        (if e.containsAggregate then e.fillAggregates group (some q) else .ok e).bind
          (evalAt windows (some q) index row) := by
    intro group windows index row
    split
    · rw [fillAggregates_agree e hin]
      cases hfill : e.fillAggregates group (some q) with
      | error problem => rfl
      | ok e' => exact evalAt_agree (agreeIn_filled e hin hfill) windows index row
    · exact evalAt_agree hin windows index row
  rw [evalRows, windowTable_agree (agreeIn_windows hin), evalRows]
  simp only [hfilled]

end Expr

end RowPipeline
