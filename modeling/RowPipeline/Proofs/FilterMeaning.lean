import RowPipeline.Proofs.GatedFilters

/-!
# What resolved filters mean

A tree whose closed conditions are dropped means what is left of its groups: a group is the conjunction or
disjunction of the members that are left, and a group without any is left out itself. Where all gates are
open, this is the meaning of the tree as it was, unless it has parts without conditions: they are left
out too, and a row is no longer asked for what they say.
-/

namespace RowPipeline

/-- The connective of the results of a group's members. -/
def LogicalOp.combine : LogicalOp → List Bool → Bool
  | .and, results => results.all id
  | .or, results => results.any id

/-- The result that changes nothing in a group. -/
def LogicalOp.unit : LogicalOp → Bool
  | .and => true
  | .or => false

theorem LogicalOp.combine_singleton (op : LogicalOp) (b : Bool) : op.combine [b] = b := by
  cases op <;> simp [combine]

theorem LogicalOp.combine_unit_cons (op : LogicalOp) (results : List Bool) :
    op.combine (op.unit :: results) = op.combine results := by
  cases op <;> simp [combine, unit]

theorem LogicalOp.combine_cons (op : LogicalOp) (b : Bool) {some others : List Bool}
    (h : op.combine some = op.combine others) :
    op.combine (b :: some) = op.combine (b :: others) := by
  cases op <;> simp_all [combine]

/-- Whether a condition takes part: it has no gate, or the gate is open. -/
def FilterCondition.takesPart (params : Parameters) (c : FilterCondition) : Bool :=
  c.gate.all (Gate.holds params)

namespace FilterNode

variable {params : Parameters} {row : Row}

mutual

/-- Whether a row is accepted by the conditions that take part, if there are any. -/
def verdict (params : Parameters) (row : Row) : FilterNode → Option Bool
  | .leaf c => if c.takesPart params then some (c.holds row) else none
  | .logical op children =>
      match verdicts params row children with
      | [] => none
      | results => some (op.combine results)

/-- The verdicts of the members of a group that have one. -/
def verdicts (params : Parameters) (row : Row) : List FilterNode → List Bool
  | [] => []
  | n :: rest => (n.verdict params row).toList ++ verdicts params row rest

end

/-- No group has fewer than two members. -/
inductive Branching : FilterNode → Prop
  | leaf (c : FilterCondition) : Branching (.leaf c)
  | logical (op : LogicalOp) {children : List FilterNode} (several : 2 ≤ children.length)
      (each : ∀ n ∈ children, Branching n) : Branching (.logical op children)

/-! ## What is left of a tree -/

theorem allAccept_eq (row : Row) (children : List FilterNode) :
    allAccept row children = LogicalOp.and.combine (children.map (accepts row)) := by
  induction children with
  | nil => rfl
  | cons n rest ih => rw [allAccept, ih, List.map_cons]; rfl

theorem anyAccepts_eq (row : Row) (children : List FilterNode) :
    anyAccepts row children = LogicalOp.or.combine (children.map (accepts row)) := by
  induction children with
  | nil => rfl
  | cons n rest ih => rw [anyAccepts, ih, List.map_cons]; rfl

theorem accepts_logical (row : Row) (op : LogicalOp) (children : List FilterNode) :
    (logical op children).accepts row = op.combine (children.map (accepts row)) := by
  cases op with
  | and => exact allAccept_eq row children
  | or => exact anyAccepts_eq row children

mutual

/-- What is left of a tree accepts a row as the verdict says. -/
theorem map_accepts_resolve (params : Parameters) (row : Row) :
    ∀ n : FilterNode, (n.resolve params).map (accepts row) = n.verdict params row
  | .leaf c => by
      rw [resolve, verdict, FilterCondition.takesPart]
      split
      · rfl
      · rfl
  | .logical op children => by
      rw [resolve, verdict, ← map_accepts_resolveAll params row children]
      match resolveAll params children with
      | [] => rfl
      | [only] => exact congrArg some (op.combine_singleton _).symm
      | n :: m :: rest => exact congrArg some (accepts_logical row op (n :: m :: rest))

theorem map_accepts_resolveAll (params : Parameters) (row : Row) :
    ∀ children : List FilterNode,
      (resolveAll params children).map (accepts row) = verdicts params row children
  | [] => rfl
  | n :: rest => by
      rw [resolveAll, verdicts, List.map_append, map_accepts_resolveAll params row rest,
        ← map_accepts_resolve params row n]
      cases n.resolve params <;> rfl

end

theorem leavesOf_append (ns ms : List FilterNode) :
    leavesOf (ns ++ ms) = leavesOf ns ++ leavesOf ms := by
  induction ns with
  | nil => rfl
  | cons n rest ih => rw [List.cons_append, leavesOf, leavesOf, ih, List.append_assoc]

mutual

/-- What is left of a tree has the conditions of the tree that take part. -/
theorem leavesOf_resolve (params : Parameters) : ∀ n : FilterNode,
    leavesOf (n.resolve params).toList = n.leaves.filter (FilterCondition.takesPart params)
  | .leaf c => by
      rw [resolve, leaves, List.filter_singleton, FilterCondition.takesPart]
      split <;> simp_all [leavesOf, leaves]
  | .logical op children => by
      rw [resolve, leaves, ← leavesOf_resolveAll params children]
      match resolveAll params children with
      | [] => rfl
      | [only] => rfl
      | n :: m :: rest => exact List.append_nil _

theorem leavesOf_resolveAll (params : Parameters) : ∀ children : List FilterNode,
    leavesOf (resolveAll params children) = (leavesOf children).filter (FilterCondition.takesPart params)
  | [] => rfl
  | n :: rest => by
      rw [resolveAll, leavesOf_append, leavesOf_resolve params n, leavesOf_resolveAll params rest,
        leavesOf, List.filter_append]

end

mutual

theorem branching_resolve (params : Parameters) : ∀ n t : FilterNode,
    n.resolve params = some t → t.Branching
  | .leaf c, t, h => by
      rw [resolve] at h
      split at h
      · cases h
        exact .leaf c
      · cases h
  | .logical op children, t, h => by
      have hmembers := branching_resolveAll params children
      rcases resolve_logical h with hmember | ⟨rfl, hmore⟩
      · exact hmembers t hmember
      · exact .logical op hmore hmembers

theorem branching_resolveAll (params : Parameters) : ∀ children : List FilterNode,
    ∀ t ∈ resolveAll params children, t.Branching
  | [], _, ht => absurd ht List.not_mem_nil
  | n :: rest, t, ht => by
      rw [resolveAll, List.mem_append, Option.mem_toList] at ht
      rcases ht with hfirst | hrest
      · exact branching_resolve params n t hfirst
      · exact branching_resolveAll params rest t hrest

end

/-- Nothing is left of a tree just when it has no verdict. What is left of it otherwise accepts a row just
when the verdict is that the row is accepted; it has the conditions of the tree that take part, as they
were and in their order, and no group with fewer than two members. -/
theorem resolve_neutral (n : FilterNode) (params : Parameters) (row : Row) :
    (n.resolve params = none ↔ n.verdict params row = none) ∧
      ∀ t, n.resolve params = some t →
        (t.accepts row = true ↔ n.verdict params row = some true) ∧
          t.leaves = n.leaves.filter (FilterCondition.takesPart params) ∧ t.Branching := by
  have hverdict := map_accepts_resolve params row n
  have hleaves := leavesOf_resolve params n
  constructor
  · rw [← hverdict, Option.map_eq_none_iff]
  · intro t ht
    rw [ht] at hverdict hleaves
    refine ⟨?_, (List.append_nil _).symm.trans hleaves, branching_resolve params n t ht⟩
    rw [← hverdict, Option.map_some, Option.some.injEq]

/-- A condition on a field that takes part when there is a parameter of its name. -/
def gatedLeaf (name : String) : FilterNode :=
  .leaf ⟨name, .eq, .int 1, some (.parameterExists name)⟩

/-- Two of three conditions are left, and the inner group is one of them. -/
theorem resolve_neutral_two_left :
    let tree := logical .or [logical .and [gatedLeaf "a", gatedLeaf "b"], gatedLeaf "c"]
    let left := logical .or [gatedLeaf "a", gatedLeaf "c"]
    let params : Parameters := .ofList [("a", .int 1), ("c", .int 2)]
    let row : Row := .ofList [("a", .int 1), ("b", .int 0), ("c", .int 2)]
    tree.resolve params = some left ∧
      (left.accepts row = true ↔ tree.verdict params row = some true) ∧
        left.leaves = tree.leaves.filter (FilterCondition.takesPart params) ∧ left.Branching := by
  intro tree left params row
  have hleft : tree.resolve params = some left := rfl
  exact ⟨hleft, (resolve_neutral tree params row).2 left hleft⟩

/-! ## Open gates -/

/-- No group is empty. -/
inductive Filled : FilterNode → Prop
  | leaf (c : FilterCondition) : Filled (.leaf c)
  | logical (op : LogicalOp) {children : List FilterNode} (members : children ≠ [])
      (each : ∀ n ∈ children, Filled n) : Filled (.logical op children)

/-- A tree without conditions says what changes nothing where the tree stands: in a group of one kind or
the other, or above all groups, where it has to accept. In a tree with conditions this is so for all
members of its groups. -/
inductive Neutral : Bool → FilterNode → Prop
  | bare {unit : Bool} {n : FilterNode} (none : n.leaves = [])
      (value : ∀ row, n.accepts row = unit) : Neutral unit n
  | leaf (unit : Bool) (c : FilterCondition) : Neutral unit (.leaf c)
  | group (unit : Bool) {op : LogicalOp} {children : List FilterNode}
      (some : leavesOf children ≠ []) (parts : ∀ n ∈ children, Neutral op.unit n) :
      Neutral unit (.logical op children)

theorem Branching.filled {n : FilterNode} (h : n.Branching) : n.Filled := by
  induction h with
  | leaf c => exact .leaf c
  | logical op several each ih =>
      refine .logical op ?_ ih
      rintro rfl
      cases several

theorem Filled.leaves_ne_nil {n : FilterNode} (h : n.Filled) : n.leaves ≠ [] := by
  induction h with
  | leaf c => exact List.cons_ne_nil _ _
  | @logical op children members each ih =>
      obtain ⟨first, rest, rfl⟩ := List.exists_cons_of_ne_nil members
      rw [leaves, leavesOf]
      exact List.append_ne_nil_of_left_ne_nil (ih first List.mem_cons_self) _

/-- A tree without empty groups has no part without conditions. -/
theorem Filled.neutral {n : FilterNode} (h : n.Filled) (unit : Bool) : n.Neutral unit := by
  induction h generalizing unit with
  | leaf c => exact .leaf unit c
  | logical op members each ih =>
      have hleaves := (Filled.logical op members each).leaves_ne_nil
      exact .group unit hleaves fun n hn => ih n hn op.unit

/-- A tree has a verdict if it has conditions and all of them take part. -/
theorem resolve_eq_none {n : FilterNode}
    (opened : ∀ c ∈ n.leaves, c.takesPart params = true) :
    n.resolve params = none ↔ n.leaves = [] := by
  have hleaves := leavesOf_resolve params n
  rw [List.filter_eq_self.mpr opened] at hleaves
  constructor
  · intro h
    rw [← hleaves, h]
    rfl
  · intro h
    rw [h] at hleaves
    cases hleft : n.resolve params with
    | none => rfl
    | some t =>
        rw [hleft] at hleaves
        have ht := (branching_resolve params n t hleft).filled.leaves_ne_nil
        exact absurd ((List.append_nil _).symm.trans hleaves) ht

theorem verdict_logical {op : LogicalOp} {children : List FilterNode}
    (h : (logical op children).verdict params row ≠ none) :
    (logical op children).verdict params row =
      some (op.combine (verdicts params row children)) := by
  rw [verdict] at h ⊢
  split
  · rename_i hnone
    rw [hnone] at h
    exact absurd rfl h
  · rfl

/-- Members without a verdict do not count if they say what changes nothing. -/
theorem combine_verdicts {op : LogicalOp} {children : List FilterNode}
    (h : ∀ n ∈ children, (n.verdict params row).getD op.unit = n.accepts row) :
    op.combine (verdicts params row children) = op.combine (children.map (accepts row)) := by
  induction children with
  | nil => rfl
  | cons n rest ih =>
      obtain ⟨hn, hrest⟩ := List.forall_mem_cons.mp h
      rw [verdicts, List.map_cons, ← hn]
      cases n.verdict params row with
      | none => exact (ih hrest).trans (op.combine_unit_cons _).symm
      | some b => exact op.combine_cons b (ih hrest)

/-- With all gates open a tree accepts what its verdict says, or what changes nothing if it has none. -/
theorem Neutral.kept {unit : Bool} {n : FilterNode} (h : n.Neutral unit)
    (opened : ∀ c ∈ n.leaves, c.takesPart params = true) (row : Row) :
    (n.verdict params row).getD unit = n.accepts row := by
  induction h with
  | bare none value =>
      rw [← map_accepts_resolve, (resolve_eq_none opened).mpr none, value row]
      rfl
  | leaf unit c =>
      rw [verdict, if_pos (opened c List.mem_cons_self)]
      rfl
  | @group unit op children some parts ih =>
      have hverdict : (logical op children).verdict params row ≠ none := by
        rw [← map_accepts_resolve, ne_eq, Option.map_eq_none_iff, resolve_eq_none opened]
        exact some
      rw [verdict_logical hverdict, accepts_logical]
      refine combine_verdicts fun n hn => ih n hn fun c hc => opened c ?_
      exact mem_leavesOf.mpr ⟨n, hn, hc⟩

/-- Where all gates are open, what is left of a tree accepts the rows that the tree accepts, nothing
being left accepting every row, if no group of the tree is empty, or if at least its parts without
conditions change nothing where they stand. -/
theorem resolve_open {n : FilterNode} {params : Parameters}
    (opened : ∀ c ∈ n.leaves, ∀ gate ∈ c.gate, gate.holds params = true)
    (neutral : n.Filled ∨ n.Neutral true) (row : Row) :
    (n.resolve params).all (accepts row) = n.accepts row := by
  have hneutral : n.Neutral true := neutral.elim (fun filled => filled.neutral true) id
  have htake : ∀ c ∈ n.leaves, c.takesPart params = true := by
    intro c hc
    rw [FilterCondition.takesPart]
    cases hgate : c.gate with
    | none => rfl
    | some gate => exact opened c hc gate hgate
  rw [← hneutral.kept htake row, ← map_accepts_resolve]
  cases n.resolve params <;> rfl

/-- A condition beside a group whose only member has no conditions and accepts. -/
theorem resolve_open_beside_bare :
    let tree := logical .and [gatedLeaf "a", logical .or [logical .and []]]
    let params : Parameters := .ofList [("a", .int 1)]
    (∀ c ∈ tree.leaves, ∀ gate ∈ c.gate, gate.holds params = true) ∧ tree.Neutral true ∧
      ∀ row, (tree.resolve params).all (accepts row) = tree.accepts row := by
  intro tree params
  have hopen : ∀ c ∈ tree.leaves, ∀ gate ∈ c.gate, gate.holds params = true := by
    intro c hc gate hgate
    rw [List.mem_singleton.mp hc] at hgate
    cases hgate
    rfl
  have hneutral : tree.Neutral true := by
    refine .group true (List.cons_ne_nil _ _) ?_
    simp only [List.forall_mem_cons]
    exact ⟨.leaf _ _, .bare rfl fun _ => rfl, nofun⟩
  exact ⟨hopen, hneutral, resolve_open hopen (.inr hneutral)⟩

/-- An open gate changes what the filter means: beside the gated condition stands an empty OR, which no
row meets, and it goes when the filter is resolved. -/
theorem open_gate_drops_sibling :
    let written : Json := .object [("logic", .string "AND"), ("conditions", .array [
      .object [("field", .string "n"), ("operator", .string ">"), ("value", .number (.int 0)),
        ("conditional", .object [("type", .string "parameter_exists"),
          ("parameter", .string "p")])],
      .object [("logic", .string "OR"), ("conditions", .array [])]])]
    let tree := logical .and [.leaf ⟨"n", .gt, .int 0, some (.parameterExists "p")⟩, logical .or []]
    let params : Parameters := .ofList [("p", .int 1)]
    let row : Row := .ofList [("n", .int 1)]
    FilterNode.ofJson written = .ok (some tree) ∧
      (∀ c ∈ tree.leaves, ∀ gate ∈ c.gate, gate.holds params = true) ∧
        tree.accepts row = false ∧ (tree.resolve params).all (accepts row) = true := by
  intro written tree params row
  refine ⟨rfl, ?_, rfl, by decide +kernel⟩
  intro c hc gate hgate
  rw [List.mem_singleton.mp hc] at hgate
  cases hgate
  rfl

end FilterNode

end RowPipeline
