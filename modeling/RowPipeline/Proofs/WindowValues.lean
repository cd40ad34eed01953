import Mathlib.Data.Set.Function
import Mathlib.Order.Interval.Set.Basic
import RowPipeline.Proofs.Grouping
import RowPipeline.Proofs.Outcomes
import RowPipeline.Proofs.WindowPasses

/-!
# Values of window functions

What a window function is, without passes: the partition of a row are the rows with its partition values,
a row number counts the rows that precede, a rank the rows that stand before, a dense rank their different
keys, and an aggregate reduces the arguments of the partition, those of the rows that do not stand behind
where there is an order. Rows are told by their places. The values that are computed are these, wherever
partition values and sort keys have no doubles.

Of partition values and keys that are objects, two are equal only with the same fields in the same order.
The order of fields does not count for the equality of the expression language, `Value.looseEq`, so rows
that differ in it alone are in two partitions.
-/

namespace RowPipeline

namespace Window

/-! ## The definition -/

/-- The values of expressions on a row. Where one of them fails, the window function fails as a whole. -/
def valuesOn (params : Option Parameters) (exprs : List Expr) (row : Row) : List Value :=
  exprs.map fun e => (e.evalLenient row params).toOption.getD .null

section Definition

variable (spec : WindowSpec Expr) (rows : List Row) (params : Option Parameters)

def directions : List Bool := spec.orderBy.map OrderKey.descending

/-- What puts the rows at two places into one partition. -/
def partitionAt (i : Fin rows.length) : List Value := valuesOn params spec.partitionBy rows[i]

def keyAt (i : Fin rows.length) : List Value :=
  valuesOn params (spec.orderBy.map OrderKey.expr) rows[i]

/-- The argument of an aggregate; without one every row counts. -/
def argumentAt (arg : Option Expr) (i : Fin rows.length) : Value :=
  match arg with
  | some e => (e.evalLenient rows[i] params).toOption.getD .null
  | none => .bool true

/-- One row stands before another by its sort key. -/
def Before (i j : Fin rows.length) : Prop :=
  KeyBefore (directions spec) (keyAt spec rows params i) (keyAt spec rows params j)

/-- One row stands before another, or ties with it and comes earlier. -/
def Precedes (i j : Fin rows.length) : Prop :=
  Before spec rows params i j ∨ ¬ Before spec rows params j i ∧ i < j

open Classical in
/-- The places of the rows with the partition values of one, in the order of the rows. -/
noncomputable def partition (i : Fin rows.length) : List (Fin rows.length) :=
  (List.finRange rows.length).filter fun j =>
    partitionAt spec rows params j = partitionAt spec rows params i

open Classical in
noncomputable def rowNumber (i : Fin rows.length) : Nat :=
  1 + (partition spec rows params i).countP fun j => Precedes spec rows params j i

open Classical in
noncomputable def rank (i : Fin rows.length) : Nat :=
  1 + (partition spec rows params i).countP fun j => Before spec rows params j i

open Classical in
noncomputable def denseRank (i : Fin rows.length) : Nat :=
  let before := (partition spec rows params i).filter fun j => Before spec rows params j i
  1 + (before.map (keyAt spec rows params)).toFinset.card

open Classical in
/-- The value of a window function at a place. -/
def HasValue (i : Fin rows.length) (v : Value) : Prop :=
  match spec.func with
  | .rowNumber => v = .ofNat (rowNumber spec rows params i)
  | .rank => v = .ofNat (rank spec rows params i)
  | .denseRank => v = .ofNat (denseRank spec rows params i)
  | .aggregate func arg =>
      if spec.orderBy = [] then
        Expr.evalAggregate func arg ((partition spec rows params i).map fun j => rows[j]) params =
          .ok v
      else
        ∃ sorted, StableSort (Before spec rows params) (partition spec rows params i) sorted ∧
          v = aggregateValues func
            ((sorted.filter fun j => ¬ Before spec rows params i j).map (argumentAt rows params arg))

/-- No partition value and no sort key holds a double. -/
structure ExactKeys : Prop where
  partition : ∀ i : Fin rows.length, ∀ v ∈ partitionAt spec rows params i, v.Exact
  key : ∀ i : Fin rows.length, ∀ v ∈ keyAt spec rows params i, v.Exact

end Definition

variable {spec : WindowSpec Expr} {rows : List Row} {params : Option Parameters}

theorem mem_partition {i j : Fin rows.length} : j ∈ partition spec rows params i ↔
    partitionAt spec rows params j = partitionAt spec rows params i := by
  simp [partition]

theorem partition_eq {i j : Fin rows.length} (h : j ∈ partition spec rows params i) :
    partition spec rows params j = partition spec rows params i := by
  rw [partition, mem_partition.mp h, partition]

theorem pairwise_partition (i : Fin rows.length) :
    (partition spec rows params i).Pairwise (· < ·) :=
  (List.pairwise_lt_finRange _).sublist List.filter_sublist

/-! ## Order in a partition -/

namespace ExactKeys

theorem exactKey (h : ExactKeys spec rows params) (i : Fin rows.length) :
    ExactKey (directions spec) (keyAt spec rows params i) := by
  refine ⟨?_, h.key i⟩
  rw [keyAt, valuesOn, directions, List.length_map, List.length_map, List.length_map]

theorem weakOrderOn (h : ExactKeys spec rows params) (P : Fin rows.length → Prop) :
    WeakOrderOn P (Before spec rows params) := by
  have hkeys := (weakOrderOn_keyBefore (directions spec)).comap (keyAt spec rows params)
  exact hkeys.mono fun i _ => (h.exactKey i).sortKeyOf

theorem asymm_precedes (h : ExactKeys spec rows params) {i j : Fin rows.length}
    (precedes : Precedes spec rows params i j) : ¬ Precedes spec rows params j i := by
  rintro (hbefore | ⟨hnot, hlt⟩)
  · rcases precedes with hbefore' | ⟨hnot, -⟩
    · exact (h.weakOrderOn fun _ => True).asymm i j trivial trivial hbefore' hbefore
    · exact hnot hbefore
  · rcases precedes with hbefore | ⟨-, hlt'⟩
    · exact hnot hbefore
    · exact absurd hlt (Fin.not_lt.mpr hlt'.le)

end ExactKeys

open Classical in
/-- In a list that is in order by an asymmetric relation, what precedes an element stands in front. -/
theorem countP_front {α : Type} {R : α → α → Prop} (asymm : ∀ a b, R a b → ¬ R b a)
    {front back : List α} {a : α} (ordered : (front ++ a :: back).Pairwise R) :
    (front ++ a :: back).countP (fun b => R b a) = front.length := by
  obtain ⟨-, hback, hfront⟩ := List.pairwise_append.mp ordered
  have hahead : front.countP (fun b => R b a) = front.length :=
    List.countP_eq_length.mpr fun b hb => decide_eq_true (hfront b hb a List.mem_cons_self)
  have hbehind : (a :: back).countP (fun b => R b a) = 0 := by
    rw [List.countP_eq_zero]
    intro b hb hprecedes
    have hba := of_decide_eq_true hprecedes
    rcases List.mem_cons.mp hb with rfl | hb
    · exact asymm b b hba hba
    · exact asymm b a hba ((List.pairwise_cons.mp hback).1 b hb)
  rw [List.countP_append, hahead, hbehind, Nat.add_zero]

/-! ## A partition that is sorted -/

section Sorted

variable {i j : Fin rows.length} {sorted : List (Fin rows.length)}

/-- The number of a row is one more than what stands in front of it. -/
theorem rowNumber_eq (exact : ExactKeys spec rows params)
    (stable : StableSort (Before spec rows params) (partition spec rows params i) sorted)
    {front back : List (Fin rows.length)} (split : sorted = front ++ j :: back) :
    rowNumber spec rows params j = front.length + 1 := by
  classical
  -- a partition comes in the order of its places, so ties stand in that order
  have hordered : sorted.Pairwise (Precedes spec rows params) :=
    stable.pairwise (exact.weakOrderOn _) (pairwise_partition i)
  have hj : j ∈ partition spec rows params i :=
    stable.perm.mem_iff.mp (split ▸ List.mem_append_right front List.mem_cons_self)
  have hfront : sorted.countP (fun k => Precedes spec rows params k j) = front.length := by
    subst split
    exact countP_front (fun _ _ => exact.asymm_precedes) hordered
  rw [rowNumber, partition_eq hj, ← stable.perm.countP_eq, hfront, Nat.add_comm]

theorem rank_eq (h : j ∈ partition spec rows params i) :
    rank spec rows params j = 1 + countBefore false (directions spec)
      ((partition spec rows params i).map (keyAt spec rows params)) (keyAt spec rows params j) := by
  classical
  rw [rank, partition_eq h, countBefore, List.filter_map, List.countP_eq_length_filter]
  simp only [Bool.false_eq_true, if_false, List.length_map]
  rfl

theorem denseRank_eq (h : j ∈ partition spec rows params i) :
    denseRank spec rows params j = 1 + countBefore true (directions spec)
      ((partition spec rows params i).map (keyAt spec rows params)) (keyAt spec rows params j) := by
  classical
  rw [denseRank, partition_eq h, countBefore, List.filter_map]
  rfl

/-- Rows that are not ordered stay as they are. -/
theorem sorted_eq_of_unordered (unordered : spec.orderBy = [])
    (stable : StableSort (Before spec rows params) (partition spec rows params i) sorted) :
    sorted = partition spec rows params i := by
  have hnot : ∀ j k, ¬ Before spec rows params j k := by
    intro j k hbefore
    rw [Before, directions, unordered] at hbefore
    exact not_keyBefore_nil _ _ hbefore
  have hinside := stable.stable _ (List.pairwise_of_forall fun j k => hnot k j) (.refl _)
  exact (hinside.eq_of_length stable.perm.length_eq.symm).symm

/-- The row at a place with its keys. -/
def entryAt (spec : WindowSpec Expr) (rows : List Row) (params : Option Parameters)
    (i : Fin rows.length) : Entry :=
  ⟨i, rows[i], compositeKey (partitionAt spec rows params i), keyAt spec rows params i⟩

theorem ordered_entries (exact : ExactKeys spec rows params)
    (stable : StableSort (Before spec rows params) (partition spec rows params i) sorted) :
    Ordered (directions spec) (sorted.map (entryAt spec rows params)) :=
  ⟨List.forall_mem_map.mpr fun j _ => exact.exactKey j, List.pairwise_map.mpr stable.ordered⟩

theorem mem_rowNumbers_places (exact : ExactKeys spec rows params)
    (stable : StableSort (Before spec rows params) (partition spec rows params i) sorted)
    {p : Nat × Value} (h : p ∈ rowNumbers 0 (sorted.map (entryAt spec rows params))) :
    ∃ j ∈ sorted, p = (j.val, .ofNat (rowNumber spec rows params j)) := by
  obtain ⟨front, e, back, hsplit, rfl⟩ := mem_rowNumbers h
  obtain ⟨places, rest, rfl, rfl, hrest⟩ := List.map_eq_append_iff.mp hsplit
  obtain ⟨j, others, rfl, rfl, rfl⟩ := List.map_eq_cons_iff.mp hrest
  refine ⟨j, List.mem_append_right _ List.mem_cons_self, ?_⟩
  rw [rowNumber_eq exact stable rfl, List.length_map, Nat.zero_add]
  rfl

theorem mem_ranks_places (exact : ExactKeys spec rows params)
    (stable : StableSort (Before spec rows params) (partition spec rows params i) sorted)
    {dense : Bool} {p : Nat × Value}
    (h : p ∈ ranks dense (directions spec) 0 none 0 (sorted.map (entryAt spec rows params))) :
    ∃ j ∈ sorted, p = (j.val, .ofNat (1 + countBefore dense (directions spec)
      ((partition spec rows params i).map (keyAt spec rows params)) (keyAt spec rows params j))) := by
  have hstart : RankOf dense (directions spec) [] none 0 := ⟨rfl, rfl⟩
  obtain ⟨e, he, rfl⟩ := mem_ranks (ordered_entries exact stable) hstart h
  obtain ⟨j, hj, rfl⟩ := List.mem_map.mp he
  have hkeys : ([] ++ sorted.map (entryAt spec rows params)).map Entry.sortKey =
      sorted.map (keyAt spec rows params) := List.map_map
  rw [hkeys, countBefore_perm (stable.perm.map _)]
  exact ⟨j, hj, rfl⟩

open Classical in
theorem mem_runningFrom_places (exact : ExactKeys spec rows params)
    (stable : StableSort (Before spec rows params) (partition spec rows params i) sorted)
    {func : AggregateFunction} {argument : Fin rows.length → Value} {p : Nat × Value}
    (h : p ∈ runningFrom func (directions spec) [] [] none
      (sorted.map fun j => (entryAt spec rows params j, argument j))) :
    ∃ j ∈ sorted, p = (j.val, aggregateValues func
      ((sorted.filter fun k => ¬ Before spec rows params j k).map argument)) := by
  have hordered : Ordered (directions spec)
      ((sorted.map fun j => (entryAt spec rows params j, argument j)).map Prod.fst) := by
    rw [List.map_map]
    exact ordered_entries exact stable
  have hstart : PeersMet [] [] none := ⟨rfl, rfl⟩
  obtain ⟨pair, hpair, rfl⟩ := mem_runningFrom hordered hstart h
  obtain ⟨j, hj, rfl⟩ := List.mem_map.mp hpair
  refine ⟨j, hj, ?_⟩
  have hargs : upTo (directions spec) (sorted.map fun j => (entryAt spec rows params j, argument j))
      (entryAt spec rows params j) =
        (sorted.filter fun k => ¬ Before spec rows params j k).map argument := by
    rw [upTo, List.filter_map, List.map_map]
    rfl
  rw [← hargs]
  rfl

theorem eq_map_of_mapM {α : Type} {f : α → Expr.Outcome Value} {list : List α} {values : List Value}
    (h : list.mapM f = .ok values) : values = list.map fun a => (f a).toOption.getD .null := by
  have hvalue : ∀ a v, f a = .ok v → id v = (f a).toOption.getD .null := by
    intro a v hf
    rw [hf]
    rfl
  rw [← map_of_mapM _ _ hvalue h, List.map_id]

section Aggregates

variable {func : AggregateFunction} {arg : Option Expr} {out : List (Nat × Value)}

theorem partitionValues_unordered (haggregate : spec.func = .aggregate func arg)
    (unordered : spec.orderBy = [])
    (h : partitionValues spec params (sorted.map (entryAt spec rows params)) = .ok out) :
    ∃ v, Expr.evalAggregate func arg (sorted.map fun j => rows[j]) params = .ok v ∧
      out = sorted.map fun j => (j.val, v) := by
  rw [partitionValues, haggregate] at h
  dsimp only at h
  rw [if_pos (List.isEmpty_iff.mpr unordered)] at h
  obtain ⟨v, hv, h⟩ := bind_eq_ok h
  cases h
  rw [List.map_map] at hv ⊢
  exact ⟨v, hv, rfl⟩

theorem partitionValues_ordered (haggregate : spec.func = .aggregate func arg)
    (ordered : spec.orderBy ≠ [])
    (h : partitionValues spec params (sorted.map (entryAt spec rows params)) = .ok out) :
    out = runningFrom func (directions spec) [] [] none
      (sorted.map fun j => (entryAt spec rows params j, argumentAt rows params arg j)) := by
  rw [partitionValues, haggregate] at h
  dsimp only at h
  rw [if_neg (mt List.isEmpty_iff.mp ordered)] at h
  cases arg with
  | none =>
      cases h
      rw [List.map_map, List.zip_map']
      rfl
  | some e =>
      obtain ⟨args, hargs, h⟩ := bind_eq_ok h
      cases h
      rw [eq_map_of_mapM hargs, List.map_map, List.zip_map']
      rfl

end Aggregates

/-- The values that are computed for a sorted partition: one for each of its places. -/
theorem partitionValues_hasValue (exact : ExactKeys spec rows params)
    (stable : StableSort (Before spec rows params) (partition spec rows params i) sorted)
    {out : List (Nat × Value)}
    (h : partitionValues spec params (sorted.map (entryAt spec rows params)) = .ok out) :
    out.map Prod.fst = sorted.map Fin.val ∧
      ∀ p ∈ out, ∃ j : Fin rows.length, p.1 = j ∧ HasValue spec rows params j p.2 := by
  have hindices : (sorted.map (entryAt spec rows params)).map Entry.index = sorted.map Fin.val :=
    List.map_map
  have hmem : ∀ j ∈ sorted, j ∈ partition spec rows params i := fun j => stable.perm.mem_iff.mp
  cases hfunc : spec.func with
  | rowNumber =>
      rw [partitionValues, hfunc] at h
      cases h
      refine ⟨(indices_rowNumbers 0 _).trans hindices, fun p hp => ?_⟩
      obtain ⟨j, -, rfl⟩ := mem_rowNumbers_places exact stable hp
      exact ⟨j, rfl, by rw [HasValue, hfunc]⟩
  | rank =>
      rw [partitionValues, hfunc] at h
      cases h
      refine ⟨(indices_ranks _ _ _ _ _ _).trans hindices, fun p hp => ?_⟩
      obtain ⟨j, hj, rfl⟩ := mem_ranks_places exact stable hp
      exact ⟨j, rfl, by rw [HasValue, hfunc, rank_eq (hmem j hj)]⟩
  | denseRank =>
      rw [partitionValues, hfunc] at h
      cases h
      refine ⟨(indices_ranks _ _ _ _ _ _).trans hindices, fun p hp => ?_⟩
      obtain ⟨j, hj, rfl⟩ := mem_ranks_places exact stable hp
      exact ⟨j, rfl, by rw [HasValue, hfunc, denseRank_eq (hmem j hj)]⟩
  | aggregate func arg =>
      by_cases hunordered : spec.orderBy = []
      · obtain ⟨v, hv, rfl⟩ := partitionValues_unordered hfunc hunordered h
        rw [sorted_eq_of_unordered hunordered stable] at hmem hv ⊢
        refine ⟨List.map_map, fun p hp => ?_⟩
        obtain ⟨j, hj, rfl⟩ := List.mem_map.mp hp
        refine ⟨j, rfl, ?_⟩
        rw [HasValue, hfunc]
        dsimp only
        rwa [if_pos hunordered, partition_eq hj]
      · rw [partitionValues_ordered hfunc hunordered h]
        constructor
        · rw [indices_runningFrom _ _ _ _ _ _ fun _ => rfl, List.nil_append, List.map_map]
          rfl
        · intro p hp
          obtain ⟨j, hj, rfl⟩ := mem_runningFrom_places exact stable hp
          refine ⟨j, rfl, ?_⟩
          rw [HasValue, hfunc]
          dsimp only
          rw [if_neg hunordered, partition_eq (hmem j hj)]
          exact ⟨sorted, stable, rfl⟩

end Sorted

theorem stableSort_places (exact : ExactKeys spec rows params) (places : List (Fin rows.length)) :
    StableSort (Before spec rows params) places
      (sortBy (fun j k => compareSortKeys (keyAt spec rows params j) (keyAt spec rows params k)
        (directions spec)) places) :=
  stableSort_sortBy (exact.weakOrderOn _) fun j _ k _ =>
    compareSortKeys_eq_lt (exact.exactKey j).sortKeyOf (exact.exactKey k).sortKeyOf

/-- The row numbers of a partition go from one to its size. -/
theorem bijOn_rowNumber (exact : ExactKeys spec rows params) (i : Fin rows.length) :
    Set.BijOn (rowNumber spec rows params) {j | j ∈ partition spec rows params i}
      (Set.Icc 1 (partition spec rows params i).length) := by
  obtain ⟨sorted, stable⟩ : ∃ sorted, StableSort (Before spec rows params)
      (partition spec rows params i) sorted := ⟨_, stableSort_places exact _⟩
  have hnumber : ∀ n, (h : n < sorted.length) → rowNumber spec rows params sorted[n] = n + 1 := by
    intro n h
    have hsplit : sorted = sorted.take n ++ sorted[n] :: sorted.drop (n + 1) := by
      rw [List.getElem_cons_drop, List.take_append_drop]
    rw [rowNumber_eq exact stable hsplit, List.length_take, Nat.min_eq_left h.le]
  have hplace : ∀ j ∈ partition spec rows params i, ∃ n, ∃ h : n < sorted.length, sorted[n] = j :=
    fun j hj => List.getElem_of_mem (stable.perm.mem_iff.mpr hj)
  rw [← stable.perm.length_eq]
  refine ⟨?_, ?_, ?_⟩
  · intro j hj
    obtain ⟨n, hn, rfl⟩ := hplace j hj
    rw [hnumber n hn]
    exact ⟨Nat.succ_pos n, hn⟩
  · intro j hj k hk heq
    obtain ⟨n, hn, rfl⟩ := hplace j hj
    obtain ⟨m, hm, rfl⟩ := hplace k hk
    rw [hnumber n hn, hnumber m hm] at heq
    obtain rfl := Nat.succ.inj heq
    rfl
  · rintro number ⟨hpositive, hlast⟩
    obtain ⟨n, rfl⟩ := Nat.exists_eq_succ_of_ne_zero (Nat.ne_of_gt hpositive)
    exact ⟨sorted[n], stable.perm.mem_iff.mp (List.getElem_mem hlast), hnumber n hlast⟩

/-! ## All partitions -/

theorem entryOf_eq {index : Nat} {row : Row} {e : Entry} (h : entryOf spec params index row = .ok e) :
    e = ⟨index, row, compositeKey (valuesOn params spec.partitionBy row),
      valuesOn params (spec.orderBy.map OrderKey.expr) row⟩ := by
  obtain ⟨partition, hpartition, h⟩ := bind_eq_ok h
  obtain ⟨key, hkey, h⟩ := bind_eq_ok h
  cases h
  rw [eq_map_of_mapM hpartition, eq_map_of_mapM hkey, valuesOn, valuesOn, List.map_map]
  rfl

theorem entriesFrom_eq {index : Nat} {entries : List Entry}
    (h : entriesFrom spec params index rows = .ok entries) :
    entries = rows.mapIdx fun n row => ⟨index + n, row,
      compositeKey (valuesOn params spec.partitionBy row),
      valuesOn params (spec.orderBy.map OrderKey.expr) row⟩ := by
  induction rows generalizing index entries with
  | nil =>
      cases h
      rfl
  | cons row rest ih =>
      obtain ⟨e, he, h⟩ := bind_eq_ok h
      obtain ⟨others, hothers, h⟩ := bind_eq_ok h
      cases h
      rw [entryOf_eq he, ih hothers, List.mapIdx_cons]
      simp only [Nat.add_assoc, Nat.add_comm 1, Nat.add_zero]

theorem entries_eq {entries : List Entry} (h : entriesFrom spec params 0 rows = .ok entries) :
    entries = (List.finRange rows.length).map (entryAt spec rows params) := by
  rw [entriesFrom_eq h]
  refine List.ext_getElem (by simp) fun n _ _ => ?_
  simp [entryAt, partitionAt, keyAt]

/-- The groups of rows with one partition key are the partitions. -/
theorem mem_groups (exact : ExactKeys spec rows params) {members : List Entry} :
    members ∈ (groupByKey Entry.partitionKey
      ((List.finRange rows.length).map (entryAt spec rows params))).map Prod.snd ↔
      ∃ i, members = (partition spec rows params i).map (entryAt spec rows params) := by
  have hmembers : ∀ i : Fin rows.length,
      ((List.finRange rows.length).map (entryAt spec rows params)).filter
          (fun e => e.partitionKey = compositeKey (partitionAt spec rows params i)) =
        (partition spec rows params i).map (entryAt spec rows params) := by
    intro i
    rw [List.filter_map, partition]
    -- values without doubles are told by the text that keys them
    refine congrArg (List.map _) (List.filter_congr fun j _ => decide_eq_decide.mpr ?_)
    exact ⟨compositeKey_injective (exact.partition j) (exact.partition i), congrArg compositeKey⟩
  rw [groupByKey_eq, List.map_map, List.mem_map]
  simp only [Document.mem_foldl_addName, List.not_mem_nil, false_or, List.map_map, List.mem_map,
    List.mem_finRange, true_and]
  constructor
  · rintro ⟨key, ⟨i, rfl⟩, rfl⟩
    exact ⟨i, hmembers i⟩
  · rintro ⟨i, rfl⟩
    exact ⟨_, ⟨i, rfl⟩, hmembers i⟩

/-- The values of all partitions, by place: one for each place at least, and no other. -/
theorem placed_hasValue (exact : ExactKeys spec rows params) {values : List (List (Nat × Value))}
    (h : ((groupByKey Entry.partitionKey
        ((List.finRange rows.length).map (entryAt spec rows params))).map fun g =>
          sortBy (fun e f => compareSortKeys e.sortKey f.sortKey (directions spec)) g.2).mapM
      (partitionValues spec params) = .ok values) (i : Fin rows.length) :
    (∃ v, (i.val, v) ∈ values.flatten) ∧
      ∀ v, (i.val, v) ∈ values.flatten → HasValue spec rows params i v := by
  -- a partition is sorted by place
  have hsorted : ∀ j : Fin rows.length,
      sortBy (fun e f => compareSortKeys e.sortKey f.sortKey (directions spec))
          ((partition spec rows params j).map (entryAt spec rows params)) =
        (sortBy (fun k l => compareSortKeys (keyAt spec rows params k) (keyAt spec rows params l)
          (directions spec)) (partition spec rows params j)).map (entryAt spec rows params) :=
    fun j => sortBy_map _ _ _
  constructor
  · obtain ⟨g, hg, hmembers⟩ := List.mem_map.mp ((mem_groups exact).mpr ⟨i, rfl⟩)
    obtain ⟨out, hout, hvalues⟩ := exists_of_mapM h (List.mem_map_of_mem hg)
    rw [hmembers, hsorted] at hvalues
    have hindices := (partitionValues_hasValue exact (stableSort_places exact _) hvalues).1
    have hi : i.val ∈ out.map Prod.fst := by
      rw [hindices]
      exact List.mem_map_of_mem ((mem_sortBy _ i _).mpr (mem_partition.mpr rfl))
    obtain ⟨⟨_, v⟩, hv, rfl⟩ := List.mem_map.mp hi
    exact ⟨v, List.mem_flatten.mpr ⟨out, hout, hv⟩⟩
  · intro v hv
    obtain ⟨out, hout, hv⟩ := List.mem_flatten.mp hv
    obtain ⟨members, hmembers, hvalues⟩ := mem_of_mapM h hout
    obtain ⟨g, hg, rfl⟩ := List.mem_map.mp hmembers
    obtain ⟨j, hj⟩ := (mem_groups exact).mp (List.mem_map_of_mem hg)
    rw [hj, hsorted] at hvalues
    obtain ⟨k, hk, hvalue⟩ :=
      (partitionValues_hasValue exact (stableSort_places exact _) hvalues).2 _ hv
    rwa [Fin.ext hk]

end Window

/-- Where partition values and sort keys have no doubles, a window function that gives values gives each
row the value of its place, and the row numbers of a partition go from one to its size. -/
theorem windowValues_hasValue {spec : WindowSpec Expr} {rows : List Row} {params : Option Parameters}
    {values : List Value} (exact : Window.ExactKeys spec rows params)
    (h : windowValues spec rows params = .ok values) :
    values.length = rows.length ∧
      (∀ i : Fin rows.length,
        ∃ v, values[i.val]? = some v ∧ Window.HasValue spec rows params i v) ∧
      ∀ i : Fin rows.length, Set.BijOn (Window.rowNumber spec rows params)
        {j | j ∈ Window.partition spec rows params i}
        (Set.Icc 1 (Window.partition spec rows params i).length) := by
  obtain ⟨entries, hentries, h⟩ := bind_eq_ok h
  obtain ⟨partitions, hpartitions, h⟩ := bind_eq_ok h
  cases h
  rw [Window.entries_eq hentries] at hpartitions
  refine ⟨by rw [List.length_map, List.length_range], fun i => ?_, Window.bijOn_rowNumber exact⟩
  -- the first value that is found for a place is one of those it has
  obtain ⟨⟨v, hv⟩, hall⟩ := Window.placed_hasValue exact hpartitions i
  have hfound : (partitions.flatten.lookup i.val).isSome :=
    List.lookup_isSome_iff.mpr ⟨_, hv, beq_self_eq_true _⟩
  obtain ⟨w, hw⟩ := Option.isSome_iff_exists.mp hfound
  obtain ⟨front, back, hsplit, -⟩ := List.lookup_eq_some_iff.mp hw
  refine ⟨w, ?_, hall w (hsplit ▸ List.mem_append_right front List.mem_cons_self)⟩
  rw [List.getElem?_map, List.getElem?_range i.isLt, Option.map_some, hw, Option.getD_some]

/-- The rank of amounts, the greatest first, among the rows with one name. -/
def amountRank : WindowSpec Expr where
  func := .rank
  partitionBy := [.field "name"]
  orderBy := [⟨.field "amount", true⟩]

def namedAmounts : List Row :=
  [("a", 2), ("b", 1), ("a", 3), ("a", 2), ("a", 1)].map fun r =>
    .ofList [("name", .string r.1), ("amount", .int r.2)]

theorem windowValues_hasValue_ranked_amounts :
    ∃ values, Window.ExactKeys amountRank namedAmounts none ∧
      windowValues amountRank namedAmounts none = .ok values ∧
      values = [2, 1, 1, 2, 4].map Value.ofNat ∧ values.length = namedAmounts.length ∧
      ∀ i : Fin namedAmounts.length, ∃ v, values[i.val]? = some v ∧
        Window.HasValue amountRank namedAmounts none i v := by
  have hread : ∀ i : Fin namedAmounts.length, ∃ name amount,
      Window.partitionAt amountRank namedAmounts none i = [.string name] ∧
        Window.keyAt amountRank namedAmounts none i = [.int amount] := by
    intro i
    obtain ⟨r, -, hr⟩ := List.mem_map.mp (List.getElem_mem i.isLt)
    refine ⟨r.1, r.2, ?_, ?_⟩
    · rw [Window.partitionAt, Fin.getElem_fin, ← hr]
      rfl
    · rw [Window.keyAt, Fin.getElem_fin, ← hr]
      rfl
  have hexact : Window.ExactKeys amountRank namedAmounts none := by
    constructor <;> intro i v hv <;> obtain ⟨name, amount, hname, hamount⟩ := hread i
    · rw [hname, List.mem_singleton] at hv
      exact hv ▸ trivial
    · rw [hamount, List.mem_singleton] at hv
      exact hv ▸ trivial
  have hvalues : windowValues amountRank namedAmounts none = .ok ([2, 1, 1, 2, 4].map Value.ofNat) := by
    rfl
  obtain ⟨hlength, hall, -⟩ := windowValues_hasValue hexact hvalues
  exact ⟨_, hexact, hvalues, rfl, hlength, hall⟩

end RowPipeline
