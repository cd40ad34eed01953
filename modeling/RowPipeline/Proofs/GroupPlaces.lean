import RowPipeline.Proofs.CompositeKeys
import RowPipeline.Proofs.QueryColumns

/-!
# Places of groups

Of rows that are equal each has a place of its own. By places the groups of a query are a partition: each
place is in one group, together with those whose rows have equal values in the key fields, and the groups
come in the order of their first places. An object is equal to one with equal fields in the same order.
-/

namespace RowPipeline

/-! ## Partitions -/

/-- Places in classes: each is in one class, once, and together with the places that are the same. A class
has its places in order, and the classes are in the order of their first places. -/
structure PlacePartition {n : Nat} (same : Fin n → Fin n → Prop) (classes : List (List (Fin n))) :
    Prop where
  once : classes.flatten.Perm (List.finRange n)
  together : ∀ i k, (∃ c ∈ classes, i ∈ c ∧ k ∈ c) ↔ same i k
  ordered : ∀ c ∈ classes, c.Pairwise (· < ·)
  first : (classes.filterMap List.head?).Pairwise (· < ·)

section Groups

variable {α : Type}

/-- The places of the elements of each group. -/
def groupPlaces (key : α → String) (xs : List α) : List (List (Fin xs.length)) :=
  (groupByKey (fun i : Fin xs.length => key (xs.get i)) (List.finRange xs.length)).map Prod.snd

theorem members_groupPlaces (key : α → String) (xs : List α) :
    (groupPlaces key xs).map (List.map xs.get) = (groupByKey key xs).map Prod.snd := by
  conv_rhs => rw [← List.map_get_finRange xs, groupByKey_map, List.map_map]
  unfold groupPlaces
  rw [List.map_map]
  rfl

theorem groupPlaces_ne_nil {key : α → String} {xs : List α} {c : List (Fin xs.length)}
    (hc : c ∈ groupPlaces key xs) : c ≠ [] := by
  obtain ⟨g, hg, rfl⟩ := List.mem_map.mp hc
  exact ((groupByKey_keyed _ _).2 g hg).1

/-- Groups are a partition of the places by key. -/
theorem groupPlaces_partition (key : α → String) (xs : List α) :
    PlacePartition (fun i k => key (xs.get i) = key (xs.get k)) (groupPlaces key xs) where
  once := by
    unfold groupPlaces
    rw [← List.flatMap_def]
    exact groupByKey_perm _ _
  together i k := by
    let keyAt : Fin xs.length → String := fun i => key (xs.get i)
    show (∃ c ∈ (groupByKey keyAt (List.finRange xs.length)).map Prod.snd, i ∈ c ∧ k ∈ c) ↔
      keyAt i = keyAt k
    rw [← grouped_together (List.mem_finRange i) (List.mem_finRange k)]
    simp only [List.mem_map, exists_exists_and_eq_and]
  ordered c hc := by
    unfold groupPlaces at hc
    rw [groupByKey_eq, List.map_map] at hc
    obtain ⟨k, -, rfl⟩ := List.mem_map.mp hc
    exact (List.pairwise_lt_finRange _).filter _
  first := by
    -- the first places are those that are left when each key counts once
    have hheads : (groupPlaces key xs).filterMap List.head? =
        distinctByKey (fun i : Fin xs.length => key (xs.get i)) (List.finRange xs.length) := by
      unfold groupPlaces distinctByKey
      rw [List.filterMap_map]
      rfl
    rw [hheads]
    exact (List.pairwise_lt_finRange _).sublist (distinctByKey_sublist _ _)

/-- Without groups there are no places. -/
theorem eq_nil_of_groupPlaces {key : α → String} {xs : List α} (h : groupPlaces key xs = []) :
    xs = [] := by
  have hlength := (groupPlaces_partition key xs).once.length_eq
  rw [h, List.length_finRange] at hlength
  exact List.length_eq_zero_iff.mp hlength.symm

end Groups

namespace Query

/-! ## Groups of a query -/

variable {p : Plan} {params : Parameters} {rows output : List Row} {groups : List (List Row)}

theorem groupRowKey_eq_iff_of_exact {fields : List String} {r s : Row}
    (hr : ∀ f ∈ fields, (r.lookupD f).Exact) (hs : ∀ f ∈ fields, (s.lookupD f).Exact) :
    groupRowKey fields r = groupRowKey fields s ↔ ∀ f ∈ fields, r.lookupD f = s.lookupD f := by
  unfold groupRowKey
  rw [compositeKey_eq_iff_of_exact (List.forall_mem_map.mpr hr) (List.forall_mem_map.mpr hs),
    List.map_inj_left]

/-- The places of the groups. Without a key there is a group of no rows too. -/
def classesOf (p : Plan) (rows : List Row) : List (List (Fin rows.length)) :=
  let classes := groupPlaces (groupRowKey p.groupKey) rows
  if classes.isEmpty && p.groupKey.isEmpty then [[]] else classes

theorem groupRows_eq (h : groupRows p params rows = .ok (output, groups)) :
    groups = (classesOf p rows).map (List.map rows.get) ∧
      groups.mapM (groupRow p params) = .ok output := by
  unfold groupRows at h
  obtain ⟨-, -, h⟩ := bind_eq_ok h
  obtain ⟨rows', hrows', h⟩ := bind_eq_ok h
  obtain ⟨rfl, rfl⟩ := Prod.mk.inj (Except.ok.inj h)
  refine ⟨?_, hrows'⟩
  unfold classesOf
  dsimp only
  rw [← members_groupPlaces, List.isEmpty_map]
  split <;> rfl

/-- A metric that counts the rows of a group. -/
def Metric.countsRows : Metric → Bool
  | .aggregate .count none _ => true
  | .expression (.aggregate .count none) _ => true
  | _ => false

theorem metricValue_of_countsRows {m : Metric} (hm : m.countsRows = true) (group : List Row) :
    metricValue m group params = .ok (.ofNat group.length) := by
  unfold Metric.countsRows at hm
  split at hm
  · rfl
  · rfl
  · cases hm

/-- The classes are those of equal values in the key fields. -/
theorem classesOf_partition (exact : ∀ r ∈ rows, ∀ f ∈ p.groupKey, (r.lookupD f).Exact) :
    PlacePartition (fun i k => ∀ f ∈ p.groupKey, (rows.get i).lookupD f = (rows.get k).lookupD f)
      (classesOf p rows) := by
  unfold classesOf
  dsimp only
  split
  · rename_i hempty
    rw [Bool.and_eq_true, List.isEmpty_iff] at hempty
    obtain rfl := eq_nil_of_groupPlaces hempty.1
    refine ⟨.nil, fun i => i.elim0, ?_, .nil⟩
    intro c hc
    rw [List.mem_singleton.mp hc]
    exact .nil
  · have hgroups := groupPlaces_partition (groupRowKey p.groupKey) rows
    refine { hgroups with together := fun i k => ?_ }
    rw [hgroups.together, groupRowKey_eq_iff_of_exact]
    · exact exact _ (List.getElem_mem _)
    · exact exact _ (List.getElem_mem _)

theorem classesOf_ne_nil (h : rows ≠ []) {c : List (Fin rows.length)} (hc : c ∈ classesOf p rows) :
    c ≠ [] := by
  unfold classesOf at hc
  dsimp only at hc
  split at hc
  · rename_i hempty
    rw [Bool.and_eq_true, List.isEmpty_iff] at hempty
    exact absurd (eq_nil_of_groupPlaces hempty.1) h
  · exact groupPlaces_ne_nil hc

theorem classesOf_nil (p : Plan) : classesOf p [] = if p.groupKey = [] then [[]] else [] := by
  have hnone : groupPlaces (groupRowKey p.groupKey) [] = [] := rfl
  unfold classesOf
  rw [hnone]
  simp

/-- Grouping is a partition of the rows by the values of the key fields, with a row of the result for each
group, in which a metric that counts rows is the number of rows of the group. -/
theorem groupRows_partition (exact : ∀ r ∈ rows, ∀ f ∈ p.groupKey, (r.lookupD f).Exact)
    (h : groupRows p params rows = .ok (output, groups)) :
    (∃ classes, groups = classes.map (List.map rows.get) ∧
        PlacePartition
          (fun i k => ∀ f ∈ p.groupKey, (rows.get i).lookupD f = (rows.get k).lookupD f) classes) ∧
      (rows ≠ [] → ∀ g ∈ groups, g ≠ []) ∧
      (rows = [] → groups = if p.groupKey = [] then [[]] else []) ∧
      List.Forall₂ (fun g row => groupRow p params g = .ok row) groups output ∧
      (∀ m ∈ p.metrics, m.countsRows = true → ∀ g ∈ groups,
        metricValue m g params = .ok (.ofNat g.length)) ∧
      (∀ before m after, p.metrics = before ++ m :: after → m.countsRows = true →
        m.label ∉ after.map Metric.label →
        output.map (·.get? m.label) = groups.map fun g => some (.ofNat g.length)) ∧
      (groups.map List.length).sum = rows.length := by
  obtain ⟨hgroups, houtput⟩ := groupRows_eq h
  have hpartition := classesOf_partition exact
  refine ⟨⟨_, hgroups, hpartition⟩, ?_, ?_, forall₂_of_mapM houtput, ?_, ?_, ?_⟩
  · intro hrows g hg
    rw [hgroups] at hg
    obtain ⟨c, hc, rfl⟩ := List.mem_map.mp hg
    exact fun hnil => classesOf_ne_nil hrows hc (List.map_eq_nil_iff.mp hnil)
  · rintro rfl
    rw [hgroups, classesOf_nil]
    split <;> rfl
  · exact fun m _ hm g _ => metricValue_of_countsRows hm g
  · intro before m after hmetrics hm hlast
    refine map_of_mapM _ _ (fun g row hrow => ?_) houtput
    obtain ⟨v, hv, hcell⟩ := get?_groupRow hrow hmetrics hlast
    rw [metricValue_of_countsRows hm] at hv
    rw [hcell, Except.ok.inj hv]
  · calc (groups.map List.length).sum
        = ((classesOf p rows).map List.length).sum := by
          rw [hgroups, List.map_map]
          simp [Function.comp_def]
      _ = (classesOf p rows).flatten.length := List.length_flatten.symm
      _ = (List.finRange rows.length).length := hpartition.once.length_eq
      _ = rows.length := List.length_finRange

def europe : Row := Record.ofList [("region", .string "EU")]

def america : Row := Record.ofList [("region", .string "US")]

/-- Visits, of which the last has no region. -/
def visits : List Row := [europe, america, europe, Record.ofList [("page", .int 3)]]

/-- How many visits there are in each region. -/
def visitsByRegion : Plan where
  source := "visits"
  dimensions := []
  metrics := [.aggregate .count none "visits"]
  filter := none
  joins := []
  groupBy := ["region"]
  having := none
  calculated := []
  orderBy := []
  limit := none
  offset := none
  distinct := false

theorem groupRows_partition_visits :
    ∃ output groups, groupRows visitsByRegion {} visits = .ok (output, groups) ∧
      groups.map List.length = [2, 1, 1] ∧ (groups.map List.length).sum = 4 ∧
      output.map (·.get? "visits") = [some (.int 2), some (.int 1), some (.int 1)] ∧
      ∃ classes : List (List (Fin visits.length)),
        groups = classes.map (List.map visits.get) ∧
          (∃ c ∈ classes, (0 : Fin 4) ∈ c ∧ (2 : Fin 4) ∈ c) ∧
          ¬ ∃ c ∈ classes, (0 : Fin 4) ∈ c ∧ (1 : Fin 4) ∈ c := by
  have hexact : ∀ r ∈ visits, ∀ f ∈ visitsByRegion.groupKey, (r.lookupD f).Exact := by
    intro r hr f hf
    obtain rfl : f = "region" := List.mem_singleton.mp hf
    simp only [visits, List.mem_cons, List.not_mem_nil, or_false] at hr
    rcases hr with rfl | rfl | rfl | rfl <;> exact trivial
  have hrun : ∃ output, groupRows visitsByRegion {} visits =
      .ok (output, [[europe, europe], [america], [Record.ofList [("page", .int 3)]]]) := ⟨_, rfl⟩
  obtain ⟨output, hrun⟩ := hrun
  obtain ⟨⟨classes, hgroups, hclasses⟩, -, -, -, -, hcounts, hsum⟩ :=
    groupRows_partition hexact hrun
  refine ⟨output, _, hrun, rfl, hsum, ?_, classes, hgroups, ?_, ?_⟩
  · exact hcounts [] (.aggregate .count none "visits") [] rfl rfl List.not_mem_nil
  · refine (hclasses.together (0 : Fin 4) (2 : Fin 4)).mpr ?_
    intro f hf
    obtain rfl : f = "region" := List.mem_singleton.mp hf
    rfl
  · intro htogether
    have hsame : Value.string "EU" = .string "US" :=
      (hclasses.together (0 : Fin 4) (1 : Fin 4)).mp htogether "region" List.mem_cons_self
    simp at hsame

end Query

end RowPipeline
