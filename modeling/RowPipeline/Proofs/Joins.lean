import RowPipeline.Proofs.CompositeKeys
import RowPipeline.Proofs.Grouping
import RowPipeline.Proofs.Outcomes
import RowPipeline.Proofs.Record
import RowPipeline.Step.Query.Memory

/-!
# Joins

The index of a join finds the rows that match, so a join goes through all pairs. Each of its rows is put
together from a row of either side or from one row and nulls.
-/

namespace RowPipeline

open Query

/-! ## The index -/

theorem lookup_groupByKey {α : Type} (key : α → String) (xs : List α) (k : String) :
    ((groupByKey key xs).lookup k).getD [] = xs.filter fun a => key a = k := by
  have hlookup : ∀ ks : List String,
      (ks.map fun k => (k, xs.filter fun a => key a = k)).lookup k =
        if k ∈ ks then some (xs.filter fun a => key a = k) else none := by
    intro ks
    induction ks with
    | nil => rfl
    | cons head rest ih =>
        rw [List.map_cons, List.lookup_cons, ih]
        by_cases hk : k = head
        · simp [hk]
        · rw [beq_false_of_ne hk]
          simp [hk]
  rw [groupByKey_eq, hlookup]
  split
  · rfl
  · rename_i hnot
    rw [Document.mem_foldl_addName, not_or] at hnot
    symm
    rw [Option.getD_none, List.filter_eq_nil_iff]
    exact fun a ha hkey => hnot.2 (List.mem_map.mpr ⟨a, ha, of_decide_eq_true hkey⟩)

/-- The index finds the rows with a key, with their places. -/
theorem matchesIn_indexByKey (fields : List String) (rows : List Row) (key : Option String) :
    matchesIn (indexByKey fields rows) key =
      (rows.mapIdx Prod.mk).filter fun p => key.isSome && joinKey? fields p.2 = key := by
  cases key with
  | none => simp [matchesIn]
  | some k =>
      have hindexed : (rows.mapIdx fun i r => (joinKey? fields r).map fun k => (k, i, r)).filterMap id =
          (rows.mapIdx Prod.mk).filterMap fun p => (joinKey? fields p.2).map fun k => (k, p) := by
        have hmap : (rows.mapIdx fun i r => (joinKey? fields r).map fun k => (k, i, r)) =
            (rows.mapIdx Prod.mk).map fun p => (joinKey? fields p.2).map fun k => (k, p) := by
          rw [List.mapIdx_eq_zipIdx_map, List.mapIdx_eq_zipIdx_map, List.map_map]
          rfl
        rw [hmap, List.filterMap_map]
        rfl
      have hplaces : ∀ groups : List (String × List (String × Nat × Row)),
          (groups.map fun g => (g.1, g.2.map Prod.snd)).lookup k =
            (groups.lookup k).map (List.map Prod.snd) := by
        intro groups
        induction groups with
        | nil => rfl
        | cons g rest ih =>
            rw [List.map_cons, List.lookup_cons, List.lookup_cons, ih]
            cases k == g.1 <;> rfl
      have hfound := lookup_groupByKey Prod.fst
        ((rows.mapIdx Prod.mk).filterMap fun p => (joinKey? fields p.2).map fun k => (k, p)) k
      rw [matchesIn, indexByKey, hindexed, Option.bind_some, hplaces, ← List.map_nil (f := Prod.snd),
        Option.getD_map, hfound, List.filter_filterMap, List.map_filterMap, ← List.filterMap_eq_filter]
      refine List.filterMap_congr fun p _ => ?_
      cases hkey : joinKey? fields p.2 with
      | none => simp [Option.guard, hkey]
      | some k' =>
          by_cases hk : k' = k
          · simp [Option.guard, Option.filter, hkey, hk]
          · simp [Option.guard, Option.filter, hkey, hk]

/-! ## Matches -/

theorem joinKey?_eq_some {fields : List String} {row : Row} {k : String} :
    joinKey? fields row = some k ↔
      (∀ f ∈ fields, (row.lookupD f).isNull = false) ∧ compositeKey (fields.map row.lookupD) = k := by
  rw [joinKey?]
  split
  · rename_i hnull
    obtain ⟨v, hv, hnull⟩ := List.any_eq_true.mp hnull
    obtain ⟨f, hf, rfl⟩ := List.mem_map.mp hv
    refine iff_of_false nofun fun h => ?_
    rw [h.1 f hf] at hnull
    cases hnull
  · rename_i hnull
    rw [Option.some.injEq, and_iff_right]
    intro f hf
    rw [Bool.eq_false_iff]
    exact fun hv => hnull (List.any_eq_true.mpr ⟨_, List.mem_map_of_mem hf, hv⟩)

namespace JoinClause

/-- Whether rows match: nothing that the conditions name is null, and what they name shares keys. -/
def matchesRows (j : JoinClause) (l r : Row) : Bool :=
  j.on.all fun on => !(l.lookupD on.left).isNull && !(r.lookupD on.right).isNull &&
    (l.lookupD on.left).canonicalKey == (r.lookupD on.right).canonicalKey

/-- The rows that the index finds for a row are those it matches. -/
theorem matchesRows_iff (j : JoinClause) (l r : Row) : j.matchesRows l r = true ↔
    ∃ k, joinKey? (j.on.map (·.left)) l = some k ∧ joinKey? (j.on.map (·.right)) r = some k := by
  have hkeys : compositeKey ((j.on.map (·.right)).map r.lookupD) =
        compositeKey ((j.on.map (·.left)).map l.lookupD) ↔
      ∀ on ∈ j.on, (l.lookupD on.left).canonicalKey = (r.lookupD on.right).canonicalKey := by
    rw [compositeKey_eq_iff, eq_comm]
    simp only [List.map_map, List.map_inj_left, Function.comp_apply, Value.canonicalKey_eq_iff]
  simp only [joinKey?_eq_some, List.forall_mem_map, matchesRows, List.all_eq_true, Bool.and_eq_true_iff,
    Bool.not_eq_true_eq_eq_false, beq_iff_eq]
  constructor
  · intro h
    exact ⟨_, ⟨fun on hon => (h on hon).1.1, rfl⟩, fun on hon => (h on hon).1.2,
      hkeys.mpr fun on hon => (h on hon).2⟩
  · rintro ⟨k, ⟨hleft, hk⟩, hright, hk'⟩ on hon
    exact ⟨⟨hleft on hon, hright on hon⟩, hkeys.mp (hk'.trans hk.symm) on hon⟩

/-- Values without doubles match if they are equal and not null. -/
theorem matchesRows_iff_of_exact {j : JoinClause} {l r : Row}
    (hl : ∀ on ∈ j.on, (l.lookupD on.left).Exact) (hr : ∀ on ∈ j.on, (r.lookupD on.right).Exact) :
    j.matchesRows l r = true ↔ ∀ on ∈ j.on, (l.lookupD on.left).isNull = false ∧
      l.lookupD on.left = r.lookupD on.right := by
  rw [matchesRows, List.all_eq_true]
  refine forall₂_congr fun on hon => ?_
  rw [Bool.and_eq_true_iff, Bool.and_eq_true_iff, Bool.not_eq_true_eq_eq_false,
    Bool.not_eq_true_eq_eq_false, beq_iff_eq, Value.canonicalKey_eq_iff, (hl on hon).keyForm_eq,
    (hr on hon).keyForm_eq]
  constructor
  · exact fun h => ⟨h.1.1, h.2⟩
  · exact fun h => ⟨⟨h.1, h.2 ▸ h.1⟩, h.2⟩

/-- The index finds the rows that a row matches. -/
theorem matchesIn_eq_filter (j : JoinClause) (l : Row) (right : List Row) :
    matchesIn (indexByKey (j.on.map (·.right)) right) (joinKey? (j.on.map (·.left)) l) =
      (right.mapIdx Prod.mk).filter fun p => j.matchesRows l p.2 := by
  rw [matchesIn_indexByKey]
  refine List.filter_congr fun p _ => ?_
  rw [Bool.eq_iff_iff, matchesRows_iff, Bool.and_eq_true_iff, decide_eq_true_iff,
    Option.isSome_iff_exists]
  constructor
  · rintro ⟨⟨k, hk⟩, hsame⟩
    exact ⟨k, hk, hsame.trans hk⟩
  · rintro ⟨k, hk, hk'⟩
    exact ⟨⟨k, hk⟩, hk'.trans hk.symm⟩

end JoinClause

/-! ## Rows of a join -/

/-- What a row of a join is made of. -/
inductive JoinOrigin where
  | both (l r : Row)
  | leftAlone (l : Row)
  | rightAlone (r : Row)

/-- The row that is made. What is missing of a side is null. -/
def JoinOrigin.row (left right : List Row) (qualifier : String) : JoinOrigin → Row
  | .both l r => mergeRows qualifier l r
  | .leftAlone l => mergeRows qualifier l (nullRow (columnNames right))
  | .rightAlone r => mergeRows qualifier (nullRow (columnNames left)) r

variable {left right : List Row} {j : JoinClause}

/-- What the rows of a left row are made of, found by going through the right side. -/
def originsOf (right : List Row) (j : JoinClause) (l : Row) : List JoinOrigin :=
  let partners := right.filter (j.matchesRows l)
  if partners.isEmpty then
    if j.type = .left || j.type = .full then [.leftAlone l] else []
  else partners.map (.both l)

/-- What the rows without a left row are made of. -/
def loneOrigins (left right : List Row) (j : JoinClause) : List JoinOrigin :=
  if j.type = .right || j.type = .full then
    (right.filter fun r => !left.any fun l => j.matchesRows l r).map .rightAlone
  else []

/-- What the rows of a join are made of. -/
def joinOrigins (left right : List Row) (j : JoinClause) : List JoinOrigin :=
  left.flatMap (originsOf right j) ++ loneOrigins left right j

theorem filter_places (rows : List Row) (keep : Row → Bool) :
    ((rows.mapIdx Prod.mk).filter fun p => keep p.2).map Prod.snd = rows.filter keep := by
  have hrows : (rows.mapIdx Prod.mk).map Prod.snd = rows := by
    rw [List.mapIdx_eq_zipIdx_map, List.map_map]
    exact List.zipIdx_map_fst 0 rows
  have hfilter := List.filter_map (f := Prod.snd) (p := keep) (l := rows.mapIdx Prod.mk)
  rw [hrows] at hfilter
  exact hfilter.symm

/-- The places of the rows that were matched. -/
def usedPlaces (left right : List Row) (j : JoinClause) : List Nat :=
  left.flatMap fun l => ((right.mapIdx Prod.mk).filter fun p => j.matchesRows l p.2).map Prod.fst

theorem mem_usedPlaces {r : Row} {i : Nat}
    (h : right[i]? = some r) :
    i ∈ usedPlaces left right j ↔ ∃ l ∈ left, j.matchesRows l r = true := by
  simp only [usedPlaces, List.mem_flatMap, List.mem_map, List.mem_filter, List.mem_mapIdx]
  constructor
  · rintro ⟨l, hl, _, ⟨⟨k, hk, rfl⟩, hmatches⟩, rfl⟩
    rw [List.getElem?_eq_getElem hk] at h
    exact ⟨l, hl, Option.some.inj h ▸ hmatches⟩
  · rintro ⟨l, hl, hmatches⟩
    obtain ⟨hi, rfl⟩ := List.getElem?_eq_some_iff.mp h
    exact ⟨l, hl, (i, right[i]), ⟨⟨i, hi, rfl⟩, hmatches⟩, rfl⟩

/-- The rows at places that were not used are those that no row matches. -/
theorem filter_unused (left right : List Row) (j : JoinClause) :
    (right.zipIdx.filter fun p => p.2 ∉ usedPlaces left right j).map Prod.fst =
      right.filter fun r => !left.any fun l => j.matchesRows l r := by
  have hunused : (right.zipIdx.filter fun p => p.2 ∉ usedPlaces left right j) =
      right.zipIdx.filter fun p => !left.any fun l => j.matchesRows l p.1 := by
    refine List.filter_congr fun p hp => ?_
    rw [Bool.eq_iff_iff, decide_eq_true_iff, mem_usedPlaces (List.mem_zipIdx_iff_getElem?.mp hp),
      ← List.any_eq_true, Bool.not_eq_true, Bool.not_eq_true']
  have hfilter := List.filter_map (f := Prod.fst) (l := right.zipIdx)
    (p := fun r => !left.any fun l => j.matchesRows l r)
  rw [List.zipIdx_map_fst] at hfilter
  rw [hunused, hfilter]
  rfl

/-- A join goes through all pairs. -/
theorem joinRows_eq {rows : List Row} (h : joinRows left right j = .ok rows) :
    rows = (joinOrigins left right j).map (JoinOrigin.row left right j.qualifier) := by
  rw [joinRows] at h
  obtain ⟨-, -, h⟩ := bind_eq_ok h
  obtain ⟨-, -, h⟩ := bind_eq_ok h
  obtain rfl := Except.ok.inj h
  dsimp only
  rw [joinOrigins, loneOrigins, List.map_append, List.flatMap_map, List.flatMap_map, List.map_flatMap]
  simp only [j.matchesIn_eq_filter]
  refine congrArg₂ _ (List.flatMap_congr fun l _ => ?_) ?_
  · rw [originsOf, ← filter_places right (j.matchesRows l), List.isEmpty_map, List.map_map]
    split
    · split <;> rfl
    · rw [List.map_map]
      rfl
  · split
    · rw [← filter_unused, List.map_map, List.map_map]
      rfl
    · rfl

end RowPipeline
