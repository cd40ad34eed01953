import RowPipeline.Proofs.Joins

/-!
# Places of a join

Of rows that are equal each has a place of its own. By places a join is a nested loop that meets every pair
of rows that match once, and on a side that is kept every row.
-/

namespace RowPipeline

/-- Where a row of a join comes from: the places of two rows that match, or the place of a row that
matches none. -/
inductive JoinPlace (n m : Nat) where
  | both (i : Fin n) (k : Fin m)
  | leftAlone (i : Fin n)
  | rightAlone (k : Fin m)

namespace JoinPlace

variable {n m : Nat}

/-- The place of the left row. -/
def left? : JoinPlace n m → Option (Fin n)
  | .both i _ => some i
  | .leftAlone i => some i
  | .rightAlone _ => none

/-- The place of the right row. -/
def right? : JoinPlace n m → Option (Fin m)
  | .both _ k => some k
  | .leftAlone _ => none
  | .rightAlone k => some k

/-- What the row of a place is made of. -/
def origin (left right : List Row) : JoinPlace left.length right.length → JoinOrigin
  | .both i k => .both (left.get i) (right.get k)
  | .leftAlone i => .leftAlone (left.get i)
  | .rightAlone k => .rightAlone (right.get k)

end JoinPlace

/-! ## The nested loop -/

section Loop

variable (left right : List Row) (j : JoinClause)

/-- The places of the right rows that a row matches, in order. -/
def partnersOf (l : Row) : List (Fin right.length) :=
  (List.finRange right.length).filter fun k => j.matchesRows l (right.get k)

/-- One turn of the outer loop: a left row with each of its partners, or alone. -/
def placesOf (i : Fin left.length) : List (JoinPlace left.length right.length) :=
  if (partnersOf right j (left.get i)).isEmpty then
    if j.type = .left || j.type = .full then [.leftAlone i] else []
  else (partnersOf right j (left.get i)).map (.both i)

/-- The right rows that no left row matches. -/
def lonePlaces : List (JoinPlace left.length right.length) :=
  if j.type = .right || j.type = .full then
    ((List.finRange right.length).filter fun k =>
      !left.any fun l => j.matchesRows l (right.get k)).map .rightAlone
  else []

/-- The nested loop over both sides. -/
def joinPlaces : List (JoinPlace left.length right.length) :=
  (List.finRange left.length).flatMap (placesOf left right j) ++ lonePlaces left right j

end Loop

variable {left right : List Row} {j : JoinClause}

/-- What is left of a list is found at the places that are left. -/
theorem filter_eq_map_finRange {α : Type} (xs : List α) (keep : α → Bool) :
    xs.filter keep = ((List.finRange xs.length).filter fun i => keep (xs.get i)).map xs.get := by
  have hfilter := List.filter_map (f := xs.get) (p := keep) (l := List.finRange xs.length)
  rw [List.map_get_finRange] at hfilter
  exact hfilter

theorem rows_partnersOf (l : Row) :
    (partnersOf right j l).map right.get = right.filter (j.matchesRows l) :=
  (filter_eq_map_finRange right (j.matchesRows l)).symm

theorem origins_placesOf (i : Fin left.length) :
    (placesOf left right j i).map (JoinPlace.origin left right) = originsOf right j (left.get i) := by
  have hempty : (right.filter (j.matchesRows (left.get i))).isEmpty =
      (partnersOf right j (left.get i)).isEmpty := by
    rw [← rows_partnersOf, List.isEmpty_map]
  unfold placesOf originsOf
  dsimp only
  rw [hempty]
  split
  · split <;> rfl
  · rw [← rows_partnersOf, List.map_map, List.map_map]
    rfl

theorem origins_lonePlaces : (lonePlaces left right j).map (JoinPlace.origin left right) =
    loneOrigins left right j := by
  unfold lonePlaces loneOrigins
  rw [filter_eq_map_finRange right]
  split
  · rw [List.map_map, List.map_map]
    rfl
  · rfl

/-- By place or by row, the loop is the same. -/
theorem origins_joinPlaces : (joinPlaces left right j).map (JoinPlace.origin left right) =
    joinOrigins left right j := by
  have hleft : left.flatMap (originsOf right j) =
      (List.finRange left.length).flatMap fun i => originsOf right j (left.get i) := by
    conv_lhs => rw [← List.map_get_finRange left, List.flatMap_map]
  rw [joinPlaces, joinOrigins, List.map_append, List.map_flatMap, origins_lonePlaces, hleft]
  exact congrArg (· ++ _) (List.flatMap_congr fun i _ => origins_placesOf i)

/-! ## What the loop meets -/

theorem mem_partnersOf {l : Row} {k : Fin right.length} :
    k ∈ partnersOf right j l ↔ j.matchesRows l (right.get k) = true := by
  simp [partnersOf]

theorem partnersOf_eq_nil {l : Row} :
    partnersOf right j l = [] ↔ ∀ k : Fin right.length, j.matchesRows l (right.get k) = false := by
  rw [List.eq_nil_iff_forall_not_mem]
  exact forall_congr' fun k => by rw [mem_partnersOf, Bool.not_eq_true]

/-- The places of a turn. -/
theorem mem_placesOf {i : Fin left.length} {p : JoinPlace left.length right.length} :
    p ∈ placesOf left right j i ↔
      (∃ k, j.matchesRows (left.get i) (right.get k) = true ∧ p = .both i k) ∨
        (∀ k : Fin right.length, j.matchesRows (left.get i) (right.get k) = false) ∧
          (j.type = .left ∨ j.type = .full) ∧ p = .leftAlone i := by
  unfold placesOf
  split
  · rename_i hempty
    have hnone := partnersOf_eq_nil.mp (List.isEmpty_iff.mp hempty)
    have hpair : ¬ ∃ k, j.matchesRows (left.get i) (right.get k) = true ∧ p = .both i k := by
      rintro ⟨k, hmatches, -⟩
      rw [hnone k] at hmatches
      cases hmatches
    rw [or_iff_right hpair, and_iff_right hnone]
    split
    · rename_i htype
      rw [List.mem_singleton, and_iff_right (by simpa using htype)]
    · rename_i htype
      exact iff_of_false List.not_mem_nil fun h => htype (by simpa using h.1)
  · rename_i hsome
    have hpartner : ¬ ∀ k : Fin right.length, j.matchesRows (left.get i) (right.get k) = false :=
      fun h => hsome (List.isEmpty_iff.mpr (partnersOf_eq_nil.mpr h))
    rw [or_iff_left fun h => hpartner h.1, List.mem_map]
    exact exists_congr fun k => and_congr mem_partnersOf eq_comm

theorem mem_lonePlaces {p : JoinPlace left.length right.length} :
    p ∈ lonePlaces left right j ↔
      ∃ k : Fin right.length,
        (∀ i : Fin left.length, j.matchesRows (left.get i) (right.get k) = false) ∧
          (j.type = .right ∨ j.type = .full) ∧ p = .rightAlone k := by
  have hlone : ∀ r : Row, (!left.any fun l => j.matchesRows l r) = true ↔
      ∀ i : Fin left.length, j.matchesRows (left.get i) r = false := by
    intro r
    rw [Bool.not_eq_true', List.any_eq_false, List.forall_mem_iff_forall_getElem]
    simp [Fin.forall_iff]
  unfold lonePlaces
  split
  · rename_i htype
    have htype : j.type = .right ∨ j.type = .full := by simpa using htype
    rw [List.mem_map]
    refine exists_congr fun k => ?_
    rw [List.mem_filter, and_iff_right (List.mem_finRange k), hlone, and_iff_right htype]
    exact and_congr_right fun _ => eq_comm
  · rename_i htype
    refine iff_of_false List.not_mem_nil ?_
    rintro ⟨k, -, hright, -⟩
    exact htype (by simpa using hright)

/-- The loop meets the pairs that match and, on a side that is kept, the rows that match none. -/
theorem mem_joinPlaces {p : JoinPlace left.length right.length} : p ∈ joinPlaces left right j ↔
    match p with
    | .both i k => j.matchesRows (left.get i) (right.get k) = true
    | .leftAlone i => (∀ k : Fin right.length, j.matchesRows (left.get i) (right.get k) = false) ∧
        (j.type = .left ∨ j.type = .full)
    | .rightAlone k => (∀ i : Fin left.length, j.matchesRows (left.get i) (right.get k) = false) ∧
        (j.type = .right ∨ j.type = .full) := by
  rw [joinPlaces, List.mem_append, List.mem_flatMap]
  simp only [List.mem_finRange, true_and, mem_placesOf, mem_lonePlaces]
  cases p <;> simp

theorem nodup_joinPlaces : (joinPlaces left right j).Nodup := by
  have hpartners : ∀ l, (partnersOf right j l).Nodup := fun l => (List.nodup_finRange _).filter _
  have hplaces : ∀ i : Fin left.length, (placesOf left right j i).Nodup := by
    intro i
    unfold placesOf
    split
    · split
      · exact List.nodup_singleton _
      · exact List.nodup_nil
    · exact (hpartners _).map fun k k' h => (JoinPlace.both.inj h).2
  have hlone : (lonePlaces left right j).Nodup := by
    unfold lonePlaces
    split
    · exact ((List.nodup_finRange _).filter _).map fun k k' h => JoinPlace.rightAlone.inj h
    · exact List.nodup_nil
  -- a place tells the turn it is met in
  have hturn : ∀ i : Fin left.length, ∀ p ∈ placesOf left right j i, p.left? = some i := by
    intro i p hp
    rcases mem_placesOf.mp hp with ⟨k, -, rfl⟩ | ⟨-, -, rfl⟩ <;> rfl
  rw [joinPlaces, List.nodup_append]
  refine ⟨List.nodup_flatMap.mpr ⟨fun i _ => hplaces i, ?_⟩, hlone, ?_⟩
  · refine (List.nodup_finRange left.length).imp fun {i i'} hne p hp hp' => hne ?_
    exact Option.some.inj ((hturn i p hp).symm.trans (hturn i' p hp'))
  · rintro p hp q hq rfl
    obtain ⟨i, -, hp⟩ := List.mem_flatMap.mp hp
    obtain ⟨k, -, -, rfl⟩ := mem_lonePlaces.mp hq
    cases hturn i _ hp

/-- A side that is kept loses no row. -/
theorem left_kept (kept : j.type = .left ∨ j.type = .full) (i : Fin left.length) :
    ∃ p ∈ joinPlaces left right j, p.left? = some i := by
  by_cases hpartner : ∃ k : Fin right.length, j.matchesRows (left.get i) (right.get k) = true
  · obtain ⟨k, hmatches⟩ := hpartner
    exact ⟨.both i k, mem_joinPlaces.mpr hmatches, rfl⟩
  · refine ⟨.leftAlone i, mem_joinPlaces.mpr ⟨fun k => ?_, kept⟩, rfl⟩
    exact Bool.eq_false_iff.mpr fun hmatches => hpartner ⟨k, hmatches⟩

theorem right_kept (kept : j.type = .right ∨ j.type = .full) (k : Fin right.length) :
    ∃ p ∈ joinPlaces left right j, p.right? = some k := by
  by_cases hpartner : ∃ i : Fin left.length, j.matchesRows (left.get i) (right.get k) = true
  · obtain ⟨i, hmatches⟩ := hpartner
    exact ⟨.both i k, mem_joinPlaces.mpr hmatches, rfl⟩
  · refine ⟨.rightAlone k, mem_joinPlaces.mpr ⟨fun i => ?_, kept⟩, rfl⟩
    exact Bool.eq_false_iff.mpr fun hmatches => hpartner ⟨i, hmatches⟩

/-- The rows of a join are those of the pairs that match and, on a side that is kept, of the rows that
match none. -/
theorem mem_joinOrigins {o : JoinOrigin} : o ∈ joinOrigins left right j ↔
    match o with
    | .both l r => l ∈ left ∧ r ∈ right ∧ j.matchesRows l r = true
    | .leftAlone l =>
        l ∈ left ∧ (∀ r ∈ right, j.matchesRows l r = false) ∧ (j.type = .left ∨ j.type = .full)
    | .rightAlone r =>
        r ∈ right ∧ (∀ l ∈ left, j.matchesRows l r = false) ∧
          (j.type = .right ∨ j.type = .full) := by
  have hrows : ∀ (rows : List Row) (P : Row → Prop),
      (∀ i : Fin rows.length, P (rows.get i)) ↔ ∀ row ∈ rows, P row := by
    intro rows P
    rw [List.forall_mem_iff_forall_getElem]
    simp [Fin.forall_iff]
  rw [← origins_joinPlaces, List.mem_map]
  constructor
  · rintro ⟨p, hp, rfl⟩
    have hplace := mem_joinPlaces.mp hp
    cases p with
    | both i k => exact ⟨List.getElem_mem _, List.getElem_mem _, hplace⟩
    | leftAlone i =>
        exact ⟨List.getElem_mem _, (hrows right _).mp hplace.1, hplace.2⟩
    | rightAlone k =>
        exact ⟨List.getElem_mem _, (hrows left _).mp hplace.1, hplace.2⟩
  · intro ho
    cases o with
    | both l r =>
        obtain ⟨hl, hr, hmatches⟩ := ho
        obtain ⟨i, hi, rfl⟩ := List.getElem_of_mem hl
        obtain ⟨k, hk, rfl⟩ := List.getElem_of_mem hr
        exact ⟨.both ⟨i, hi⟩ ⟨k, hk⟩, mem_joinPlaces.mpr hmatches, rfl⟩
    | leftAlone l =>
        obtain ⟨hl, hnone, htype⟩ := ho
        obtain ⟨i, hi, rfl⟩ := List.getElem_of_mem hl
        exact ⟨.leftAlone ⟨i, hi⟩, mem_joinPlaces.mpr ⟨(hrows right _).mpr hnone, htype⟩, rfl⟩
    | rightAlone r =>
        obtain ⟨hr, hnone, htype⟩ := ho
        obtain ⟨k, hk, rfl⟩ := List.getElem_of_mem hr
        exact ⟨.rightAlone ⟨k, hk⟩, mem_joinPlaces.mpr ⟨(hrows left _).mpr hnone, htype⟩, rfl⟩

end RowPipeline
