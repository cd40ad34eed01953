import RowPipeline.Proofs.JoinedColumns

/-!
# Joins as nested loops

A join goes through the left side in order, for each row through the right side in order. A row alone is
put together with nulls for the columns of the other side: right columns are null under the names they go
under, and left columns stay null unless one has the qualified name that a right column goes under.
-/

namespace RowPipeline.Query

/-! ## Nulls -/

section Nulls

variable {q c d : String} {l r : Row} {columns : List String}

/-- Beside nulls a column goes under its qualified name if it is one of those that are null. -/
theorem joinedName_nullRow (q : String) (columns : List String) (d : String) :
    joinedName q (nullRow columns) d = if d ∈ columns then q ++ "." ++ d else d := by
  have hcolumns : (nullRow columns).contains d = true ↔ d ∈ columns := by
    rw [Record.contains_iff_mem_keys, mem_keys_nullRow]
  rw [joinedName]
  exact if_congr hcolumns rfl rfl

/-- Nulls on the right are null under the names they go under. -/
theorem get?_joined_null (hc : c ∈ columns) :
    (mergeRows q l (nullRow columns)).get? (joinedName q l c) = some .null := by
  obtain ⟨k, v, -, hv, hget⟩ :=
    get?_mergeRows_of_eq (q := q) (l := l) (mem_keys_nullRow.mpr hc) rfl
  rw [get?_nullRow] at hv
  split at hv
  · rw [hget, ← hv]
  · cases hv

/-- Nulls on the left stay, but for a column with the qualified name of a column of the other row. -/
theorem get?_null_joined (hc : c ∈ columns)
    (apart : ∀ d ∈ columns, r.contains d = true → q ++ "." ++ d ≠ c) :
    (mergeRows q (nullRow columns) r).get? c = some .null := by
  rw [get?_mergeRows_of_ne, get?_nullRow, if_pos hc]
  intro d hd hname
  rw [joinedName_nullRow] at hname
  split at hname
  · rename_i hcolumn
    exact apart d hcolumn ((Record.contains_iff_mem_keys r d).mpr hd) hname
  · rename_i hcolumn
    exact hcolumn (hname ▸ hc)

/-- A null column with such a name is overwritten. -/
theorem get?_null_overwritten (hc : q ++ "." ++ d ∈ columns) (hd : d ∈ columns)
    (hr : r.contains d = true) :
    (mergeRows q (nullRow columns) r).get? (q ++ "." ++ d) = r.get? d := by
  obtain ⟨v, hv⟩ := Option.isSome_iff_exists.mp hr
  have hname : joinedName q (nullRow columns) d = q ++ "." ++ d := by
    rw [joinedName_nullRow, if_pos hd]
  rw [hv]
  refine get?_mergeRows_of_unique hv hname fun k _ hk => ?_
  rw [joinedName_nullRow] at hk
  split at hk
  · exact qualified_injective hk
  · rename_i hcolumn
    exact absurd (hk ▸ hc) hcolumn

end Nulls

/-! ## The loop -/

variable {left right rows : List Row} {j : JoinClause}

/-- A join is the nested loop over both sides. It meets each pair of rows that match once, and on a side
that is kept every row. A left row alone has nulls for the right columns; a right row alone has nulls for
the left columns, but for one with the qualified name that a column of both sides goes under. -/
theorem joinRows_nested_loop (h : joinRows left right j = .ok rows) :
    rows = (joinPlaces left right j).map
        (fun p => (p.origin left right).row left right j.qualifier) ∧
      (joinPlaces left right j).Nodup ∧
      (∀ p, p ∈ joinPlaces left right j ↔
        match p with
        | .both i k => j.matchesRows (left.get i) (right.get k) = true
        | .leftAlone i => (∀ k : Fin right.length, j.matchesRows (left.get i) (right.get k) = false) ∧
            (j.type = .left ∨ j.type = .full)
        | .rightAlone k => (∀ i : Fin left.length, j.matchesRows (left.get i) (right.get k) = false) ∧
            (j.type = .right ∨ j.type = .full)) ∧
      (j.type = .left ∨ j.type = .full → ∀ i, ∃ p ∈ joinPlaces left right j, p.left? = some i) ∧
      (j.type = .right ∨ j.type = .full → ∀ k, ∃ p ∈ joinPlaces left right j, p.right? = some k) ∧
      (∀ l ∈ left, ∀ c ∈ columnNames right,
        (JoinOrigin.row left right j.qualifier (.leftAlone l)).get? (joinedName j.qualifier l c) =
          some .null) ∧
      ∀ r ∈ right, ∀ c ∈ columnNames left,
        let row := JoinOrigin.row left right j.qualifier (.rightAlone r)
        ((∀ d ∈ columnNames left, r.contains d = true → j.qualifier ++ "." ++ d ≠ c) →
          row.get? c = some .null) ∧
        ∀ d ∈ columnNames left, r.contains d = true → j.qualifier ++ "." ++ d = c →
          row.get? c = r.get? d := by
  refine ⟨?_, nodup_joinPlaces, fun p => mem_joinPlaces, left_kept, right_kept, ?_, ?_⟩
  · rw [joinRows_eq h, ← origins_joinPlaces, List.map_map]
    rfl
  · intro l _ c hc
    exact get?_joined_null hc
  · intro r _ c hc
    refine ⟨get?_null_joined hc, ?_⟩
    rintro d hd hr rfl
    exact get?_null_overwritten hc hd hr

theorem joinRows_nested_loop_customers :
    ∃ first second third, joinRows orders customers (customerJoin .full) = .ok [first, second, third] ∧
      (joinPlaces orders customers (customerJoin .full)).map
          (fun p => (p.left?.map Fin.val, p.right?.map Fin.val)) =
        [(some 0, some 0), (some 1, none), (none, some 1)] ∧
      first = mergeRows "c" order customer ∧
      second.get? "c.id" = some .null ∧ second.get? "name" = some .null ∧
      third.get? "id" = some .null ∧ third.get? "customer" = some .null := by
  have hjoin : joinRows orders customers (customerJoin .full) = .ok
      [mergeRows "c" order customer, mergeRows "c" plainOrder (nullRow (columnNames customers)),
        mergeRows "c" (nullRow (columnNames orders)) customers[1]] := rfl
  obtain ⟨-, -, -, -, -, hright, hleft⟩ := joinRows_nested_loop hjoin
  have hplain : plainOrder ∈ orders := List.mem_cons_of_mem _ List.mem_cons_self
  have hlone : customers[1] ∈ customers := List.getElem_mem _
  have hqualified : ∀ d c : String, '.' ∉ c.toList → "c" ++ "." ++ d ≠ c := by
    rintro d c hpoint rfl
    exact hpoint (by simp)
  refine ⟨_, _, _, hjoin, rfl, rfl, ?_, ?_, ?_, ?_⟩
  · exact hright plainOrder hplain "id" (by decide)
  · exact hright plainOrder hplain "name" (by decide)
  · exact (hleft _ hlone "id" (by decide)).1 fun d _ _ => hqualified d "id" (by decide)
  · exact (hleft _ hlone "customer" (by decide)).1 fun d _ _ => hqualified d "customer" (by decide)

/-- A left column that is named as a qualified one is not null beside a right row alone. -/
theorem left_null_overwritten :
    let left : List Row := [Record.ofList [("id", .int 1), ("c.id", .int 100)]]
    let lone : Row := Record.ofList [("id", .int 9)]
    ∃ row, joinRows left [lone] ⟨.right, "customers", some "c", [⟨"id", "id"⟩]⟩ = .ok [row] ∧
      row = JoinOrigin.row left [lone] "c" (.rightAlone lone) ∧
      "c.id" ∈ columnNames left ∧ row.get? "c.id" = some (.int 9) :=
  ⟨_, rfl, rfl, by decide, rfl⟩

end RowPipeline.Query
