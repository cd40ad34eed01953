import RowPipeline.Proofs.JoinPlaces

/-!
# Columns of joined rows

A column of the right row goes under its own name or, if the left row has one of that name, under its
qualified one. What goes under the name of another left column replaces it. A qualified reference reads the
right row's column unless a column spelt with an underscore is there.
-/

namespace RowPipeline

namespace Record

variable {α : Type}

/-- Of pairs that are entered under new names the last one of a name stays. -/
theorem get?_foldl_insert (name : String → String) (pairs : List (String × α)) (r : Record α)
    (key : String) :
    (pairs.foldl (fun merged p => merged.insert (name p.1) p.2) r).get? key =
      ((pairs.reverse.find? fun p => name p.1 = key).map Prod.snd).or (r.get? key) := by
  induction pairs using List.reverseRecOn with
  | nil => rfl
  | append_singleton pairs p ih =>
      rw [List.foldl_append, List.foldl_cons, List.foldl_nil, get?_insert, ih, List.reverse_append,
        List.reverse_singleton, List.singleton_append, List.find?_cons]
      by_cases hname : name p.1 = key
      · simp [hname]
      · simp [hname, Ne.symm hname]

end Record

namespace Query

variable {q : String} {l r : Row} {name c k : String} {v : Value}

/-! ## Names -/

/-- The name that a column of the right row goes under. -/
def joinedName (q : String) (l : Row) (c : String) : String :=
  if l.contains c then q ++ "." ++ c else c

theorem get?_mergeRows (q : String) (l r : Row) (name : String) :
    (mergeRows q l r).get? name =
      ((r.entries.reverse.find? fun p => joinedName q l p.1 = name).map Prod.snd).or (l.get? name) := by
  have hmerge : mergeRows q l r =
      r.entries.foldl (fun merged p => merged.insert (joinedName q l p.1) p.2) l := by
    rw [mergeRows]
    congr
    funext merged p
    rw [joinedName]
    split <;> rfl
  rw [hmerge, Record.get?_foldl_insert]

/-- A name that no column of the right row goes under keeps its value. -/
theorem get?_mergeRows_of_ne (h : ∀ k ∈ r.keys, joinedName q l k ≠ name) :
    (mergeRows q l r).get? name = l.get? name := by
  have hnone : (r.entries.reverse.find? fun p => joinedName q l p.1 = name) = none := by
    rw [List.find?_eq_none]
    intro p hp hname
    exact h p.1 (List.mem_map_of_mem (List.mem_reverse.mp hp)) (of_decide_eq_true hname)
  rw [get?_mergeRows, hnone]
  rfl

/-- A name that columns of the right row go under has the value of one of them. -/
theorem get?_mergeRows_of_eq (hc : c ∈ r.keys) (hname : joinedName q l c = name) :
    ∃ k v, joinedName q l k = name ∧ r.get? k = some v ∧ (mergeRows q l r).get? name = some v := by
  obtain ⟨p, hp, hpc⟩ := List.mem_map.mp hc
  have hsome : (r.entries.reverse.find? fun p => joinedName q l p.1 = name).isSome = true := by
    rw [List.find?_isSome]
    exact ⟨p, List.mem_reverse.mpr hp, decide_eq_true (hpc ▸ hname)⟩
  obtain ⟨f, hf⟩ := Option.isSome_iff_exists.mp hsome
  have hname := List.find?_some hf
  refine ⟨f.1, f.2, of_decide_eq_true hname, ?_, ?_⟩
  · exact Assoc.get?_of_mem r.nodup (List.mem_reverse.mp (List.mem_of_find?_eq_some hf))
  · rw [get?_mergeRows, hf]
    rfl

/-- A column that alone goes under a name is found there. -/
theorem get?_mergeRows_of_unique (hc : r.get? c = some v) (hname : joinedName q l c = name)
    (unique : ∀ k ∈ r.keys, joinedName q l k = name → k = c) :
    (mergeRows q l r).get? name = some v := by
  obtain ⟨k, w, hk, hw, hget⟩ := get?_mergeRows_of_eq (Record.mem_keys_of_get? hc) hname
  obtain rfl := unique k (Record.mem_keys_of_get? hw) hk
  rw [hget, ← hw, hc]

/-! ## Qualified names -/

theorem qualified_injective (h : q ++ "." ++ k = q ++ "." ++ c) : k = c := by
  have hlists := congrArg String.toList h
  simp only [String.toList_append, List.append_cancel_left_eq] at hlists
  exact String.toList_inj.mp hlists

/-- A qualified name that the right row has not comes from its bare name. -/
theorem eq_of_joinedName_qualified (hr : r.get? (q ++ "." ++ c) = none) (hk : k ∈ r.keys)
    (h : joinedName q l k = q ++ "." ++ c) : k = c ∧ l.contains c = true := by
  rw [joinedName] at h
  split at h
  · rename_i hl
    obtain rfl := qualified_injective h
    exact ⟨rfl, hl⟩
  · rw [Record.get?_eq_none_iff, ← h] at hr
    exact absurd hk hr

/-- No qualified name is one that is spelt with an underscore. -/
theorem joinedName_underscore (h : joinedName q l k = q ++ "_" ++ c) :
    k = q ++ "_" ++ c ∧ l.contains k = false := by
  rw [joinedName] at h
  split at h
  · have hlists := congrArg String.toList h
    simp only [String.toList_append, List.append_assoc, List.append_cancel_left_eq] at hlists
    exact absurd (List.cons.inj hlists).1 (by decide)
  · rename_i hl
    exact ⟨h, Bool.eq_false_iff.mpr hl⟩

/-- A name without a point is that of a column the left row has not. -/
theorem joinedName_bare (hc : '.' ∉ c.toList) (h : joinedName q l k = c) :
    k = c ∧ l.contains c = false := by
  rw [joinedName] at h
  split at h
  · rw [← h] at hc
    simp at hc
  · rename_i hl
    exact ⟨h, h ▸ Bool.eq_false_iff.mpr hl⟩

theorem splitAtLastPoint?_qualified (q : String) (hc : '.' ∉ c.toList) :
    Row.splitAtLastPoint? (q ++ "." ++ c) = some (q, c) := by
  have hreverse : (q ++ "." ++ c).toList.reverse = c.toList.reverse ++ '.' :: q.toList.reverse := by
    simp
  have hstop : ∀ d ∈ c.toList.reverse, (d != '.') = true := by
    intro d hd
    rw [bne_iff_ne]
    rintro rfl
    exact hc (List.mem_reverse.mp hd)
  rw [Row.splitAtLastPoint?, hreverse]
  simp only [List.takeWhile_append_of_pos hstop, List.dropWhile_append_of_pos hstop]
  simp

/-! ## References to joined rows -/

theorem columnNames_eq (rows : List Row) :
    columnNames rows = (rows.flatMap Record.keys).foldl addName [] := by
  rw [columnNames, List.foldl_flatMap]

/-- The columns of rows are those of any of them. -/
theorem mem_columnNames {rows : List Row} : c ∈ columnNames rows ↔ ∃ row ∈ rows, c ∈ row.keys := by
  rw [columnNames_eq, Document.mem_foldl_addName, List.mem_flatMap]
  exact or_iff_right List.not_mem_nil

theorem nodup_columnNames (rows : List Row) : (columnNames rows).Nodup := by
  rw [columnNames_eq]
  exact Document.nodup_foldl_addName _ List.nodup_nil

/-- Where the left row has the column too, its qualified name reads the right row's. -/
theorem lookup?_shared (hc : r.get? c = some v) (hl : l.contains c = true)
    (hr : r.get? (q ++ "." ++ c) = none) :
    (mergeRows q l r).lookup? (q ++ "." ++ c) = some v := by
  have hname : joinedName q l c = q ++ "." ++ c := if_pos hl
  have hget := get?_mergeRows_of_unique hc hname
    fun k hk heq => (eq_of_joinedName_qualified hr hk heq).1
  rw [Row.lookup?, hget]

/-- Where the left row has not, the qualified name reads a column spelt with an underscore, and the right
row's if there is none. -/
theorem lookup?_unshared (hc : r.get? c = some v) (hpoint : '.' ∉ c.toList)
    (hl : l.contains c = false) (hleft : l.get? (q ++ "." ++ c) = none)
    (hr : r.get? (q ++ "." ++ c) = none) :
    (mergeRows q l r).lookup? (q ++ "." ++ c) =
      ((l.get? (q ++ "_" ++ c)).or (r.get? (q ++ "_" ++ c))).or (some v) := by
  have hexact : (mergeRows q l r).get? (q ++ "." ++ c) = none := by
    rw [get?_mergeRows_of_ne, hleft]
    intro k hk heq
    rw [(eq_of_joinedName_qualified hr hk heq).2] at hl
    cases hl
  have hbare : (mergeRows q l r).get? c = some v := by
    refine get?_mergeRows_of_unique hc ?_ fun k _ heq => (joinedName_bare hpoint heq).1
    exact if_neg (Bool.eq_false_iff.mp hl)
  have hunderscore : (mergeRows q l r).get? (q ++ "_" ++ c) =
      (l.get? (q ++ "_" ++ c)).or (r.get? (q ++ "_" ++ c)) := by
    cases hlc : l.get? (q ++ "_" ++ c) with
    | some w =>
        rw [get?_mergeRows_of_ne, hlc]
        · rfl
        · intro k _ heq
          obtain ⟨rfl, hnot⟩ := joinedName_underscore heq
          rw [Record.contains, hlc] at hnot
          cases hnot
    | none =>
        cases hrc : r.get? (q ++ "_" ++ c) with
        | some w =>
            refine get?_mergeRows_of_unique hrc ?_ fun k _ heq => (joinedName_underscore heq).1
            rw [joinedName, Record.contains, hlc]
            rfl
        | none =>
            rw [get?_mergeRows_of_ne, hlc]
            · rfl
            · intro k hk heq
              rw [(joinedName_underscore heq).1] at hk
              exact (Record.get?_eq_none_iff r _).mp hrc hk
  rw [Row.lookup?, hexact, splitAtLastPoint?_qualified q hpoint]
  dsimp only
  rw [hunderscore, hbare]
  cases (l.get? (q ++ "_" ++ c)).or (r.get? (q ++ "_" ++ c)) <;> rfl

variable {left right rows : List Row} {j : JoinClause}

/-- In a row that is joined of two, the qualified name of a column reads the right row's, if no row has a
column of that very name: always if the left row has the column too, and otherwise if neither row has one
spelt with an underscore, which would be read instead. -/
theorem qualified_column_read (h : joinRows left right j = .ok rows) :
    rows = (joinOrigins left right j).map (JoinOrigin.row left right j.qualifier) ∧
      ∀ l r, JoinOrigin.both l r ∈ joinOrigins left right j → ∀ c v, r.get? c = some v →
        '.' ∉ c.toList → j.qualifier ++ "." ++ c ∉ columnNames left →
        r.get? (j.qualifier ++ "." ++ c) = none →
          let row := JoinOrigin.row left right j.qualifier (.both l r)
          let spelt := j.qualifier ++ "_" ++ c
          (l.contains c = true → row.lookup? (j.qualifier ++ "." ++ c) = some v) ∧
            (l.contains c = false → row.lookup? (j.qualifier ++ "." ++ c) =
              ((l.get? spelt).or (r.get? spelt)).or (some v)) := by
  refine ⟨joinRows_eq h, ?_⟩
  intro l r hrow c v hc hpoint hleft hright
  have hl : l.get? (j.qualifier ++ "." ++ c) = none := by
    rw [Record.get?_eq_none_iff]
    exact fun hmem => hleft (mem_columnNames.mpr ⟨l, (mem_joinOrigins.mp hrow).1, hmem⟩)
  exact ⟨fun hshared => lookup?_shared hc hshared hright,
    fun hunshared => lookup?_unshared hc hpoint hunshared hl hright⟩

def order : Row := Record.ofList [("id", .int 1), ("customer", .int 7)]

def customer : Row := Record.ofList [("id", .int 7), ("name", .string "Ann")]

def customerJoin (type : JoinType) : JoinClause :=
  ⟨type, "customers", some "c", [⟨"customer", "id"⟩]⟩

theorem qualified_column_read_customer :
    let row := mergeRows "c" order customer
    joinRows [order] [customer] (customerJoin .inner) = .ok [row] ∧
      row.lookup? "c.id" = some (.int 7) ∧ row.lookup? "c.name" = some (.string "Ann") := by
  intro row
  have hjoin : joinRows [order] [customer] (customerJoin .inner) = .ok [row] := rfl
  obtain ⟨-, hread⟩ := qualified_column_read hjoin
  have hpair : JoinOrigin.both order customer ∈ joinOrigins [order] [customer] (customerJoin .inner) :=
    mem_joinOrigins.mpr ⟨List.mem_cons_self, List.mem_cons_self, rfl⟩
  exact ⟨hjoin,
    (hread order customer hpair "id" (.int 7) rfl (by decide) (by decide) rfl).1 rfl,
    (hread order customer hpair "name" (.string "Ann") rfl (by decide) (by decide) rfl).2 rfl⟩

/-- A column of the left row that is spelt with an underscore stands in front of the right row's. -/
theorem underscore_column_read :
    let left : Row := order.insert "c_name" (.string "Bob")
    ∃ row, joinRows [left] [customer] (customerJoin .inner) = .ok [row] ∧
      row = JoinOrigin.row [left] [customer] "c" (.both left customer) ∧
      customer.get? "name" = some (.string "Ann") ∧ "c.name" ∉ columnNames [left] ∧
      row.lookup? "c.name" = some (.string "Bob") :=
  ⟨_, rfl, rfl, rfl, by decide, rfl⟩

/-! ## Left columns -/

theorem get?_nullRow (columns : List String) (c : String) :
    (nullRow columns).get? c = if c ∈ columns then some .null else none := by
  have himage : (columns.map fun c => (c, Value.null)) =
      columns.filterMap fun c => (some Value.null).map fun v => (c, v) := by
    rw [← List.filterMap_eq_map]
    rfl
  rw [nullRow, himage]
  exact Record.get?_ofList_image (fun _ => some Value.null) columns c

theorem mem_keys_nullRow {columns : List String} : c ∈ (nullRow columns).keys ↔ c ∈ columns := by
  rw [← Record.contains_iff_mem_keys, Record.contains, get?_nullRow]
  split <;> simp [*]

/-- A row joined with nulls keeps its values, and is null where only the nulls have a column. -/
theorem get?_mergeRows_nullRow {columns : List String}
    (h : ∀ k ∈ columns, l.contains k = true → q ++ "." ++ k ≠ c) :
    (mergeRows q l (nullRow columns)).get? c =
      (l.get? c).or (if c ∈ columns then some .null else none) := by
  have hown : ∀ k ∈ (nullRow columns).keys, joinedName q l k = c → k = c ∧ l.contains k = false := by
    intro k hk hname
    rw [joinedName] at hname
    split at hname
    · rename_i hl
      exact absurd hname (h k (mem_keys_nullRow.mp hk) hl)
    · rename_i hl
      exact ⟨hname, Bool.eq_false_iff.mpr hl⟩
  by_cases hnull : l.contains c = false ∧ c ∈ columns
  · obtain ⟨hl, hc⟩ := hnull
    have hget : (nullRow columns).get? c = some .null := by rw [get?_nullRow, if_pos hc]
    have hleft : l.get? c = none := by rwa [← Option.isSome_eq_false_iff.trans Option.isNone_iff_eq_none]
    rw [get?_mergeRows_of_unique hget (if_neg (Bool.eq_false_iff.mp hl))
      fun k hk hname => (hown k hk hname).1, hleft, if_pos hc]
    rfl
  · rw [get?_mergeRows_of_ne]
    · cases hleft : l.get? c with
      | some v => rfl
      | none =>
          have hc : c ∉ columns := fun hc => hnull ⟨by rw [Record.contains, hleft]; rfl, hc⟩
          rw [if_neg hc]
          rfl
    · intro k hk hname
      obtain ⟨rfl, hl⟩ := hown k hk hname
      exact hnull ⟨hl, mem_keys_nullRow.mp hk⟩

/-- A joined row has the left row's value of a column, null at most if it has none, unless the column has
the qualified name of one that both rows have, or the left row has none and the right row has. -/
theorem left_column_kept (h : joinRows left right j = .ok rows) :
    rows = (joinOrigins left right j).map (JoinOrigin.row left right j.qualifier) ∧
      (∀ l r, JoinOrigin.both l r ∈ joinOrigins left right j → ∀ c ∈ columnNames left,
        (∀ k, l.contains k = true → r.contains k = true → j.qualifier ++ "." ++ k ≠ c) →
        (r.contains c = true → l.contains c = true) →
          (JoinOrigin.row left right j.qualifier (.both l r)).get? c = l.get? c) ∧
      (∀ l, JoinOrigin.leftAlone l ∈ joinOrigins left right j → ∀ c ∈ columnNames left,
        (∀ k ∈ columnNames right, l.contains k = true → j.qualifier ++ "." ++ k ≠ c) →
          (JoinOrigin.row left right j.qualifier (.leftAlone l)).get? c =
            (l.get? c).or (if c ∈ columnNames right then some .null else none)) := by
  refine ⟨joinRows_eq h, ?_, ?_⟩
  · intro l r _ c _ hqualified hmissing
    refine get?_mergeRows_of_ne fun k hk hname => ?_
    have hr : r.contains k = true := (Record.contains_iff_mem_keys r k).mpr hk
    rw [joinedName] at hname
    split at hname
    · rename_i hl
      exact hqualified k hl hr hname
    · rename_i hl
      exact hl (hname ▸ hmissing (hname ▸ hr))
  · intro l _ c _ hqualified
    exact get?_mergeRows_nullRow hqualified

def plainOrder : Row := Record.ofList [("id", .int 2), ("customer", .int 8)]

def orders : List Row := [order, plainOrder]

def customers : List Row := [customer, Record.ofList [("id", .int 9), ("name", .string "Cid")]]

def notedOrder : Row := Record.ofList [("id", .int 1), ("customer", .int 7), ("note", .string "a")]

theorem left_column_kept_customer :
    let rows := [mergeRows "c" notedOrder customer,
      mergeRows "c" plainOrder (nullRow (columnNames [customer]))]
    joinRows [notedOrder, plainOrder] [customer] (customerJoin .left) = .ok rows ∧
      rows.map (fun row => row.get? "note") = [some (.string "a"), none] := by
  intro rows
  have hjoin : joinRows [notedOrder, plainOrder] [customer] (customerJoin .left) = .ok rows := rfl
  obtain ⟨-, hmatched, halone⟩ := left_column_kept hjoin
  have hpair : JoinOrigin.both notedOrder customer ∈
      joinOrigins [notedOrder, plainOrder] [customer] (customerJoin .left) :=
    mem_joinOrigins.mpr ⟨List.mem_cons_self, List.mem_cons_self, rfl⟩
  have hlone : JoinOrigin.leftAlone plainOrder ∈
      joinOrigins [notedOrder, plainOrder] [customer] (customerJoin .left) :=
    mem_joinOrigins.mpr ⟨List.mem_cons_of_mem _ List.mem_cons_self,
      fun r hr => List.mem_singleton.mp hr ▸ rfl, .inl rfl⟩
  have hqualified : ∀ k : String, "c" ++ "." ++ k ≠ "note" := by
    intro k hk
    have hlists := congrArg String.toList hk
    simp at hlists
  have hnote := hmatched notedOrder customer hpair "note" (by decide) (fun k _ _ => hqualified k)
    fun _ => rfl
  have hmissing := halone plainOrder hlone "note" (by decide) fun k _ _ => hqualified k
  refine ⟨hjoin, ?_⟩
  rw [List.map_cons, List.map_cons, List.map_nil]
  exact congrArg₂ (fun v w => [v, w]) hnote hmissing

/-- A row without a column that other left rows have gets the right row's value there. A row that is null on
the left side keeps null there, with the right row's value under the qualified name. -/
theorem left_column_overwritten :
    let left := [notedOrder, plainOrder]
    let noted : Row := Record.ofList [("id", .int 8), ("note", .string "b")]
    let right : List Row := [noted, Record.ofList [("id", .int 9), ("note", .string "c")]]
    ∃ row lone, joinRows left right (customerJoin .right) = .ok [row, lone] ∧
      row = JoinOrigin.row left right "c" (.both plainOrder noted) ∧
      "note" ∈ columnNames left ∧ plainOrder.get? "note" = none ∧
      row.get? "note" = some (.string "b") ∧
      lone.get? "note" = some .null ∧ lone.get? "c.note" = some (.string "c") :=
  ⟨_, _, rfl, rfl, by decide, rfl, rfl, rfl, rfl⟩

end Query

end RowPipeline
