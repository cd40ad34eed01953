import RowPipeline.Proofs.GroupPlaces
import RowPipeline.Proofs.Joins
import RowPipeline.Proofs.Reshaping
import RowPipeline.Proofs.WindowValues

/-!
# Tuples told by their keys

Values without doubles are told by the text of their keys, with any strings in them and at any depth. So
what goes by that text goes by the values: the groups of a query, the index of a join or a lookup, the cells
of a table and the partitions of a window. An object is equal to one with equal fields in the same order.
-/

namespace RowPipeline

/-! ## What goes by the key -/

/-- The index finds the rows with the values of a row, none of them null. -/
theorem JoinClause.mem_matchesIn_iff {j : JoinClause} {l : Row} {rows : List Row}
    (hl : ∀ on ∈ j.on, (l.lookupD on.left).Exact)
    (hrows : ∀ r ∈ rows, ∀ on ∈ j.on, (r.lookupD on.right).Exact) (r : Row) :
    r ∈ (matchesIn (indexByKey (j.on.map (·.right)) rows)
        (joinKey? (j.on.map (·.left)) l)).map Prod.snd ↔
      r ∈ rows ∧ ∀ on ∈ j.on, (l.lookupD on.left).isNull = false ∧
        l.lookupD on.left = r.lookupD on.right := by
  rw [j.matchesIn_eq_filter, filter_places, List.mem_filter]
  exact and_congr_right fun hr => matchesRows_iff_of_exact hl (hrows r hr)

/-- The rows of a cell are those with its values. -/
theorem Pivot.mem_cellOf_iff {config : Pivot.Config} {rows : List Row} {values names : List Value}
    {column : Pivot.Column} (hindex : ∀ r ∈ rows, ∀ v ∈ tuple config.index r, v.Exact)
    (hcolumns : ∀ r ∈ rows, ∀ v ∈ tuple config.columns r, v.Exact)
    (hvalues : ∀ v ∈ values, v.Exact) (hnames : ∀ v ∈ names, v.Exact)
    (hkey : column.key = compositeKey names) (r : Row) :
    r ∈ cellOf config rows values column ↔
      r ∈ rows ∧ tuple config.index r = values ∧ tuple config.columns r = names := by
  unfold cellOf
  rw [List.mem_filter, Bool.and_eq_true, decide_eq_true_iff, decide_eq_true_iff, hkey]
  refine and_congr_right fun hr => ?_
  rw [compositeKey_eq_iff_of_exact (hindex r hr) hvalues,
    compositeKey_eq_iff_of_exact (hcolumns r hr) hnames]

/-- Every cell of a table stands for values of the index fields and values of the column fields. -/
theorem Pivot.cell_values {config : Pivot.Config} {rows : List Row}
    (exact : ∀ r ∈ rows, ∀ f ∈ config.index ++ config.columns, (r.lookupD f).Exact)
    {values : List Value} (hvalues : values ∈ sortedTuples config.index rows)
    {column : Pivot.Column} (hcolumn : column ∈ tableColumns config rows) :
    ∃ names ∈ sortedTuples config.columns rows, ∀ r, r ∈ cellOf config rows values column ↔
      r ∈ rows ∧ tuple config.index r = values ∧ tuple config.columns r = names := by
  have hindex : ∀ r ∈ rows, ∀ v ∈ tuple config.index r, v.Exact := fun r hr =>
    List.forall_mem_map.mpr fun f hf => exact r hr f (List.mem_append_left _ hf)
  have hcolumns : ∀ r ∈ rows, ∀ v ∈ tuple config.columns r, v.Exact := fun r hr =>
    List.forall_mem_map.mpr fun f hf => exact r hr f (List.mem_append_right _ hf)
  obtain ⟨names, hnames, hkey⟩ := key_of_mem_tableColumns hcolumn
  refine ⟨names, hnames, fun r => mem_cellOf_iff hindex hcolumns ?_ ?_ hkey r⟩
  · obtain ⟨row, hrow, rfl⟩ := (mem_sortedTuples hindex values).mp hvalues
    exact hindex row hrow
  · obtain ⟨row, hrow, rfl⟩ := (mem_sortedTuples hcolumns names).mp hnames
    exact hcolumns row hrow

/-- Rows are in one partition if their partition values are equal. -/
theorem Window.partitionKey_eq_iff {spec : WindowSpec Expr} {params : Option Parameters}
    {i k : Nat} {r s : Row} {d e : Entry} (hd : entryOf spec params i r = .ok d)
    (he : entryOf spec params k s = .ok e)
    (hr : ∀ v ∈ valuesOn params spec.partitionBy r, v.Exact)
    (hs : ∀ v ∈ valuesOn params spec.partitionBy s, v.Exact) :
    d.partitionKey = e.partitionKey ↔
      valuesOn params spec.partitionBy r = valuesOn params spec.partitionBy s := by
  rw [entryOf_eq hd, entryOf_eq he]
  exact compositeKey_eq_iff_of_exact hr hs

/-! ## Tuples -/

/-- Tuples of values without doubles have one text if they are equal, whatever their strings hold. This is
what groups rows, what the index of a join or a lookup finds, what falls into a cell of a table, and what
makes up a partition of a window. -/
theorem tuples_told_by_keys (vs ws : List Value) (hv : ∀ v ∈ vs, v.Exact) (hw : ∀ w ∈ ws, w.Exact) :
    (unitSeparator.intercalate (vs.map Value.canonicalKey) =
        unitSeparator.intercalate (ws.map Value.canonicalKey) ↔ vs = ws) ∧
      (∀ (fields : List String) (r s : Row), (∀ f ∈ fields, (r.lookupD f).Exact) →
        (∀ f ∈ fields, (s.lookupD f).Exact) →
        (Query.groupRowKey fields r = Query.groupRowKey fields s ↔
          ∀ f ∈ fields, r.lookupD f = s.lookupD f)) ∧
      (∀ (j : JoinClause) (l : Row) (rows : List Row), (∀ on ∈ j.on, (l.lookupD on.left).Exact) →
        (∀ r ∈ rows, ∀ on ∈ j.on, (r.lookupD on.right).Exact) →
        ∀ r, r ∈ (matchesIn (indexByKey (j.on.map (·.right)) rows)
            (joinKey? (j.on.map (·.left)) l)).map Prod.snd ↔
          r ∈ rows ∧ ∀ on ∈ j.on, (l.lookupD on.left).isNull = false ∧
            l.lookupD on.left = r.lookupD on.right) ∧
      (∀ (config : Pivot.Config) (rows : List Row),
        (∀ r ∈ rows, ∀ f ∈ config.index ++ config.columns, (r.lookupD f).Exact) →
        ∀ values ∈ Pivot.sortedTuples config.index rows, ∀ column ∈ Pivot.tableColumns config rows,
          ∃ names ∈ Pivot.sortedTuples config.columns rows, ∀ r,
            r ∈ Pivot.cellOf config rows values column ↔
              r ∈ rows ∧ Pivot.tuple config.index r = values ∧
                Pivot.tuple config.columns r = names) ∧
      ∀ (spec : WindowSpec Expr) (params : Option Parameters) (i k : Nat) (r s : Row)
        (d e : Window.Entry), Window.entryOf spec params i r = .ok d →
        Window.entryOf spec params k s = .ok e →
        (∀ v ∈ Window.valuesOn params spec.partitionBy r, v.Exact) →
        (∀ v ∈ Window.valuesOn params spec.partitionBy s, v.Exact) →
        (d.partitionKey = e.partitionKey ↔ Window.valuesOn params spec.partitionBy r =
          Window.valuesOn params spec.partitionBy s) := by
  refine ⟨compositeKey_eq_iff_of_exact hv hw, ?_, ?_, ?_, ?_⟩
  · exact fun fields r s hr hs => Query.groupRowKey_eq_iff_of_exact hr hs
  · exact fun j l rows hl hrows r => JoinClause.mem_matchesIn_iff hl hrows r
  · exact fun config rows exact values hvalues column hcolumn =>
      Pivot.cell_values exact hvalues hcolumn
  · exact fun spec params i k r s d e hd he hr hs => Window.partitionKey_eq_iff hd he hr hs

/-- Rows whose values put together with the separator alone are one text. -/
def cutEarly : Row := Record.ofList [("first", .string "a"), ("second", .string "b\x1fc")]

def cutLate : Row := Record.ofList [("first", .string "a\x1fb"), ("second", .string "c")]

def bothFields : JoinClause := ⟨.inner, "rows", none, [⟨"first", "first"⟩, ⟨"second", "second"⟩]⟩

def byBothFields : WindowSpec Expr := ⟨.rowNumber, [.field "first", .field "second"], []⟩

theorem tuples_told_by_keys_cut :
    compositeKey [.string "a", .string "b\x1fc"] ≠ compositeKey [.string "a\x1fb", .string "c"] ∧
      Query.groupRowKey ["first", "second"] cutEarly ≠
        Query.groupRowKey ["first", "second"] cutLate ∧
      cutLate ∉ (matchesIn (indexByKey (bothFields.on.map (·.right)) [cutEarly, cutLate])
        (joinKey? (bothFields.on.map (·.left)) cutEarly)).map Prod.snd ∧
      ∃ d e, Window.entryOf byBothFields none 0 cutEarly = .ok d ∧
        Window.entryOf byBothFields none 1 cutLate = .ok e ∧ d.partitionKey ≠ e.partitionKey := by
  have hvalues : ∀ v ∈ [Value.string "a", .string "b\x1fc"], v.Exact := by
    simp [Value.Exact]
  have hothers : ∀ v ∈ [Value.string "a\x1fb", .string "c"], v.Exact := by
    simp [Value.Exact]
  obtain ⟨hkeys, hgroups, hindex, -, hwindows⟩ := tuples_told_by_keys _ _ hvalues hothers
  have hapart : cutEarly.lookupD "first" ≠ cutLate.lookupD "first" := by
    show Value.string "a" ≠ .string "a\x1fb"
    simp
  have hexact : ∀ r ∈ [cutEarly, cutLate], ∀ f ∈ ["first", "second"], (r.lookupD f).Exact := by
    intro r hr f hf
    simp only [List.mem_cons, List.not_mem_nil, or_false] at hr hf
    rcases hr with rfl | rfl <;> rcases hf with rfl | rfl <;> exact trivial
  have hearly := hexact cutEarly List.mem_cons_self
  have hlate := hexact cutLate (List.mem_cons_of_mem _ List.mem_cons_self)
  refine ⟨fun h => ?_, fun h => ?_, fun h => ?_, _, _, rfl, rfl, fun h => ?_⟩
  · simpa using hkeys.mp h
  · exact hapart ((hgroups _ _ _ hearly hlate).mp h "first" List.mem_cons_self)
  · have hfields : ∀ r ∈ [cutEarly, cutLate], ∀ on ∈ bothFields.on,
        (r.lookupD on.right).Exact ∧ (r.lookupD on.left).Exact := by
      intro r hr on hon
      simp only [bothFields, List.mem_cons, List.not_mem_nil, or_false] at hon
      rcases hon with rfl | rfl
      · exact ⟨hexact r hr "first" List.mem_cons_self, hexact r hr "first" List.mem_cons_self⟩
      · have hsecond := hexact r hr "second" (List.mem_cons_of_mem _ List.mem_cons_self)
        exact ⟨hsecond, hsecond⟩
    have hfound := (hindex bothFields cutEarly [cutEarly, cutLate]
      (fun on hon => (hfields _ List.mem_cons_self on hon).2)
      (fun r hr on hon => (hfields r hr on hon).1) cutLate).mp h
    exact hapart (hfound.2 ⟨"first", "first"⟩ List.mem_cons_self).2
  · have hparts := (hwindows byBothFields none 0 1 cutEarly cutLate _ _ rfl rfl hvalues hothers).mp h
    exact hapart (List.cons.inj hparts).1

end RowPipeline
