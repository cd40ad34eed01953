import RowPipeline.Proofs.QueryColumns
import RowPipeline.Proofs.SortKeys

/-!
# Ordered queries

A query without groups projects its rows before it sorts them. Where a sort key reads the same before
and after, its rows are those of the source that pass, stably sorted, cut to the window and projected.
A key that names a column of neither the projection nor a row left whole has nothing to read.
-/

namespace RowPipeline

theorem cutWindow_map {α β : Type} (f : α → β) (limit offset : Option UInt64) (items : List α) :
    cutWindow limit offset (items.map f) = (cutWindow limit offset items).map f := by
  unfold cutWindow
  cases limit with
  | none => exact (List.map_drop ..).symm
  | some n =>
      change ((items.map f).drop _).take _ = ((items.drop _).take _).map f
      rw [List.map_take, List.map_drop]

/-- The sort key of a row. -/
def sortKeyOf (keys : List (String × Bool)) (row : Row) : List Value :=
  keys.map fun key => row.lookupD key.1

/-- Sorting images by their keys. -/
theorem sortRows_map {α : Type} (keys : List (String × Bool)) (f : α → Row) (items : List α) :
    sortRows keys (items.map f) =
      (sortBy (fun a b => compareSortKeys (sortKeyOf keys (f a)) (sortKeyOf keys (f b))
        (keys.map Prod.snd)) items).map f := by
  have hkeyed : (items.map f).map (fun row => (sortKeyOf keys row, row)) =
      items.map fun a => (sortKeyOf keys (f a), f a) := List.map_map
  have hsorted := sortBy_map (fun a b : List Value × Row =>
    compareSortKeys a.1 b.1 (keys.map Prod.snd)) (fun a => (sortKeyOf keys (f a), f a)) items
  change (sortBy _ ((items.map f).map fun row => (sortKeyOf keys row, row))).map Prod.snd = _
  rw [hkeyed, hsorted, List.map_map]
  rfl

theorem Row.lookupD_of_get? {row : Row} {name : String} {v : Value} (h : row.get? name = some v) :
    row.lookupD name = v := by
  rw [lookupD, lookup?, h]
  rfl

namespace Query

variable {p : Plan} {c : StepContext} {source : List Row}

theorem admitted_map {α : Type} (filter : Option FilterNode) (f : α → Row) (items : List α) :
    admitted filter (items.map f) =
      (items.filter fun a => filter.all fun n => n.accepts (f a)).map f := by
  cases filter with
  | none =>
      change items.map f = (items.filter fun _ => true).map f
      rw [List.filter_true]
  | some n => exact List.filter_map

namespace Plan

/-- The rows of the source that pass the filter and, projected, the filter on results. -/
def passing (p : Plan) (params : Parameters) (source : List Row) : List Row :=
  (admitted p.filter source).filter fun row => p.having.all fun n => n.accepts (projectRow p params row)

/-- What a sort key reads of a row of the source: the output column of its name, or else the column of
the row. -/
def sortValue (p : Plan) (params : Parameters) (row : Row) (name : String) : Value :=
  ((projectRow p params row).get? name).getD (row.lookupD name)

def directions (p : Plan) : List Bool := p.orderBy.map OrderBy.descending

def sortKey (p : Plan) (params : Parameters) (row : Row) : List Value :=
  p.orderBy.map fun key => p.sortValue params row key.field

/-- No sort key holds a double. -/
def FloatFreeKeys (p : Plan) (params : Parameters) (rows : List Row) : Prop :=
  ∀ row ∈ rows, ∀ key ∈ p.orderBy, (p.sortValue params row key.field).FloatFree

/-- One row of the source stands before another. -/
def RowBefore (p : Plan) (params : Parameters) (a b : Row) : Prop :=
  KeyBefore p.directions (p.sortKey params a) (p.sortKey params b)

/-- The rows of the source sorted by their keys. -/
def sorted (p : Plan) (params : Parameters) (rows : List Row) : List Row :=
  sortBy (fun a b => compareSortKeys (p.sortKey params a) (p.sortKey params b) p.directions) rows

section Sorted

variable {params : Parameters} {rows : List Row}

theorem sortKeyOf_sortKey (floatFree : p.FloatFreeKeys params rows) {row : Row} (hrow : row ∈ rows) :
    SortKeyOf p.directions (p.sortKey params row) := by
  refine ⟨by rw [sortKey, directions, List.length_map, List.length_map], ?_⟩
  intro v hv
  obtain ⟨key, hkey, rfl⟩ := List.mem_map.mp hv
  exact floatFree row hrow key hkey

theorem weakOrderOn_rowBefore (floatFree : p.FloatFreeKeys params rows) :
    WeakOrderOn (· ∈ rows) (p.RowBefore params) := by
  have h := (weakOrderOn_keyBefore p.directions).comap (p.sortKey params)
  exact h.mono fun row => sortKeyOf_sortKey floatFree

theorem stableSort_sorted (floatFree : p.FloatFreeKeys params rows) :
    StableSort (p.RowBefore params) rows (p.sorted params rows) :=
  stableSort_sortBy (weakOrderOn_rowBefore floatFree) fun _ ha _ hb =>
    compareSortKeys_eq_lt (sortKeyOf_sortKey floatFree ha) (sortKeyOf_sortKey floatFree hb)

end Sorted

/-- No sort key reads a column of the rows that the projection loses. -/
def KeepsKeys (p : Plan) (params : Parameters) (rows : List Row) : Prop :=
  ∀ key ∈ p.orderBy, ∀ row ∈ rows, (projectRow p params row).get? key.field = none →
    (projectRow p params row).lookupD key.field = row.lookupD key.field

/-- Keys that name output columns are kept, and so are all where nothing is projected. -/
theorem keepsKeys_of_selected {params : Parameters} {rows : List Row} (ungrouped : p.isGrouped = false)
    (h : p.dimensions = [] ∧ p.metrics = [] ∨ ∀ key ∈ p.orderBy, key.field ∈ p.selectedNames) :
    p.KeepsKeys params rows := by
  intro key hkey row _ hnone
  by_cases hplain : p.dimensions = [] ∧ p.metrics = []
  · have hwhole : projectRow p params row = row := by
      rw [projectRow, if_pos (by rw [hplain.1, hplain.2]; rfl)]
    rw [hwhole]
  · have hselected := (h.resolve_left hplain) key hkey
    have hgroupBy : p.groupBy = [] := by
      rw [isGrouped, Bool.or_eq_false_iff] at ungrouped
      simpa using ungrouped.1
    have hkeys := projectRow_keys (by tauto) hgroupBy params row
    rw [Record.get?_eq_none_iff, hkeys] at hnone
    exact absurd (p.selectedNames_subset_columns hselected) hnone

theorem sortKeyOf_projectRow {params : Parameters} {rows : List Row} {row : Row}
    (kept : p.KeepsKeys params rows) (hrow : row ∈ rows) :
    sortKeyOf p.sortKeys (projectRow p params row) = p.sortKey params row := by
  rw [sortKeyOf, sortKeys, List.map_map, sortKey]
  refine List.map_congr_left fun key hkey => ?_
  change (projectRow p params row).lookupD key.field = _
  rw [sortValue]
  cases hget : (projectRow p params row).get? key.field with
  | some v => exact Row.lookupD_of_get? hget
  | none => exact kept key hkey row hrow hget

end Plan

/-- An ungrouped query shapes its rows by projecting them. -/
theorem shapeRows_of_ungrouped (ungrouped : p.isGrouped = false) (params : Parameters)
    (rows : List Row) : ∃ shaped, shapeRows p params rows = .ok (shaped, none) ∧
      shaped.map Prod.fst = rows.map (projectRow p params) := by
  rw [shapeRows, if_neg (ungrouped ▸ Bool.false_ne_true)]
  refine ⟨_, rfl, ?_⟩
  rw [List.map_map]
  rfl

theorem paged_map (page : Option Pagination) (f : Row → Row) (rows : List Row) :
    (paged page (rows.map f) []).rows = (paged page rows []).rows.map f := by
  cases page with
  | none => rfl
  | some page => exact cutWindow_map f (some page.limit) (some page.offset) rows

/-- Where the sort keys are kept, an ungrouped query gives the rows of the source that pass, stably
sorted by keys without doubles, cut to the window and to the page, and projected. -/
theorem ordered_rows_of_source (policy : ExpressionFailure) (ungrouped : p.isGrouped = false)
    (joins : p.joins = []) (calculated : p.calculated = []) (distinct : p.distinct = false)
    (input : c.input p.source = .ok source)
    (floatFree : p.FloatFreeKeys c.params (p.passing c.params source))
    (kept : p.KeepsKeys c.params (p.passing c.params source)) :
    (∃ sorted, StableSort (p.RowBefore c.params) (p.passing c.params source) sorted) ∧
      ∀ sorted, StableSort (p.RowBefore c.params) (p.passing c.params source) sorted →
        ∃ output, runInMemory p c policy = .ok output ∧ output.rows =
          (paged c.pagination (cutWindow p.limit p.offset sorted) []).rows.map
            (projectRow p c.params) := by
  refine ⟨⟨_, Plan.stableSort_sorted floatFree⟩, fun sorted h => ?_⟩
  have order := Plan.weakOrderOn_rowBefore floatFree
  have hdirections : p.sortKeys.map Prod.snd = p.directions := by
    rw [Plan.sortKeys, List.map_map, Plan.directions]
    rfl
  -- the query sorts by what the keys read of the projections
  have hless : ∀ a ∈ p.passing c.params source, ∀ b ∈ p.passing c.params source,
      compareSortKeys (sortKeyOf p.sortKeys (projectRow p c.params a))
        (sortKeyOf p.sortKeys (projectRow p c.params b)) (p.sortKeys.map Prod.snd) = .lt ↔
          p.RowBefore c.params a b := by
    intro a ha b hb
    rw [Plan.sortKeyOf_projectRow kept ha, Plan.sortKeyOf_projectRow kept hb, hdirections]
    exact compareSortKeys_eq_lt (Plan.sortKeyOf_sortKey floatFree ha)
      (Plan.sortKeyOf_sortKey floatFree hb)
  have hsorted := stableSort_sortBy order hless
  obtain ⟨shaped, hshaped, hprojected⟩ :=
    shapeRows_of_ungrouped ungrouped c.params (admitted p.filter source)
  have hrun : runInMemory p c policy =
      .ok (paged c.pagination (p.arranged (shaped.map Prod.fst)) []) := by
    rw [runInMemory_eq, input, joins, calculated]
    change (shapeRows p c.params (admitted p.filter source) >>= _) = _
    rw [hshaped]
    rfl
  have harranged : p.arranged (shaped.map Prod.fst) =
      (cutWindow p.limit p.offset sorted).map (projectRow p c.params) := by
    rw [Plan.arranged, distinct, hprojected, admitted_map]
    change cutWindow _ _ (sortRows p.sortKeys
      ((p.passing c.params source).map (projectRow p c.params))) = _
    rw [sortRows_map, cutWindow_map, ← h.unique order hsorted]
  exact ⟨_, hrun, by rw [harranged, paged_map]⟩

/-- The greatest sales first, with the columns given. -/
def topSales (columns : List String) (limit : UInt64) : Plan where
  source := "sales"
  dimensions := columns.map fun name => ⟨name, none⟩
  metrics := []
  filter := none
  joins := []
  groupBy := []
  having := none
  calculated := []
  orderBy := [⟨"amount", true⟩]
  limit := some limit
  offset := none
  distinct := false

def saleAmounts : List Row :=
  [("a", .int 1), ("b", .int 3), ("c", .null), ("d", .int 3)].map fun r =>
    .ofList [("name", .string r.1), ("amount", r.2)]

theorem floatFreeKeys_topSales {columns : List String} (limit : UInt64)
    (hcolumns : columns = ["name"] ∨ columns = ["name", "amount"]) :
    (topSales columns limit).FloatFreeKeys {} saleAmounts := by
  intro row hrow key hkey
  rw [List.mem_singleton.mp hkey]
  simp only [saleAmounts, List.map_cons, List.map_nil, List.mem_cons, List.not_mem_nil, or_false]
    at hrow
  rcases hcolumns with rfl | rfl <;> rcases hrow with rfl | rfl | rfl | rfl <;> trivial

theorem ordered_rows_of_source_top :
    let p := topSales ["name", "amount"] 3
    let sorted := p.sorted {} saleAmounts
    StableSort (p.RowBefore {}) saleAmounts sorted ∧
      sorted.map (·.lookupD "name") = ["c", "b", "d", "a"].map Value.string ∧
      ∃ output, runInMemory p (salesContext saleAmounts) .null = .ok output ∧
        output.rows = (sorted.take 3).map (projectRow p {}) := by
  intro p sorted
  have hfree : p.FloatFreeKeys {} saleAmounts := floatFreeKeys_topSales 3 (.inr rfl)
  have hsorted : StableSort (p.RowBefore {}) saleAmounts sorted := Plan.stableSort_sorted hfree
  have hinput : (salesContext saleAmounts).input p.source = .ok saleAmounts := rfl
  have hall := (ordered_rows_of_source .null rfl rfl rfl rfl hinput hfree
    (Plan.keepsKeys_of_selected rfl (.inr (by decide)))).2
  exact ⟨hsorted, rfl, hall sorted hsorted⟩

def topName : Json :=
  .object [("data_source", .string "sales"), ("dimensions", .array [.string "name"]),
    ("order_by", .string "amount DESC"), ("limit", .number (.int 1))]

/-- A column to sort by that is not shown is lost: the rows stay as they come. -/
theorem sort_key_lost :
    ∃ config plan output sorted, Config.ofJson topName = .ok config ∧
      Plan.ofConfig config = .ok plan ∧ plan.isGrouped = false ∧ plan.joins = [] ∧
      plan.calculated = [] ∧ plan.distinct = false ∧ plan.passing {} saleAmounts = saleAmounts ∧
      plan.FloatFreeKeys {} saleAmounts ∧
      StableSort (plan.RowBefore {}) saleAmounts sorted ∧
      runInMemory plan (salesContext saleAmounts) .null = .ok output ∧
      ((cutWindow plan.limit plan.offset sorted).map (projectRow plan {})).map (·.get? "name") =
        [some (.string "c")] ∧
      output.rows.map (·.get? "name") = [some (.string "a")] := by
  have hfree : (topSales ["name"] 1).FloatFreeKeys {} saleAmounts :=
    floatFreeKeys_topSales 1 (.inl rfl)
  exact ⟨_, topSales ["name"] 1, _, _, rfl, rfl, rfl, rfl, rfl, rfl, rfl, hfree,
    Plan.stableSort_sorted hfree, rfl, rfl, rfl⟩

end Query

end RowPipeline
