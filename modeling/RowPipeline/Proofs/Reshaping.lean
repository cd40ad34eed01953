import RowPipeline.Step.Pivot
import RowPipeline.Step.Unpivot
import RowPipeline.Proofs.CompositeKeys
import RowPipeline.Proofs.Grouping
import RowPipeline.Proofs.OrderedQueries

/-!
# Pivot and unpivot

Rows that say one value for each combination of an index and a name can be laid out as a table, with a
row for each index and a column for each name, and read off it again. A cell of the table holds the
value of the row with its index and name, or null if there is none; so a cell that is not null stands
for one row, and the rows come back in another order at most.
-/

namespace RowPipeline

/-- The row cut down to some fields, in the order of the fields. -/
def Row.restrict (fields : List String) (row : Row) : Row :=
  Record.ofList (fields.filterMap fun f => (row.get? f).map fun v => (f, v))

/-- Rows that say one value for each combination of an index and a name. -/
structure Tidy (index : List String) (column value : String) (rows : List Row) : Prop where
  fields : (index ++ [column, value]).Nodup
  complete : ∀ row ∈ rows, ∀ f ∈ index ++ [column, value], f ∈ row.keys
  exact : ∀ row ∈ rows, ∀ f ∈ index, ∀ v, row.get? f = some v → v.Exact
  named : ∀ row ∈ rows, ∃ s, row.get? column = some (.string s) ∧ s ∉ index
  present : ∀ row ∈ rows, row.get? value ≠ some .null
  distinct : (rows.map fun row => (index ++ [column]).map row.get?).Nodup

/-- The layout of rows as a table by one column and one value field. -/
def Pivot.Config.single (source : String) (index : List String) (column value : String) :
    Pivot.Config :=
  ⟨source, index, [column], [value], [.first], none, none, none⟩

/-- The reading of such a table: all columns but the index, nulls left out. -/
def Unpivot.Config.inverse (source : String) (index : List String) (column value : String) :
    Unpivot.Config :=
  ⟨source, index, [], column, value, true⟩

theorem Row.get?_restrict (fields : List String) (row : Row) (f : String) :
    (row.restrict fields).get? f = if f ∈ fields then row.get? f else none :=
  Record.get?_ofList_image row.get? fields f

theorem forM_ok {ε α : Type} {check : α → Except ε Unit} {list : List α}
    (h : ∀ a ∈ list, check a = .ok ()) : list.forM check = .ok () := by
  induction list with
  | nil => rfl
  | cons a rest ih =>
      rw [List.forM, h a List.mem_cons_self]
      exact ih fun b hb => h b (List.mem_cons_of_mem a hb)

/-- A field that every row has may be asked for. -/
theorem requireField_ok {rows : List Row} {field : String} (role : String)
    (h : ∀ row ∈ rows, field ∈ row.keys) : requireField rows field role = .ok () := by
  cases rows with
  | nil => rfl
  | cons row rest =>
      obtain ⟨v, hv⟩ := Option.isSome_iff_exists.mp
        ((Record.contains_iff_mem_keys row field).mpr (h row List.mem_cons_self))
      have hfield : row.hasField field = true := by
        rw [Row.hasField, Row.lookup?, hv]
        rfl
      rw [requireField, if_pos]
      rw [List.any_cons, hfield]
      simp

/-- The columns of rows that all have the same. -/
theorem columnNames_of_same {rows : List Row} {names : List String} (nodup : names.Nodup)
    (some : rows ≠ []) (same : ∀ row ∈ rows, row.keys = names) : columnNames rows = names := by
  have hstays : ∀ rest : List Row, (∀ row ∈ rest, row.keys = names) →
      rest.foldl (fun names row => row.keys.foldl addName names) names = names := by
    intro rest
    induction rest with
    | nil => exact fun _ => rfl
    | cons row rest ih =>
        intro hsame
        obtain ⟨hrow, hrest⟩ := List.forall_mem_cons.mp hsame
        rw [List.foldl_cons, foldl_addName_of_subset (hrow ▸ List.Subset.refl _)]
        exact ih hrest
  cases rows with
  | nil => exact absurd rfl some
  | cons row rest =>
      obtain ⟨hrow, hrest⟩ := List.forall_mem_cons.mp same
      rw [columnNames, List.foldl_cons, hrow, foldl_addName_of_nodup (by simpa using nodup),
        List.nil_append]
      exact hstays rest hrest

/-! ## Combinations of fields -/

namespace Pivot

theorem nodup_sortedTuples (fields : List String) (rows : List Row) :
    (sortedTuples fields rows).Nodup := by
  refine (sortBy_perm _ (distinctByKey compositeKey (rows.map (tuple fields)))).nodup_iff.mpr ?_
  exact nodup_distinctByKey compositeKey _

/-- The combinations are those of the rows, where no doubles are among them. -/
theorem mem_sortedTuples {fields : List String} {rows : List Row}
    (exact : ∀ row ∈ rows, ∀ v ∈ tuple fields row, v.Exact) (values : List Value) :
    values ∈ sortedTuples fields rows ↔ ∃ row ∈ rows, tuple fields row = values := by
  rw [sortedTuples, mem_sortBy, mem_distinctByKey, List.mem_map]
  intro a ha b hb hkey
  obtain ⟨row, hrow, rfl⟩ := List.mem_map.mp ha
  obtain ⟨row', hrow', rfl⟩ := List.mem_map.mp hb
  exact compositeKey_injective (exact row hrow) (exact row' hrow') hkey

/-! ## Cells -/

/-- The rows that fall into a cell: those with the index values and the key of its column. -/
def cellOf (config : Config) (rows : List Row) (values : List Value) (column : Column) : List Row :=
  rows.filter fun r => compositeKey (tuple config.index r) = compositeKey values &&
    compositeKey (tuple config.columns r) = column.key

/-- The key of a column is that of a combination of the column fields. -/
theorem key_of_mem_tableColumns {config : Config} {rows : List Row} {column : Column}
    (h : column ∈ tableColumns config rows) :
    ∃ names ∈ sortedTuples config.columns rows, column.key = compositeKey names := by
  unfold tableColumns at h
  simp only [List.mem_flatMap, List.mem_map] at h
  obtain ⟨f, -, field, -, names, hnames, rfl⟩ := h
  exact ⟨names, hnames, rfl⟩

/-- The row of the table for some index values. -/
def tableRow (config : Config) (rows : List Row) (values : List Value) : Row :=
  (Record.ofList (config.index.zip values)).insertAll ((tableColumns config rows).map fun column =>
    (column.name, cellValue config column (cellOf config rows values column)))

theorem table_eq (config : Config) (rows : List Row) : table config rows = (do
    if config.columns.isEmpty || config.values.isEmpty || config.functions.isEmpty then
      throw (.failed "Pivot needs columns, values and aggfunc")
    (config.index ++ config.columns ++ config.values).forM fun f => requireField rows f "pivot"
    return (sortedTuples config.index rows).map (tableRow config rows)) := by
  have hcell : ∀ values (column : Column), ((((rows.map fun r =>
      (compositeKey (tuple config.index r), compositeKey (tuple config.columns r), r)).filter fun k =>
        k.1 = compositeKey values).map Prod.snd).filter fun k => k.1 = column.key).map Prod.snd =
      cellOf config rows values column := by
    intro values column
    simp only [List.filter_map, List.map_map, List.filter_filter, Function.comp_def, List.map_id',
      cellOf]
    congr 1
    funext r
    rw [Bool.and_comm]
  unfold table
  simp only [hcell]
  rfl

/-! ## Tables of one column field -/

/-- The rows of a cell: those with the index and the name of the cell, by their keys. -/
def cellRows (index : List String) (column : String) (rows : List Row) (values : List Value)
    (name : String) : List Row :=
  rows.filter fun r => compositeKey (tuple index r) = compositeKey values &&
    compositeKey (tuple [column] r) = compositeKey [.string name]

/-- The value in a cell, null if no row falls into it. -/
def cellAt (index : List String) (column value : String) (rows : List Row) (values : List Value)
    (name : String) : Value :=
  ((cellRows index column rows values name).head?.map fun r => r.lookupD value).getD .null

/-- A row of the table. -/
def wideRow (index : List String) (column value : String) (rows : List Row) (names : List String)
    (values : List Value) : Row :=
  (Record.ofList (index.zip values)).insertAll
    (names.map fun s => (s, cellAt index column value rows values s))

/-- Of values that are not null the first one counts. -/
theorem cellValue_first {source : String} {index : List String} {column value name key : String}
    {cell : List Row} (present : ∀ r ∈ cell, (r.lookupD value).isNull = false) :
    cellValue (.single source index column value) ⟨name, .first, value, key⟩ cell =
      (cell.head?.map fun r => r.lookupD value).getD .null := by
  cases cell with
  | nil => rfl
  | cons r rest =>
      have hfirst := present r List.mem_cons_self
      simp [cellValue, CellFunction.apply, hfirst]

/-- The table of one column field, with its cells told from the rows. -/
theorem table_single {source : String} {index : List String} {column value : String} {rows : List Row}
    (required : ∀ row ∈ rows, ∀ f ∈ index ++ [column] ++ [value], f ∈ row.keys)
    (present : ∀ row ∈ rows, (row.lookupD value).isNull = false) {names : List String}
    (hnames : sortedTuples [column] rows = names.map fun s => [.string s]) :
    table (.single source index column value) rows =
      .ok ((sortedTuples index rows).map (wideRow index column value rows names)) := by
  have hrequired : (index ++ [column] ++ [value]).forM (fun f => requireField rows f "pivot") =
      .ok () :=
    forM_ok fun f hf => requireField_ok "pivot" fun row hrow => required row hrow f hf
  have hpresent : ∀ values name, ∀ r ∈ cellRows index column rows values name,
      (r.lookupD value).isNull = false :=
    fun values name r hr => present r (List.mem_filter.mp hr).1
  have hcolumns : tableColumns (.single source index column value) rows =
      names.map fun s => ⟨s, .first, value, compositeKey [.string s]⟩ := by
    rw [tableColumns]
    dsimp only [Config.single]
    rw [hnames]
    simp [columnName, Value.display]
  rw [table_eq, if_neg (by simp [Config.single])]
  change (do (index ++ [column] ++ [value]).forM (fun f => requireField rows f "pivot"); _) = _
  rw [hrequired]
  refine congrArg Except.ok (List.map_congr_left fun values _ => ?_)
  rw [wideRow, tableRow, hcolumns, List.map_map]
  congr 1
  refine List.map_congr_left fun s _ => ?_
  exact Prod.ext rfl (cellValue_first (hpresent values s))

end Pivot

namespace Tidy

variable {index : List String} {column value : String} {rows : List Row}
  (h : Tidy index column value rows)

include h

/-! ## Fields -/

theorem index_nodup : index.Nodup := (List.nodup_append.mp h.fields).1

theorem column_not_mem : column ∉ index := by
  intro hmem
  exact (List.nodup_append.mp h.fields).2.2 column hmem column List.mem_cons_self rfl

theorem value_not_mem : value ∉ index := by
  intro hmem
  exact (List.nodup_append.mp h.fields).2.2 value hmem value (by simp) rfl

theorem column_ne_value : column ≠ value := by
  have hpair := (List.nodup_append.mp h.fields).2.1
  simpa using hpair

/-- A field of a row has a value, which a reference to it finds. -/
theorem get_field {row : Row} (hrow : row ∈ rows) {f : String} (hf : f ∈ index ++ [column, value]) :
    row.get? f = some (row.lookupD f) := by
  obtain ⟨v, hv⟩ := Option.isSome_iff_exists.mp
    ((Record.contains_iff_mem_keys row f).mpr (h.complete row hrow f hf))
  rw [hv, Row.lookupD_of_get? hv]

theorem get_index {row : Row} (hrow : row ∈ rows) {f : String} (hf : f ∈ index) :
    row.get? f = some (row.lookupD f) :=
  h.get_field hrow (List.mem_append_left _ hf)

theorem tuple_exact {row : Row} (hrow : row ∈ rows) : ∀ v ∈ Pivot.tuple index row, v.Exact := by
  intro v hv
  obtain ⟨f, hf, rfl⟩ := List.mem_map.mp hv
  exact h.exact row hrow f hf _ (h.get_index hrow hf)

omit h in
/-- The combination of the column is the name. -/
theorem tuple_column {row : Row} {s : String}
    (hname : row.get? column = some (.string s)) : Pivot.tuple [column] row = [.string s] := by
  rw [Pivot.tuple, List.map_singleton, Row.lookupD_of_get? hname]

/-- Combinations of rows with the same index are the same, and those of the rows have no doubles. -/
theorem tuple_eq_iff {row row' : Row} (hrow : row ∈ rows) (hrow' : row' ∈ rows) :
    Pivot.tuple index row = Pivot.tuple index row' ↔
      index.map row.get? = index.map row'.get? := by
  have hsome : ∀ r ∈ rows, index.map r.get? = (Pivot.tuple index r).map some := by
    intro r hr
    rw [Pivot.tuple, List.map_map]
    exact List.map_congr_left fun f hf => h.get_index hr hf
  rw [hsome row hrow, hsome row' hrow']
  exact ⟨congrArg (List.map some), fun heq => List.map_injective_iff.mpr (Option.some_injective _) heq⟩

/-- A row is told by its index and name. -/
theorem unique {row row' : Row} (hrow : row ∈ rows) (hrow' : row' ∈ rows)
    (hindex : Pivot.tuple index row = Pivot.tuple index row')
    (hname : row.get? column = row'.get? column) : row = row' := by
  refine List.inj_on_of_nodup_map h.distinct hrow hrow' ?_
  rw [List.map_append, List.map_append, (h.tuple_eq_iff hrow hrow').mp hindex, List.map_singleton,
    List.map_singleton, hname]

/-! ## Cells -/

/-- The rows of a cell are those with its index and name. -/
theorem mem_cellRows {row : Row} (hrow : row ∈ rows) {r : Row} {s : String} :
    r ∈ Pivot.cellRows index column rows (Pivot.tuple index row) s ↔
      r ∈ rows ∧ Pivot.tuple index r = Pivot.tuple index row ∧ r.get? column = some (.string s) := by
  rw [Pivot.cellRows, List.mem_filter, Bool.and_eq_true, decide_eq_true_eq, decide_eq_true_eq]
  refine and_congr_right fun hr => ?_
  obtain ⟨t, ht, -⟩ := h.named r hr
  rw [tuple_column ht, ht]
  have hstring : ∀ u : String, ∀ v ∈ [Value.string u], v.Exact := by
    intro u v hv
    rw [List.mem_singleton.mp hv]
    trivial
  constructor
  · rintro ⟨hindex, hname⟩
    have hsame := compositeKey_injective (hstring t) (hstring s) hname
    exact ⟨compositeKey_injective (h.tuple_exact hr) (h.tuple_exact hrow) hindex,
      congrArg some (List.cons.inj hsame).1⟩
  · rintro ⟨hindex, hname⟩
    rw [hindex, Option.some.inj hname]
    exact ⟨rfl, rfl⟩

/-- The cell of a row holds its value. -/
theorem cellAt_self {row : Row} (hrow : row ∈ rows) {s : String}
    (hname : row.get? column = some (.string s)) :
    Pivot.cellAt index column value rows (Pivot.tuple index row) s = row.lookupD value := by
  have hmem := (h.mem_cellRows hrow (r := row) (s := s)).mpr ⟨hrow, rfl, hname⟩
  obtain ⟨first, rest, hcell⟩ := List.exists_cons_of_ne_nil (List.ne_nil_of_mem hmem)
  obtain ⟨hfirst, hindex, hsame⟩ := (h.mem_cellRows hrow (s := s)).mp (hcell ▸ List.mem_cons_self)
  have heq : first = row := h.unique hfirst hrow hindex (hsame.trans hname.symm)
  rw [Pivot.cellAt, hcell, heq]
  rfl

/-- A cell that is not null is that of a row. -/
theorem row_of_cellAt {row : Row} (hrow : row ∈ rows) {s : String}
    (hcell : (Pivot.cellAt index column value rows (Pivot.tuple index row) s).isNull = false) :
    ∃ r ∈ rows, Pivot.tuple index r = Pivot.tuple index row ∧ r.get? column = some (.string s) := by
  cases hrows : Pivot.cellRows index column rows (Pivot.tuple index row) s with
  | nil =>
      rw [Pivot.cellAt, hrows] at hcell
      cases hcell
  | cons r rest =>
      obtain ⟨hr, hindex, hname⟩ := (h.mem_cellRows hrow (s := s)).mp (hrows ▸ List.mem_cons_self)
      exact ⟨r, hr, hindex, hname⟩

theorem value_present {row : Row} (hrow : row ∈ rows) : (row.lookupD value).isNull = false := by
  have hvalue := h.get_field hrow (f := value) (by simp)
  have hpresent := h.present row hrow
  rw [hvalue] at hpresent
  cases hlookup : row.lookupD value with
  | null =>
      rw [hlookup] at hpresent
      exact absurd rfl hpresent
  | _ => rfl

/-- The names that occur, each once. -/
theorem names : ∃ names : List String,
    Pivot.sortedTuples [column] rows = names.map (fun s => [Value.string s]) ∧ names.Nodup ∧
      ∀ s, s ∈ names ↔ ∃ row ∈ rows, row.get? column = some (.string s) := by
  have hexact : ∀ row ∈ rows, ∀ v ∈ Pivot.tuple [column] row, v.Exact := by
    intro row hrow v hv
    obtain ⟨s, hs, -⟩ := h.named row hrow
    rw [tuple_column hs] at hv
    rw [List.mem_singleton.mp hv]
    trivial
  have hform : Pivot.sortedTuples [column] rows ∈
      Set.range (List.map fun s => [Value.string s]) := by
    rw [Set.range_list_map]
    intro values hvalues
    obtain ⟨row, hrow, rfl⟩ := (Pivot.mem_sortedTuples hexact values).mp hvalues
    obtain ⟨s, hs, -⟩ := h.named row hrow
    exact ⟨s, (tuple_column hs).symm⟩
  obtain ⟨names, hnames⟩ := hform
  refine ⟨names, hnames.symm, ?_, ?_⟩
  · refine List.Nodup.of_map (fun s => [Value.string s]) ?_
    rw [hnames]
    exact Pivot.nodup_sortedTuples [column] rows
  · intro s
    have hmem : s ∈ names ↔ [Value.string s] ∈ Pivot.sortedTuples [column] rows := by
      rw [← hnames, List.mem_map_of_injective]
      intro a b hab
      simpa using hab
    rw [hmem, Pivot.mem_sortedTuples hexact]
    refine exists_congr fun row => and_congr_right fun hrow => ?_
    obtain ⟨t, ht, -⟩ := h.named row hrow
    rw [tuple_column ht, ht]
    simp

/-! ## Rows of the table -/

section Wide

variable {names : List String} (nodup : names.Nodup)
  (occur : ∀ s, s ∈ names ↔ ∃ row ∈ rows, row.get? column = some (.string s))

include nodup occur

/-- No name is a field of the index. -/
theorem columns_nodup : (index ++ names).Nodup := by
  refine List.nodup_append.mpr ⟨h.index_nodup, nodup, ?_⟩
  rintro f hf s hs rfl
  obtain ⟨row, hrow, hname⟩ := (occur f).mp hs
  obtain ⟨t, ht, hother⟩ := h.named row hrow
  rw [hname] at ht
  cases ht
  exact hother hf

theorem wideRow_entries (row : Row) :
    (Pivot.wideRow index column value rows names (Pivot.tuple index row)).entries =
      index.map (fun f => (f, row.lookupD f)) ++
        names.map fun s => (s, Pivot.cellAt index column value rows (Pivot.tuple index row) s) := by
  have hzip : index.zip (Pivot.tuple index row) = index.map fun f => (f, row.lookupD f) := by
    have hboth := List.zip_map' (f := id) (g := row.lookupD) (l := index)
    rw [List.map_id] at hboth
    exact hboth
  have hkeys : (index.map fun f => (f, row.lookupD f)).map Prod.fst = index := by
    rw [List.map_map]
    exact List.map_id index
  have hnames : (names.map fun s =>
      (s, Pivot.cellAt index column value rows (Pivot.tuple index row) s)).map Prod.fst = names := by
    rw [List.map_map]
    exact List.map_id names
  have hfront : (index.map fun f => (f, row.lookupD f)).map Prod.fst |>.Nodup := by
    rw [hkeys]
    exact h.index_nodup
  rw [Pivot.wideRow, hzip, Record.entries_insertAll_of_nodup, Record.entries_ofList_of_nodup _ hfront]
  rw [Record.keys_ofList_of_nodup _ hfront, hkeys, hnames]
  exact h.columns_nodup nodup occur

theorem wideRow_keys (row : Row) :
    (Pivot.wideRow index column value rows names (Pivot.tuple index row)).keys = index ++ names := by
  rw [Record.keys, h.wideRow_entries nodup occur, List.map_append, List.map_map, List.map_map]
  exact congrArg₂ (· ++ ·) (List.map_id index) (List.map_id names)

/-- A row of the table has the index that it stands for. -/
theorem exactValue_index (row : Row) {f : String} (hf : f ∈ index) :
    Unpivot.exactValue (Pivot.wideRow index column value rows names (Pivot.tuple index row)) f =
      row.lookupD f := by
  have hmem : (f, row.lookupD f) ∈
      (Pivot.wideRow index column value rows names (Pivot.tuple index row)).entries := by
    rw [h.wideRow_entries nodup occur]
    exact List.mem_append_left _ (List.mem_map_of_mem hf)
  rw [Unpivot.exactValue, Record.get?, Assoc.get?_of_mem (Record.nodup _) hmem]
  rfl

theorem exactValue_name (row : Row) {s : String} (hs : s ∈ names) :
    Unpivot.exactValue (Pivot.wideRow index column value rows names (Pivot.tuple index row)) s =
      Pivot.cellAt index column value rows (Pivot.tuple index row) s := by
  have hmem : (s, Pivot.cellAt index column value rows (Pivot.tuple index row) s) ∈
      (Pivot.wideRow index column value rows names (Pivot.tuple index row)).entries := by
    rw [h.wideRow_entries nodup occur]
    exact List.mem_append_right _ (List.mem_map_of_mem hs)
  rw [Unpivot.exactValue, Record.get?, Assoc.get?_of_mem (Record.nodup _) hmem]
  rfl

/-! ## Rows read off the table -/

/-- Read off the table, the cell of a row gives the row back, cut down to its fields. -/
theorem longRow_wideRow (source : String) {row : Row} (hrow : row ∈ rows) {s : String}
    (hname : row.get? column = some (.string s)) :
    Unpivot.longRow (.inverse source index column value)
        (Pivot.wideRow index column value rows names (Pivot.tuple index row)) s =
      row.restrict (index ++ [column, value]) := by
  have hs : s ∈ names := (occur s).mpr ⟨row, hrow, hname⟩
  have hindex : (index.map fun f => (f, Unpivot.exactValue
      (Pivot.wideRow index column value rows names (Pivot.tuple index row)) f)) =
        index.filterMap fun f => (row.get? f).map fun v => (f, v) := by
    rw [← List.filterMap_eq_map]
    refine List.filterMap_congr fun f hf => ?_
    rw [h.get_index hrow hf, Function.comp_apply, h.exactValue_index nodup occur row hf]
    rfl
  have hvalue : row.get? value = some (row.lookupD value) := h.get_field hrow (by simp)
  rw [Unpivot.longRow]
  dsimp only [Unpivot.Config.inverse]
  rw [hindex, h.exactValue_name nodup occur row hs, h.cellAt_self hrow hname, Row.restrict,
    Record.ofList, Record.ofList, List.filterMap_append, List.foldl_append]
  rw [List.filterMap_cons_some (by rw [hname]; rfl), List.filterMap_cons_some (by rw [hvalue]; rfl)]
  rfl

/-- The rows read off the table: one for each cell that is not null. -/
theorem longRows_table (source : String) :
    let wide := (Pivot.sortedTuples index rows).map (Pivot.wideRow index column value rows names)
    Unpivot.longRows (.inverse source index column value) wide =
      .ok (wide.flatMap fun row => (names.filter fun s => !(Unpivot.exactValue row s).isNull).map
        (Unpivot.longRow (.inverse source index column value) row)) := by
  intro wide
  have hkeys : ∀ row ∈ wide, row.keys = index ++ names := by
    intro row hrow
    obtain ⟨values, hvalues, rfl⟩ := List.mem_map.mp hrow
    obtain ⟨origin, -, rfl⟩ :=
      (Pivot.mem_sortedTuples (fun row hrow => h.tuple_exact hrow) values).mp hvalues
    exact h.wideRow_keys nodup occur origin
  have hcolumns : Unpivot.valueColumnsOf (.inverse source index column value) wide = names := by
    have hcolumns := h.columns_nodup nodup occur
    rw [Unpivot.valueColumnsOf]
    change (columnNames wide).filter (fun c => decide (c ∉ index)) = names
    by_cases hempty : wide = []
    · -- without rows there are no names either
      have hnone : names = [] := by
        rw [List.eq_nil_iff_forall_not_mem]
        intro s hs
        obtain ⟨row, hrow, -⟩ := (occur s).mp hs
        have hmem := (Pivot.mem_sortedTuples (fun row hrow => h.tuple_exact hrow) _).mpr
          ⟨row, hrow, rfl⟩
        rw [List.map_eq_nil_iff.mp hempty] at hmem
        exact List.not_mem_nil hmem
      rw [hempty, hnone]
      rfl
    · rw [columnNames_of_same hcolumns hempty hkeys, List.filter_append]
      have hindex : index.filter (fun c => decide (c ∉ index)) = [] := by
        rw [List.filter_eq_nil_iff]
        intro c hc
        simpa using hc
      have hnames : names.filter (fun c => decide (c ∉ index)) = names := by
        rw [List.filter_eq_self]
        intro c hc
        rw [decide_eq_true_eq]
        exact fun hmem => (List.nodup_append.mp hcolumns).2.2 c hmem c hc rfl
      rw [hindex, hnames, List.nil_append]
  have hrequired : (index ++ names).forM (fun f => requireField wide f "unpivot") = .ok () :=
    forM_ok fun f hf => requireField_ok "unpivot" fun row hrow => hkeys row hrow ▸ hf
  rw [Unpivot.longRows, hcolumns]
  change (do (index ++ names).forM (fun f => requireField wide f "unpivot"); _) = _
  rw [hrequired]
  have hclash : ¬ (decide (column ∈ index) || decide (value ∈ index)) = true := by
    simp [h.column_not_mem, h.value_not_mem]
  change (if (decide (column ∈ index) || decide (value ∈ index)) = true then _ else _) = _
  rw [if_neg hclash]
  rfl

end Wide

/-- The rows of the table read back, as members. -/
theorem mem_long {names : List String} (nodup : names.Nodup)
    (occur : ∀ s, s ∈ names ↔ ∃ row ∈ rows, row.get? column = some (.string s)) (source : String)
    {row : Row} (hrow : row ∈ rows) (long : Row) :
    long ∈ (names.filter fun s => !(Unpivot.exactValue (Pivot.wideRow index column value rows names
          (Pivot.tuple index row)) s).isNull).map
        (Unpivot.longRow (.inverse source index column value)
          (Pivot.wideRow index column value rows names (Pivot.tuple index row))) ↔
      ∃ r ∈ rows, Pivot.tuple index r = Pivot.tuple index row ∧
        r.restrict (index ++ [column, value]) = long := by
  constructor
  · intro hlong
    obtain ⟨s, hs, rfl⟩ := List.mem_map.mp hlong
    obtain ⟨hs, hcell⟩ := List.mem_filter.mp hs
    rw [h.exactValue_name nodup occur row hs, Bool.not_eq_true'] at hcell
    obtain ⟨r, hr, hindex, hname⟩ := h.row_of_cellAt hrow hcell
    refine ⟨r, hr, hindex, ?_⟩
    rw [← hindex, h.longRow_wideRow nodup occur source hr hname]
  · rintro ⟨r, hr, hindex, rfl⟩
    obtain ⟨s, hs, -⟩ := h.named r hr
    have hmem : s ∈ names := (occur s).mpr ⟨r, hr, hs⟩
    rw [← hindex]
    refine List.mem_map.mpr ⟨s, List.mem_filter.mpr ⟨hmem, ?_⟩,
      h.longRow_wideRow nodup occur source hr hs⟩
    rw [h.exactValue_name nodup occur r hmem, h.cellAt_self hr hs, h.value_present hr]
    rfl

/-- The row for a column has its name. -/
theorem longRow_column (source : String) (row : Row) (s : String) :
    (Unpivot.longRow (.inverse source index column value) row s).get? column = some (.string s) := by
  rw [Unpivot.longRow]
  exact (Record.get?_insert_of_ne _ _ h.column_ne_value).trans (Record.get?_insert_self ..)

/-- Cut down to its fields a row still tells its index and name. -/
theorem restrict_injective {row row' : Row} (hrow : row ∈ rows) (hrow' : row' ∈ rows)
    (heq : row.restrict (index ++ [column, value]) = row'.restrict (index ++ [column, value])) :
    row = row' := by
  have hget : ∀ f ∈ index ++ [column, value], row.get? f = row'.get? f := by
    intro f hf
    have hsame := congrArg (fun r => Record.get? r f) heq
    rwa [Row.get?_restrict, Row.get?_restrict, if_pos hf, if_pos hf] at hsame
  refine h.unique hrow hrow' ?_ (hget column (by simp))
  rw [h.tuple_eq_iff hrow hrow']
  exact List.map_congr_left fun f hf => hget f (List.mem_append_left _ hf)

end Tidy

/-- Unpivot undoes pivot: rows that say one value for each combination of an index and a name come back
from their table, cut down to their fields and perhaps in another order. -/
theorem unpivot_pivot {index : List String} {column value : String} {rows : List Row}
    (h : Tidy index column value rows) (source source' : String) :
    ∃ wide long, Pivot.table (.single source index column value) rows = .ok wide ∧
      Unpivot.longRows (.inverse source' index column value) wide = .ok long ∧
      long.Perm (rows.map (Row.restrict (index ++ [column, value]))) := by
  obtain ⟨names, hnames, nodup, occur⟩ := h.names
  have hmem := Pivot.mem_sortedTuples fun row hrow => h.tuple_exact hrow
  refine ⟨_, _, ?_, h.longRows_table nodup occur source', ?_⟩
  · refine Pivot.table_single ?_ (fun row hrow => h.value_present hrow) hnames
    intro row hrow f hf
    exact h.complete row hrow f (by simpa using hf)
  rw [List.flatMap_map]
  refine (List.perm_ext_iff_of_nodup ?_ ?_).mpr ?_
  · -- rows of one index have different names, and those of different indices differ in the index
    rw [List.nodup_flatMap]
    constructor
    · intro values hvalues
      refine (nodup.filter _).map_on ?_
      intro s hs t ht heq
      have hname := h.longRow_column source' (Pivot.wideRow index column value rows names values) s
      rw [heq, h.longRow_column] at hname
      cases hname
      rfl
    · refine (Pivot.nodup_sortedTuples index rows).imp_of_mem ?_
      intro values values' hvalues hvalues' different long hlong hlong'
      obtain ⟨row, hrow, rfl⟩ := (hmem values).mp hvalues
      obtain ⟨row', hrow', rfl⟩ := (hmem values').mp hvalues'
      obtain ⟨r, hr, hindex, rfl⟩ := (h.mem_long nodup occur source' hrow long).mp hlong
      obtain ⟨r', hr', hindex', heq⟩ := (h.mem_long nodup occur source' hrow' _).mp hlong'
      rw [h.restrict_injective hr' hr heq] at hindex'
      exact different (hindex.symm.trans hindex')
  · refine (List.Nodup.of_map _ h.distinct).map_on ?_
    intro row hrow row' hrow' heq
    exact h.restrict_injective hrow hrow' heq
  · intro long
    rw [List.mem_flatMap, List.mem_map]
    constructor
    · rintro ⟨values, hvalues, hlong⟩
      obtain ⟨row, hrow, rfl⟩ := (hmem values).mp hvalues
      obtain ⟨r, hr, -, rfl⟩ := (h.mem_long nodup occur source' hrow long).mp hlong
      exact ⟨r, hr, rfl⟩
    · rintro ⟨r, hr, rfl⟩
      exact ⟨Pivot.tuple index r, (hmem _).mpr ⟨r, hr, rfl⟩,
        (h.mem_long nodup occur source' hr _).mpr ⟨r, hr, rfl, rfl⟩⟩

def saleRow (region month : String) (sales : Int64) : Row :=
  Record.ofList [("region", .string region), ("month", .string month), ("sales", .int sales)]

/-- Sales of two regions, one of which has none in the second month. -/
def salesByMonth : List Row := [saleRow "north" "jan" 1, saleRow "south" "jan" 2, saleRow "north" "feb" 3]

theorem tidy_salesByMonth : Tidy ["region"] "month" "sales" salesByMonth where
  fields := by decide
  complete := by
    have hkeys : ∀ row ∈ salesByMonth, row.keys = ["region", "month", "sales"] := by
      simp only [salesByMonth, List.forall_mem_cons]
      exact ⟨rfl, rfl, rfl, nofun⟩
    intro row hrow f hf
    rw [hkeys row hrow]
    exact hf
  exact := by
    have hregion : ∀ row ∈ salesByMonth, ∃ region, row.get? "region" = some (.string region) := by
      simp only [salesByMonth, List.forall_mem_cons]
      exact ⟨⟨_, rfl⟩, ⟨_, rfl⟩, ⟨_, rfl⟩, nofun⟩
    intro row hrow f hf v hv
    obtain ⟨region, hr⟩ := hregion row hrow
    rw [List.mem_singleton.mp hf, hr] at hv
    cases hv
    trivial
  named := by
    simp only [salesByMonth, List.forall_mem_cons]
    exact ⟨⟨"jan", rfl, by decide⟩, ⟨"jan", rfl, by decide⟩, ⟨"feb", rfl, by decide⟩, nofun⟩
  present := by
    have hsales : ∀ row ∈ salesByMonth, ∃ sales, row.get? "sales" = some (.int sales) := by
      simp only [salesByMonth, List.forall_mem_cons]
      exact ⟨⟨_, rfl⟩, ⟨_, rfl⟩, ⟨_, rfl⟩, nofun⟩
    intro row hrow hnull
    obtain ⟨sales, hs⟩ := hsales row hrow
    rw [hs] at hnull
    cases hnull
  distinct := by
    have htuples : (salesByMonth.map fun row => (["region"] ++ ["month"]).map row.get?) =
        [("north", "jan"), ("south", "jan"), ("north", "feb")].map fun p =>
          [some (.string p.1), some (.string p.2)] := rfl
    rw [htuples]
    refine List.Nodup.map ?_ (by decide)
    rintro ⟨a, b⟩ ⟨c, d⟩ heq
    simpa using heq

theorem unpivot_pivot_sales :
    Tidy ["region"] "month" "sales" salesByMonth ∧
      ∃ wide long, Pivot.table (.single "sales" ["region"] "month" "sales") salesByMonth = .ok wide ∧
        Unpivot.longRows (.inverse "table" ["region"] "month" "sales") wide = .ok long ∧
        long.Perm (salesByMonth.map (Row.restrict ["region", "month", "sales"])) :=
  ⟨tidy_salesByMonth, unpivot_pivot tidy_salesByMonth "sales" "table"⟩

end RowPipeline
