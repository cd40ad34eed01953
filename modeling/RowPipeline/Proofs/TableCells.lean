import RowPipeline.Proofs.QueryColumns
import RowPipeline.Proofs.Reshaping

/-!
# Cells of a table

A table has a column for each combination of a function, a value field and values of the column fields. The
cell of a combination goes under a name that is put together from its parts, so a cell is kept unless a
later one, or none but the index, has its name. The names are apart if they can be read back.
-/

namespace RowPipeline

/-! ## Names -/

/-- Names in order of first appearance are as many as the names, exactly if no name comes twice. -/
theorem length_foldl_addName_iff (names : List String) :
    (names.foldl addName []).length = names.length ↔ names.Nodup := by
  constructor
  · intro h
    have hkept : (names.foldl addName []).Nodup := Document.nodup_foldl_addName _ List.nodup_nil
    have hsub : names.foldl addName [] ⊆ names := by
      intro name hname
      rw [Document.mem_foldl_addName] at hname
      simpa using hname
    exact ((List.subperm_of_subset hkept hsub).perm_of_length_le h.ge).nodup hkept
  · intro h
    rw [foldl_addName_of_nodup (by simpa using h), List.nil_append]

/-- What stands before the first underscore is told, and so is what follows it. -/
theorem append_underscore_inj {x y rest rest' : String} (hx : '_' ∉ x.toList) (hy : '_' ∉ y.toList)
    (h : x ++ "_" ++ rest = y ++ "_" ++ rest') : x = y ∧ rest = rest' := by
  have hlist : x.toList ++ '_' :: rest.toList = y.toList ++ '_' :: rest'.toList := by
    simpa using congrArg String.toList h
  obtain ⟨hfront, hback⟩ := split_first hx hy hlist
  exact ⟨String.toList_inj.mp hfront, String.toList_inj.mp hback⟩

/-- Lists of texts are told by the texts joined with underscores, if only the last one holds any. -/
theorem intercalate_underscore_inj {xs ys : List String} (hlength : xs.length = ys.length)
    (hx : ∀ x ∈ xs.dropLast, '_' ∉ x.toList) (hy : ∀ y ∈ ys.dropLast, '_' ∉ y.toList)
    (h : "_".intercalate xs = "_".intercalate ys) : xs = ys := by
  induction xs generalizing ys with
  | nil => exact (List.length_eq_zero_iff.mp hlength.symm).symm
  | cons x xs ih =>
      cases ys with
      | nil => cases hlength
      | cons y ys =>
          have hrest : xs.length = ys.length := Nat.succ.inj hlength
          cases xs with
          | nil =>
              obtain rfl := List.length_eq_zero_iff.mp hrest.symm
              simpa using h
          | cons x' xs =>
              cases ys with
              | nil => cases hrest
              | cons y' ys =>
                  rw [List.dropLast_cons_cons, List.forall_mem_cons] at hx hy
                  rw [String.intercalate_cons_cons, String.intercalate_cons_cons] at h
                  obtain ⟨hhead, htail⟩ := append_underscore_inj hx.1 hy.1 h
                  rw [hhead, ih hrest hx.2 hy.2 htail]

namespace Record

variable {α : Type}

/-- Of pairs that are entered the last one of a name stays. -/
theorem get?_insertAll_of_last (r : Record α) {front back : List (String × α)} {name : String}
    {value : α} (last : name ∉ back.map Prod.fst) :
    (r.insertAll (front ++ (name, value) :: back)).get? name = some value := by
  have hsplit : r.insertAll (front ++ (name, value) :: back) =
      ((r.insertAll front).insert name value).insertAll back := by
    unfold insertAll
    rw [List.foldl_append, List.foldl_cons]
  rw [hsplit, get?_insertAll_of_not_mem _ last, get?_insert_self]

end Record

theorem CellFunction.name_injective : Function.Injective CellFunction.name := by
  intro f g h
  cases f <;> cases g <;> first | rfl | exact absurd h (by decide)

namespace Pivot

variable {config : Config} {rows out : List Row}

/-! ## Combinations -/

/-- A function, a value field and values of the column fields. -/
structure Combination where
  function : CellFunction
  field : String
  names : List Value

namespace Combination

/-- The parts of the name of a column: what tells its combination from the others. -/
def parts (config : Config) (c : Combination) : List String :=
  (if 1 < config.functions.length then [c.function.name] else []) ++
    (if 1 < config.values.length then [c.field] else []) ++ c.names.map Value.display

def name (config : Config) (c : Combination) : String :=
  columnName config c.function c.field c.names

def column (config : Config) (c : Combination) : Column :=
  ⟨c.name config, c.function, c.field, compositeKey c.names⟩

end Combination

/-- All combinations of a table, in the order of its columns. -/
def combinations (config : Config) (rows : List Row) : List Combination :=
  (config.functions ×ˢ config.values ×ˢ sortedTuples config.columns rows).map fun c => ⟨c.1, c.2.1, c.2.2⟩

theorem tableColumns_eq (config : Config) (rows : List Row) :
    tableColumns config rows = (combinations config rows).map (·.column config) := by
  unfold tableColumns combinations SProd.sprod List.instSProd List.product
  simp only [List.map_flatMap, List.map_map]
  rfl

theorem length_combinations (config : Config) (rows : List Row) : (combinations config rows).length =
    config.functions.length * config.values.length * (sortedTuples config.columns rows).length := by
  unfold combinations
  rw [List.length_map, List.length_product, List.length_product, Nat.mul_assoc]

theorem mem_combinations {c : Combination} : c ∈ combinations config rows ↔
    c.function ∈ config.functions ∧ c.field ∈ config.values ∧
      c.names ∈ sortedTuples config.columns rows := by
  unfold combinations
  rw [List.mem_map]
  constructor
  · rintro ⟨⟨f, field, names⟩, hc, rfl⟩
    rwa [List.mem_product, List.mem_product] at hc
  · intro hc
    refine ⟨(c.function, c.field, c.names), ?_, rfl⟩
    rwa [List.mem_product, List.mem_product]

theorem nodup_combinations (functions : config.functions.Nodup) (values : config.values.Nodup)
    (rows : List Row) : (combinations config rows).Nodup := by
  refine (functions.product (values.product (nodup_sortedTuples _ rows))).map ?_
  rintro ⟨f, field, names⟩ ⟨g, field', names'⟩ h
  simpa using h

/-- The combinations of some fields are of the rows. -/
theorem exists_row_of_mem_sortedTuples {fields : List String} {values : List Value}
    (h : values ∈ sortedTuples fields rows) : ∃ row ∈ rows, tuple fields row = values := by
  unfold sortedTuples at h
  rw [mem_sortBy] at h
  exact List.mem_map.mp (mem_of_mem_distinctByKey h)

/-- The combinations of some fields have a value for each field. -/
theorem length_of_mem_sortedTuples {fields : List String} {values : List Value}
    (h : values ∈ sortedTuples fields rows) : values.length = fields.length := by
  obtain ⟨row, -, rfl⟩ := exists_row_of_mem_sortedTuples h
  exact List.length_map _

/-- The keys of the combinations of some fields are those of the rows, in the order they are met. -/
theorem keys_sortedTuples (fields : List String) (rows : List Row) :
    ((sortedTuples fields rows).map compositeKey).Perm
      (((rows.map (tuple fields)).map compositeKey).foldl addName []) := by
  rw [← map_key_distinctByKey]
  exact (sortBy_perm _ _).map compositeKey

/-- No two combinations have values that stand for the same. -/
theorem nodup_keyForms_sortedTuples (fields : List String) (rows : List Row) :
    ((sortedTuples fields rows).map (List.map Value.keyForm)).Nodup := by
  -- the keys are different, and a key is that of what it stands for
  have hforms : ((sortedTuples fields rows).map (List.map Value.keyForm)).map compositeKey =
      (sortedTuples fields rows).map compositeKey := by
    rw [List.map_map]
    refine List.map_congr_left fun values _ => ?_
    show unitSeparator.intercalate ((values.map Value.keyForm).map Value.canonicalKey) =
      unitSeparator.intercalate (values.map Value.canonicalKey)
    rw [List.map_map]
    simp [Function.comp_def]
  refine List.Nodup.of_map compositeKey ?_
  rw [hforms, (keys_sortedTuples fields rows).nodup_iff]
  exact Document.nodup_foldl_addName _ List.nodup_nil

/-- By what their values stand for, the combinations are those of the rows. -/
theorem mem_keyForms_sortedTuples {fields : List String} {rows : List Row} {values : List Value} :
    values ∈ (sortedTuples fields rows).map (List.map Value.keyForm) ↔
      ∃ row ∈ rows, (tuple fields row).map Value.keyForm = values := by
  rw [List.mem_map]
  constructor
  · rintro ⟨names, hnames, rfl⟩
    obtain ⟨row, hrow, rfl⟩ := exists_row_of_mem_sortedTuples hnames
    exact ⟨row, hrow, rfl⟩
  · rintro ⟨row, hrow, rfl⟩
    have hkey : compositeKey (tuple fields row) ∈ (sortedTuples fields rows).map compositeKey := by
      rw [(keys_sortedTuples fields rows).mem_iff, Document.mem_foldl_addName]
      exact .inr (List.mem_map_of_mem (List.mem_map_of_mem hrow))
    obtain ⟨names, hnames, hsame⟩ := List.mem_map.mp hkey
    exact ⟨names, hnames, (compositeKey_eq_iff _ _).mp hsame⟩

/-! ## Cells -/

/-- The rows with some values in the index fields and some in the column fields. Values count as what their
keys stand for: an integral double as the integer, and what is not finite as null. -/
def rowsAt (config : Config) (rows : List Row) (values names : List Value) : List Row :=
  rows.filter fun r => (tuple config.index r).map Value.keyForm = values.map Value.keyForm &&
    (tuple config.columns r).map Value.keyForm = names.map Value.keyForm

/-- What the function of a combination says of its field in the rows with some index values; without such
rows it is the value to fill with. -/
def Combination.valueAt (config : Config) (rows : List Row) (values : List Value) (c : Combination) :
    Value :=
  let cell := rowsAt config rows values c.names
  if cell.isEmpty then config.fillValue.getD .null
  else c.function.apply (cell.map fun r => r.lookupD c.field)

theorem cellOf_column (values : List Value) (c : Combination) :
    cellOf config rows values (c.column config) = rowsAt config rows values c.names := by
  unfold cellOf rowsAt
  refine List.filter_congr fun r _ => ?_
  show (decide _ && decide (_ = compositeKey c.names)) = _
  rw [decide_eq_decide.mpr (compositeKey_eq_iff (tuple config.index r) values),
    decide_eq_decide.mpr (compositeKey_eq_iff (tuple config.columns r) c.names)]

/-- Where there are no doubles, a cell has the rows with the very values. -/
theorem rowsAt_of_exact
    (exact : ∀ r ∈ rows, ∀ f ∈ config.index ++ config.columns, (r.lookupD f).Exact)
    {values names : List Value} (hvalues : values ∈ sortedTuples config.index rows)
    (hnames : names ∈ sortedTuples config.columns rows) :
    rowsAt config rows values names =
      rows.filter fun r => tuple config.index r = values && tuple config.columns r = names := by
  have hindex : ∀ r ∈ rows, ∀ v ∈ tuple config.index r, v.Exact := fun r hr =>
    List.forall_mem_map.mpr fun f hf => exact r hr f (List.mem_append_left _ hf)
  have hcolumns : ∀ r ∈ rows, ∀ v ∈ tuple config.columns r, v.Exact := fun r hr =>
    List.forall_mem_map.mpr fun f hf => exact r hr f (List.mem_append_right _ hf)
  have hform : ∀ {values : List Value}, (∀ v ∈ values, v.Exact) → values.map Value.keyForm = values := by
    intro values hexact
    exact (List.map_congr_left fun v hv => (hexact v hv).keyForm_eq).trans (List.map_id _)
  obtain ⟨row, hrow, rfl⟩ := exists_row_of_mem_sortedTuples hvalues
  obtain ⟨row', hrow', rfl⟩ := exists_row_of_mem_sortedTuples hnames
  unfold rowsAt
  refine List.filter_congr fun r hr => ?_
  rw [hform (hindex r hr), hform (hindex row hrow), hform (hcolumns r hr), hform (hcolumns row' hrow')]

theorem tableRow_eq (config : Config) (rows : List Row) (values : List Value) :
    tableRow config rows values = (Record.ofList (config.index.zip values)).insertAll
      ((combinations config rows).map fun c => (c.name config, c.valueAt config rows values)) := by
  unfold tableRow
  rw [tableColumns_eq, List.map_map]
  congr 1
  refine List.map_congr_left fun c _ => ?_
  show (c.name config, cellValue config (c.column config)
    (cellOf config rows values (c.column config))) = _
  rw [cellOf_column]
  rfl

theorem table_eq_ok (h : table config rows = .ok out) :
    out = (sortedTuples config.index rows).map (tableRow config rows) := by
  rw [table_eq] at h
  split at h
  · cases h
  · obtain ⟨-, -, h⟩ := bind_eq_ok h
    exact (Except.ok.inj h).symm

/-! ## Names of columns -/

/-- Names of columns that can be read back: only the last part of a name holds underscores, the texts of
values tell the combinations of the column fields, and no name is that of an index field. -/
structure Legible (config : Config) (rows : List Row) : Prop where
  parts : ∀ c ∈ combinations config rows, ∀ part ∈ (c.parts config).dropLast, '_' ∉ part.toList
  texts : ∀ names ∈ sortedTuples config.columns rows, ∀ others ∈ sortedTuples config.columns rows,
    names.map Value.display = others.map Value.display → names = others
  index : ∀ c ∈ combinations config rows, c.name config ∉ config.index

/-- The element of a list of one at most. -/
theorem eq_of_mem_of_length {α : Type} {xs : List α} (h : ¬ 1 < xs.length) {a b : α} (ha : a ∈ xs)
    (hb : b ∈ xs) : a = b := by
  match xs with
  | [] => cases ha
  | [x] => rw [List.mem_singleton.mp ha, List.mem_singleton.mp hb]
  | x :: y :: rest => exact absurd (by simp) h

namespace Legible

variable (legible : Legible config rows) {c d : Combination}

include legible

/-- A combination is told by the parts of its name. -/
theorem eq_of_parts (hc : c ∈ combinations config rows) (hd : d ∈ combinations config rows)
    (h : c.parts config = d.parts config) : c = d := by
  obtain ⟨hfunction, hfield, hnames⟩ := mem_combinations.mp hc
  obtain ⟨hfunction', hfield', hnames'⟩ := mem_combinations.mp hd
  unfold Combination.parts at h
  obtain ⟨hfront, hvalues⟩ := List.append_inj h (by split <;> split <;> rfl)
  obtain ⟨hfunctions, hfields⟩ := List.append_inj hfront (by split <;> rfl)
  -- a part that is left out is the only one there is
  have hsameFunction : c.function = d.function := by
    by_cases hmany : 1 < config.functions.length
    · rw [if_pos hmany, if_pos hmany] at hfunctions
      exact CellFunction.name_injective (List.cons.inj hfunctions).1
    · exact eq_of_mem_of_length hmany hfunction hfunction'
  have hsameField : c.field = d.field := by
    by_cases hmany : 1 < config.values.length
    · rw [if_pos hmany, if_pos hmany] at hfields
      exact (List.cons.inj hfields).1
    · exact eq_of_mem_of_length hmany hfield hfield'
  have hsameNames : c.names = d.names := legible.texts _ hnames _ hnames' hvalues
  cases c
  cases d
  congr

theorem name_injective (hc : c ∈ combinations config rows) (hd : d ∈ combinations config rows)
    (h : c.name config = d.name config) : c = d := by
  have hlength : (c.parts config).length = (d.parts config).length := by
    have hnames := length_of_mem_sortedTuples (mem_combinations.mp hc).2.2
    have hnames' := length_of_mem_sortedTuples (mem_combinations.mp hd).2.2
    unfold Combination.parts
    simp only [List.length_append, List.length_map, hnames, hnames']
    split <;> split <;> rfl
  have htext : ∀ c : Combination, (c.name config).toList =
      (config.before.getD "").toList ++ ("_".intercalate (c.parts config)).toList ++
        (config.after.getD "").toList := by
    intro c
    show (config.before.getD "" ++ "_".intercalate (c.parts config) ++ config.after.getD "").toList = _
    rw [String.toList_append, String.toList_append]
  have hjoined : "_".intercalate (c.parts config) = "_".intercalate (d.parts config) := by
    have hlists := (htext c).symm.trans ((congrArg String.toList h).trans (htext d))
    exact String.toList_inj.mp (List.append_cancel_left (List.append_cancel_right hlists))
  refine legible.eq_of_parts hc hd ?_
  exact intercalate_underscore_inj hlength (legible.parts c hc) (legible.parts d hd) hjoined

/-- The names of the columns are apart, and apart from the index. -/
theorem nodup_names (index : config.index.Nodup) (values : config.values.Nodup)
    (functions : config.functions.Nodup) :
    (config.index ++ (combinations config rows).map (·.name config)).Nodup := by
  refine List.nodup_append.mpr ⟨index, ?_, ?_⟩
  · exact (nodup_combinations functions values rows).map_on fun c hc d hd => legible.name_injective hc hd
  · rintro f hf name hname rfl
    obtain ⟨c, hc, rfl⟩ := List.mem_map.mp hname
    exact legible.index c hc hf

end Legible

/-! ## Rows of a table -/

/-- A row of a table for some index values. A cell is in its row unless a later one has its name, and an
index field unless a cell has. All are there exactly if no name comes twice. -/
structure Tabulates (config : Config) (rows : List Row) (values : List Value) (row : Row) : Prop where
  cell : ∀ before c after, combinations config rows = before ++ c :: after →
    c.name config ∉ after.map (·.name config) →
      row.get? (c.name config) = some (c.valueAt config rows values)
  index : ∀ p ∈ config.index.zip values, p.1 ∉ (combinations config rows).map (·.name config) →
    row.get? p.1 = some p.2
  size : row.size = config.index.length + (combinations config rows).length ↔
    (config.index ++ (combinations config rows).map (·.name config)).Nodup
  whole : (config.index ++ (combinations config rows).map (·.name config)).Nodup →
    row.entries = config.index.zip values ++
      (combinations config rows).map fun c => (c.name config, c.valueAt config rows values)

theorem tabulates_tableRow (index : config.index.Nodup) {values : List Value}
    (hvalues : values ∈ sortedTuples config.index rows) :
    Tabulates config rows values (tableRow config rows values) := by
  have hindex : (config.index.zip values).map Prod.fst = config.index :=
    List.map_fst_zip (length_of_mem_sortedTuples hvalues).ge
  have hnames : ((combinations config rows).map fun c =>
      (c.name config, c.valueAt config rows values)).map Prod.fst =
        (combinations config rows).map (·.name config) := by
    rw [List.map_map]
    rfl
  have hzip : ((config.index.zip values).map Prod.fst).Nodup := hindex.symm ▸ index
  have hkeys : (Record.ofList (config.index.zip values)).keys = config.index := by
    rw [Record.keys_ofList_of_nodup _ hzip, hindex]
  rw [tableRow_eq]
  constructor
  case cell =>
    intro before c after hsplit hlast
    rw [hsplit, List.map_append, List.map_cons]
    refine Record.get?_insertAll_of_last _ ?_
    rw [List.map_map]
    exact hlast
  case index =>
    rintro ⟨f, v⟩ hp hfree
    rw [Record.get?_insertAll_of_not_mem _ (hnames.symm ▸ hfree)]
    exact Record.get?_ofList_of_mem hzip hp
  case size =>
    rw [← Record.length_keys, Record.keys_insertAll, Record.keys_ofList, hindex, hnames,
      ← List.foldl_append, ← length_foldl_addName_iff, List.length_append, List.length_map]
  case whole =>
    intro hnodup
    rw [Record.entries_insertAll_of_nodup, Record.entries_ofList_of_nodup _ hzip]
    rw [hkeys, hnames]
    exact hnodup

/-- A table has a row for each combination of the index fields. If the names of the columns can be read back,
each combination of a function, a value field and the column fields has a column of its own in it, beside
the index, with what the function says of the rows with these values. Whatever the names are, the row has as
many columns exactly if no name comes twice. -/
theorem cells_kept (h : table config rows = .ok out) (index : config.index.Nodup)
    (values : config.values.Nodup) (functions : config.functions.Nodup) :
    (∀ c, c ∈ combinations config rows ↔ c.function ∈ config.functions ∧ c.field ∈ config.values ∧
        c.names ∈ sortedTuples config.columns rows) ∧
      (combinations config rows).length =
        config.functions.length * config.values.length * (sortedTuples config.columns rows).length ∧
      (∀ fields, ((sortedTuples fields rows).map (List.map Value.keyForm)).Nodup ∧
        ∀ t, t ∈ (sortedTuples fields rows).map (List.map Value.keyForm) ↔
          ∃ row ∈ rows, (tuple fields row).map Value.keyForm = t) ∧
      ((∀ r ∈ rows, ∀ f ∈ config.index ++ config.columns, (r.lookupD f).Exact) →
        ∀ t ∈ sortedTuples config.index rows, ∀ names ∈ sortedTuples config.columns rows,
          rowsAt config rows t names =
            rows.filter fun r => tuple config.index r = t && tuple config.columns r = names) ∧
      (Legible config rows → List.Forall₂ (fun t row =>
          row.entries = config.index.zip t ++
            (combinations config rows).map (fun c => (c.name config, c.valueAt config rows t)) ∧
          row.size = config.index.length +
            config.functions.length * config.values.length * (sortedTuples config.columns rows).length)
        (sortedTuples config.index rows) out) ∧
      List.Forall₂ (Tabulates config rows) (sortedTuples config.index rows) out := by
  have hlength := length_combinations config rows
  have hrows : List.Forall₂ (Tabulates config rows) (sortedTuples config.index rows) out := by
    rw [table_eq_ok h, List.forall₂_map_right_iff, List.forall₂_same]
    exact fun t ht => tabulates_tableRow index ht
  refine ⟨fun c => mem_combinations, hlength,
    fun fields => ⟨nodup_keyForms_sortedTuples fields rows, fun t => mem_keyForms_sortedTuples⟩,
    fun exact t ht names hnames => rowsAt_of_exact exact ht hnames, ?_, hrows⟩
  intro legible
  have hnodup := legible.nodup_names index values functions
  refine hrows.imp fun t row hrow => ⟨hrow.whole hnodup, ?_⟩
  rw [← hlength]
  exact hrow.size.mpr hnodup

def sale (region quarter : Value) (amount : Int64) : Row :=
  Record.ofList [("region", region), ("quarter", quarter), ("amount", .int amount)]

/-- Sales by region and quarter. -/
def salesByQuarter (functions : List CellFunction) : Config :=
  ⟨"sales", ["region"], ["quarter"], ["amount"], functions, none, none, none⟩

def quarterlySales : List Row :=
  [sale (.string "EU") (.string "Q1") 10, sale (.string "US") (.string "Q2") 7,
    sale (.string "EU") (.string "Q1") 20]

theorem legible_quarterlySales : Legible (salesByQuarter [.sum, .count]) quarterlySales where
  parts := by decide
  texts := by decide
  index := by decide

theorem cells_kept_quarters :
    ∃ europe america, table (salesByQuarter [.sum, .count]) quarterlySales = .ok [europe, america] ∧
      europe.entries = [("region", .string "EU"), ("sum_Q1", .int 30), ("sum_Q2", .null),
        ("count_Q1", .int 2), ("count_Q2", .null)] ∧
      america.size = 5 := by
  have htable : ∃ europe america,
      table (salesByQuarter [.sum, .count]) quarterlySales = .ok [europe, america] := ⟨_, _, rfl⟩
  obtain ⟨europe, america, htable⟩ := htable
  obtain ⟨-, -, -, -, hkept, -⟩ := cells_kept htable (by decide) (by decide) (by decide)
  have hindex : sortedTuples ["region"] quarterlySales = [[.string "EU"], [.string "US"]] := by decide
  have hrows := hkept legible_quarterlySales
  change List.Forall₂ _ (sortedTuples ["region"] quarterlySales) _ at hrows
  rw [hindex] at hrows
  obtain ⟨heurope, hrest⟩ := List.forall₂_cons.mp hrows
  obtain ⟨hamerica, -⟩ := List.forall₂_cons.mp hrest
  refine ⟨europe, america, htable, heurope.1.trans ?_, hamerica.2.trans ?_⟩
  · decide
  · decide

/-- Values of two kinds with one text share a column, which holds the later ones alone. A column named as an
index field stands in its place. -/
theorem equal_names_lose_cells :
    (∃ row, table (salesByQuarter [.sum])
          [sale (.string "EU") (.int 1) 10, sale (.string "EU") (.string "1") 20] = .ok [row] ∧
        row.entries = [("region", .string "EU"), ("1", .int 20)] ∧
        (sortedTuples ["quarter"]
          [sale (.string "EU") (.int 1) 10, sale (.string "EU") (.string "1") 20]).length = 2) ∧
      ∃ row, table (salesByQuarter [.sum]) [sale (.string "EU") (.string "region") 7] = .ok [row] ∧
        row.entries = [("region", .int 7)] :=
  ⟨⟨_, rfl, rfl, by decide⟩, _, rfl, rfl⟩

end Pivot

end RowPipeline
