import RowPipeline.Proofs.QueryColumns
import RowPipeline.Proofs.Reshaping

/-!
# Long rows

A row becomes one long row for each value column, in order, with the values of its columns of the exact
names. That is what references to the columns find, unless a row has a column under another spelling only.
-/

namespace RowPipeline.Unpivot

variable {config : Config} {rows out : List Row}

/-- The rows with their value columns, each pair of which becomes a long row; where nulls are dropped, those
pairs are left out whose value is null. -/
def triples (read : Row → String → Value) (config : Config) (rows : List Row) : List (Row × String) :=
  rows.flatMap fun row => ((valueColumnsOf config rows).filter fun c =>
    !(config.dropNulls && (read row c).isNull)).map fun c => (row, c)

/-- A pair is of a row of the rows and one of their value columns. -/
theorem mem_rows_of_mem_triples {read : Row → String → Value} {p : Row × String}
    (h : p ∈ triples read config rows) : p.1 ∈ rows ∧ p.2 ∈ valueColumnsOf config rows := by
  obtain ⟨row, hrow, hp⟩ := List.mem_flatMap.mp h
  obtain ⟨c, hc, rfl⟩ := List.mem_map.mp hp
  exact ⟨hrow, List.mem_of_mem_filter hc⟩

/-- Two ways to read the value columns of the rows alike leave out the same pairs. -/
theorem triples_congr {read read' : Row → String → Value}
    (h : ∀ row ∈ rows, ∀ c ∈ valueColumnsOf config rows, read row c = read' row c) :
    triples read config rows = triples read' config rows := by
  unfold triples
  refine List.flatMap_congr fun row hrow => ?_
  congr 1
  refine List.filter_congr fun c hc => ?_
  rw [h row hrow c hc]

theorem longRows_eq_ok (h : longRows config rows = .ok out) :
    config.nameColumn ∉ config.idColumns ∧ config.valueColumn ∉ config.idColumns ∧
      out = (triples exactValue config rows).map fun p => longRow config p.1 p.2 := by
  unfold longRows at h
  obtain ⟨-, -, h⟩ := bind_eq_ok h
  split at h
  · cases h
  · rename_i hclash
    rw [Bool.or_eq_true, decide_eq_true_iff, decide_eq_true_iff, not_or] at hclash
    refine ⟨hclash.1, hclash.2, ?_⟩
    unfold triples
    rw [List.map_flatMap, ← Except.ok.inj h]
    simp only [List.map_map]
    rfl

/-- A column of a long row: the value goes before the name, and the name before the columns repeated. -/
theorem get?_longRow (config : Config) (row : Row) (column f : String) :
    (longRow config row column).get? f =
      if f = config.valueColumn then some (exactValue row column)
      else if f = config.nameColumn then some (.string column)
      else if f ∈ config.idColumns then some (exactValue row f) else none := by
  have hids : (Record.ofList (config.idColumns.map fun c => (c, exactValue row c))).get? f =
      if f ∈ config.idColumns then some (exactValue row f) else none := by
    rw [← Record.get?_ofList_image (fun c => some (exactValue row c)), ← List.filterMap_eq_map]
    rfl
  unfold longRow
  rw [Record.get?_insert, Record.get?_insert, hids]

theorem keys_longRow (ids : config.idColumns.Nodup) (row : Row) (column : String) :
    (longRow config row column).keys =
      addName (addName config.idColumns config.nameColumn) config.valueColumn := by
  have hids : (config.idColumns.map fun c => (c, exactValue row c)).map Prod.fst = config.idColumns := by
    rw [List.map_map]
    exact List.map_id config.idColumns
  unfold longRow
  rw [Record.keys_insert, Record.keys_insert, Record.keys_ofList_of_nodup _ (hids.symm ▸ ids), hids]

/-- The long row for a column of a row, in which values are read as given: it repeats the columns that
identify the row, and has the name of the column and its value. -/
structure Carries (read : Row → String → Value) (config : Config) (row : Row) (column : String)
    (long : Row) : Prop where
  ids : ∀ c ∈ config.idColumns, long.get? c = some (read row c)
  name : long.get? config.nameColumn = some (.string column)
  value : long.get? config.valueColumn = some (read row column)
  size : config.idColumns.Nodup → long.size = config.idColumns.length + 2

/-- A long row has the values of the columns of exactly these names. The name of the column is there unless
the value has taken its place. -/
structure Melted (config : Config) (row : Row) (column : String) (long : Row) : Prop where
  ids : ∀ c ∈ config.idColumns, long.get? c = some (exactValue row c)
  name : long.get? config.nameColumn =
    some (if config.nameColumn = config.valueColumn then exactValue row column else .string column)
  value : long.get? config.valueColumn = some (exactValue row column)
  size : config.idColumns.Nodup →
    (long.size = config.idColumns.length + 2 ↔ config.nameColumn ≠ config.valueColumn)

theorem melted_longRow (name : config.nameColumn ∉ config.idColumns)
    (value : config.valueColumn ∉ config.idColumns) (row : Row) (column : String) :
    Melted config row column (longRow config row column) := by
  constructor
  case ids =>
    intro c hc
    have hname : c ≠ config.nameColumn := fun heq => name (heq ▸ hc)
    have hvalue : c ≠ config.valueColumn := fun heq => value (heq ▸ hc)
    rw [get?_longRow, if_neg hvalue, if_neg hname, if_pos hc]
  case name =>
    rw [get?_longRow]
    split
    · rfl
    · rw [if_pos rfl]
  case value => rw [get?_longRow, if_pos rfl]
  case size =>
    intro ids
    rw [← Record.length_keys, keys_longRow ids]
    by_cases hsame : config.nameColumn = config.valueColumn
    · simp [addName, hsame, value]
    · simp [addName, name, value, hsame, Ne.symm hsame]

/-- What a reference finds is the value under its exact name, if the row has such a column or the reference
finds nothing but null. -/
theorem exactValue_eq_lookupD_iff (row : Row) (c : String) :
    exactValue row c = row.lookupD c ↔ row.contains c = true ∨ row.lookupD c = .null := by
  unfold exactValue Record.contains
  cases hget : row.get? c with
  | some v => simp [Row.lookupD_of_get? hget]
  | none => simp [eq_comm]

/-- There is a long row for each row and value column, in order, with the values under the exact names. So
it has what references to the columns find, and a column for each, if the name and the value of a column go
under different names and no row has a column, but for nulls, under another spelling only. -/
theorem longRows_triples (h : longRows config rows = .ok out) :
    List.Forall₂ (fun p long => Melted config p.1 p.2 long) (triples exactValue config rows) out ∧
      (config.nameColumn ≠ config.valueColumn →
        (∀ row ∈ rows, ∀ c ∈ config.idColumns ++ valueColumnsOf config rows,
          row.contains c = true ∨ row.lookupD c = .null) →
        List.Forall₂ (fun p long => Carries Row.lookupD config p.1 p.2 long)
          (triples Row.lookupD config rows) out) := by
  obtain ⟨hname, hvalue, rfl⟩ := longRows_eq_ok h
  have hmelted : List.Forall₂ (fun p long => Melted config p.1 p.2 long)
      (triples exactValue config rows)
      ((triples exactValue config rows).map fun p => longRow config p.1 p.2) := by
    rw [List.forall₂_map_right_iff, List.forall₂_same]
    exact fun p _ => melted_longRow hname hvalue p.1 p.2
  refine ⟨hmelted, ?_⟩
  intro different spelt
  have hread : ∀ row ∈ rows, ∀ c ∈ config.idColumns ++ valueColumnsOf config rows,
      exactValue row c = row.lookupD c :=
    fun row hrow c hc => (exactValue_eq_lookupD_iff row c).mpr (spelt row hrow c hc)
  rw [← triples_congr fun row hrow c hc => hread row hrow c (List.mem_append_right _ hc)]
  rw [List.forall₂_map_right_iff, List.forall₂_same]
  intro p hp
  obtain ⟨hrow, hcolumn⟩ := mem_rows_of_mem_triples hp
  have hmelt := melted_longRow hname hvalue p.1 p.2
  constructor
  case ids =>
    intro c hc
    rw [hmelt.ids c hc, hread p.1 hrow c (List.mem_append_left _ hc)]
  case name => rw [hmelt.name, if_neg different]
  case value => rw [hmelt.value, hread p.1 hrow p.2 (List.mem_append_right _ hcolumn)]
  case size => exact fun ids => (hmelt.size ids).mpr different

/-- Quarters of regions, of which one has no second quarter. -/
def quartersOfRegions : List Row :=
  [Record.ofList [("region", .string "EU"), ("Q1", .int 30), ("Q2", .null)],
    Record.ofList [("region", .string "US"), ("Q1", .int 7)]]

def byRegion : Config := ⟨"wide", ["region"], ["Q1", "Q2"], "quarter", "amount", true⟩

theorem longRows_triples_regions :
    ∃ europe america, longRows byRegion quartersOfRegions = .ok [europe, america] ∧
      europe.get? "quarter" = some (.string "Q1") ∧ europe.get? "amount" = some (.int 30) ∧
      america.get? "region" = some (.string "US") ∧ america.size = 3 := by
  have hout : ∃ europe america,
      longRows byRegion quartersOfRegions = .ok [europe, america] := ⟨_, _, rfl⟩
  obtain ⟨europe, america, hout⟩ := hout
  obtain ⟨-, hcarries⟩ := longRows_triples hout
  have hrows := hcarries (by decide) (by decide)
  change List.Forall₂ _ [(_, "Q1"), (_, "Q1")] _ at hrows
  obtain ⟨heurope, hrest⟩ := List.forall₂_cons.mp hrows
  obtain ⟨hamerica, -⟩ := List.forall₂_cons.mp hrest
  exact ⟨europe, america, hout, heurope.name, heurope.value,
    hamerica.ids "region" List.mem_cons_self, hamerica.size (by decide)⟩

/-- A column that only a qualified name stands for is repeated as null. The value of a column takes the
place of its name if they go under one name. -/
theorem other_spelling_read_as_null :
    (∃ long, longRows ⟨"wide", ["id"], ["amount"], "variable", "value", false⟩
          [Record.ofList [("o.id", .int 1), ("amount", .int 5)]] = .ok [long] ∧
        Row.lookupD (Record.ofList [("o.id", .int 1), ("amount", .int 5)]) "id" = .int 1 ∧
        long.entries = [("id", .null), ("variable", .string "amount"), ("value", .int 5)]) ∧
      ∃ long, longRows ⟨"wide", ["id"], ["amount"], "x", "x", false⟩
          [Record.ofList [("id", .int 1), ("amount", .int 5)]] = .ok [long] ∧
        long.entries = [("id", .int 1), ("x", .int 5)] :=
  ⟨⟨_, rfl, by decide, rfl⟩, _, rfl, rfl⟩

end RowPipeline.Unpivot
