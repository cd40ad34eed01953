import RowPipeline.Proofs.Documents
import RowPipeline.Proofs.QueryRuns
import RowPipeline.Proofs.Record

/-!
# The columns of a query

A query in memory gives every row the columns of its plan: the dimensions, or else the fields it groups
by, and then the metrics. The statement of the plan selects the dimensions and the metrics alone. The
two agree unless the plan groups by fields of its own that it does not select.
-/

namespace RowPipeline

/-! ## Names in order of first appearance -/

theorem foldl_addName_of_subset {names list : List String} (h : names ⊆ list) :
    names.foldl addName list = list := by
  induction names with
  | nil => rfl
  | cons name rest ih =>
      rw [List.foldl_cons, addName, if_pos (h List.mem_cons_self)]
      exact ih fun other hother => h (List.mem_cons_of_mem name hother)

theorem foldl_addName_of_nodup {names list : List String} (h : (list ++ names).Nodup) :
    names.foldl addName list = list ++ names := by
  induction names generalizing list with
  | nil => rw [List.foldl_nil, List.append_nil]
  | cons name rest ih =>
      have hnew : name ∉ list := fun hmem =>
        (List.nodup_append.mp h).2.2 name hmem name List.mem_cons_self rfl
      have hsplit : list ++ name :: rest = list ++ [name] ++ rest := by simp
      rw [List.foldl_cons, addName, if_neg hnew, ih (hsplit ▸ h), hsplit]

theorem prefix_foldl_addName (names list : List String) : list <+: names.foldl addName list := by
  induction names generalizing list with
  | nil => exact List.prefix_refl list
  | cons name rest ih =>
      refine List.IsPrefix.trans ?_ (ih (addName list name))
      rw [addName]
      split
      · exact List.prefix_refl list
      · exact List.prefix_append list [name]

/-- Names are entered with nothing added in front exactly if what is there leads them already. -/
theorem foldl_addName_eq_iff {names list : List String} (nodup : names.Nodup) :
    names.foldl addName list = names ↔ list <+: names := by
  constructor
  · intro h
    have hprefix := prefix_foldl_addName names list
    rwa [h] at hprefix
  · rintro ⟨rest, rfl⟩
    rw [List.foldl_append, foldl_addName_of_subset (List.Subset.refl list),
      foldl_addName_of_nodup nodup]

namespace Record

variable {α : Type}

theorem keys_insert (r : Record α) (name : String) (value : α) :
    (r.insert name value).keys = addName r.keys name := by
  rw [addName]
  split
  · rename_i hmem
    exact r.keys_insert_of_mem value hmem
  · rename_i hnew
    exact r.keys_insert_of_not_mem value hnew

theorem keys_foldl_insert {β : Type} (name : β → String) (value : β → α) (items : List β)
    (r : Record α) : (items.foldl (fun r item => r.insert (name item) (value item)) r).keys =
      (items.map name).foldl addName r.keys := by
  induction items generalizing r with
  | nil => rfl
  | cons item rest ih => rw [List.foldl_cons, ih, keys_insert, List.map_cons, List.foldl_cons]

/-- Entering values that may fail. -/
theorem keys_foldlM_insert {β ε : Type} {name : β → String} {value : β → Except ε α} {items : List β}
    {r r' : Record α}
    (h : items.foldlM (fun r item => do return r.insert (name item) (← value item)) r = .ok r') :
    r'.keys = (items.map name).foldl addName r.keys := by
  induction items generalizing r with
  | nil =>
      cases h
      rfl
  | cons item rest ih =>
      rw [List.foldlM_cons] at h
      obtain ⟨next, hnext, h⟩ := bind_eq_ok h
      obtain ⟨v, -, hnext⟩ := bind_eq_ok hnext
      cases hnext
      rw [ih h, keys_insert, List.map_cons, List.foldl_cons]

/-- Names that are not entered keep their values. -/
theorem get?_foldlM_insert_of_not_mem {β ε : Type} {name : β → String} {value : β → Except ε α}
    {items : List β} {r r' : Record α}
    (h : items.foldlM (fun r item => do return r.insert (name item) (← value item)) r = .ok r')
    {key : String} (hkey : key ∉ items.map name) : r'.get? key = r.get? key := by
  induction items generalizing r with
  | nil =>
      cases h
      rfl
  | cons item rest ih =>
      rw [List.map_cons, List.mem_cons, not_or] at hkey
      rw [List.foldlM_cons] at h
      obtain ⟨next, hnext, h⟩ := bind_eq_ok h
      obtain ⟨v, -, hnext⟩ := bind_eq_ok hnext
      cases hnext
      rw [ih h hkey.2, get?_insert_of_ne _ _ hkey.1]

theorem keys_insertAll (r : Record α) (pairs : List (String × α)) :
    (r.insertAll pairs).keys = (pairs.map Prod.fst).foldl addName r.keys :=
  keys_foldl_insert Prod.fst Prod.snd pairs r

theorem keys_ofList (pairs : List (String × α)) :
    (ofList pairs).keys = (pairs.map Prod.fst).foldl addName [] :=
  keys_insertAll empty pairs

end Record

namespace Query

variable {p : Plan}

namespace Plan

/-- The names of the columns in front of the metrics. -/
def keyNames (p : Plan) : List String :=
  if p.dimensions.isEmpty then p.groupBy else p.dimensions.map Dimension.outputName

/-- The columns of a row of the plan, in order. -/
def columns (p : Plan) : List String :=
  (p.keyNames ++ p.metrics.map Metric.label).foldl addName []

/-- The output names of the select list of a plan. -/
def selectedNames (p : Plan) : List String := p.toSelect.fields.map SelectField.outputName

theorem outputName_selectColumn (p : Plan) (field output : String) :
    (p.selectColumn field output).outputName = output := by
  rw [selectColumn]
  split
  · rename_i hsame
    exact hsame
  · rfl

theorem outputName_selectMetric (p : Plan) (m : Metric) :
    (p.selectMetric m).outputName = m.label := by
  cases m with
  | aggregate func field label => rfl
  | expression e label => rfl
  | column field label => exact p.outputName_selectColumn field label

theorem selectedNames_eq (p : Plan) :
    p.selectedNames = p.dimensions.map Dimension.outputName ++ p.metrics.map Metric.label := by
  simp only [selectedNames, toSelect, List.map_append, List.map_map, Function.comp_def,
    outputName_selectColumn, outputName_selectMetric]

theorem selectedNames_subset_columns (p : Plan) : p.selectedNames ⊆ p.columns := by
  intro name hname
  rw [selectedNames_eq, List.mem_append] at hname
  rw [columns, Document.mem_foldl_addName, List.mem_append]
  right
  rcases hname with hkey | hmetric
  · left
    rw [keyNames, if_neg fun hnone => List.not_mem_nil (List.isEmpty_iff.mp hnone ▸ hkey)]
    exact hkey
  · exact .inr hmetric

/-- The columns of the rows are those of the select list if there are dimensions, or if the metrics
start with the fields grouped by. -/
theorem columns_eq_selectedNames_iff (distinct : p.selectedNames.Nodup) :
    p.columns = p.selectedNames ↔
      p.dimensions ≠ [] ∨ p.groupBy.foldl addName [] <+: p.metrics.map Metric.label := by
  rw [selectedNames_eq] at distinct
  rw [selectedNames_eq, columns, keyNames]
  by_cases hdimensions : p.dimensions = []
  · rw [hdimensions] at distinct
    simp only [hdimensions, List.isEmpty_nil, if_true, List.map_nil, List.nil_append, ne_eq,
      not_true, false_or]
    rw [List.foldl_append]
    exact foldl_addName_eq_iff distinct
  · have hsome : p.dimensions.isEmpty = false := by
      rwa [List.isEmpty_eq_false_iff]
    have hall : ([] ++ (p.dimensions.map Dimension.outputName ++ p.metrics.map Metric.label)).Nodup :=
      distinct
    rw [hsome, if_neg Bool.false_ne_true, foldl_addName_of_nodup hall]
    exact iff_of_true rfl (.inl hdimensions)

end Plan

/-! ## Groups and projections -/

theorem groupRow_keys {params : Parameters} {group : List Row} {row : Row}
    (h : groupRow p params group = .ok row) : row.keys = p.columns := by
  rw [groupRow] at h
  rw [Record.keys_foldlM_insert h, Plan.columns, Plan.keyNames, List.foldl_append]
  congr 1
  split
  · rename_i hnone
    have hdimensions : p.dimensions = [] := List.isEmpty_iff.mp hnone
    rw [Record.keys_ofList, List.map_map, Plan.groupKey]
    split
    · rename_i hgroups
      rw [hdimensions, List.isEmpty_iff.mp hgroups]
      rfl
    · exact congrArg (List.foldl addName []) (List.map_id _)
  · rw [Record.keys_ofList, List.map_map]
    rfl

/-- A metric stands under its label, unless a later one has the same. -/
theorem get?_groupRow {params : Parameters} {group : List Row} {row : Row} {m : Metric}
    {before after : List Metric} (h : groupRow p params group = .ok row)
    (hm : p.metrics = before ++ m :: after) (last : m.label ∉ after.map Metric.label) :
    ∃ v, metricValue m group params = .ok v ∧ row.get? m.label = some v := by
  unfold groupRow at h
  rw [hm, List.foldlM_append] at h
  obtain ⟨earlier, -, h⟩ := bind_eq_ok h
  rw [List.foldlM_cons] at h
  obtain ⟨entered, hentered, h⟩ := bind_eq_ok h
  obtain ⟨v, hv, hentered⟩ := bind_eq_ok hentered
  cases hentered
  refine ⟨v, hv, ?_⟩
  rw [Record.get?_foldlM_insert_of_not_mem h last, Record.get?_insert_self]

theorem projectRow_keys (shown : p.dimensions ≠ [] ∨ p.metrics ≠ []) (plain : p.groupBy = [])
    (params : Parameters) (row : Row) : (projectRow p params row).keys = p.columns := by
  have hnames : p.keyNames = p.dimensions.map Dimension.outputName := by
    rw [Plan.keyNames]
    split
    · rename_i hnone
      rw [plain, List.isEmpty_iff.mp hnone, List.map_nil]
    · rfl
  have hshown : ¬ (p.dimensions.isEmpty && p.metrics.isEmpty) = true := by
    rw [Bool.and_eq_true, List.isEmpty_iff, List.isEmpty_iff]
    rintro ⟨hdimensions, hnone⟩
    rcases shown with h | h
    · exact h hdimensions
    · exact h hnone
  rw [projectRow, if_neg hshown, Record.keys_foldl_insert, Record.keys_ofList, List.map_map, Plan.columns, hnames,
    List.foldl_append]
  rfl

theorem shapeRows_keys (shown : p.dimensions ≠ [] ∨ p.metrics ≠ []) {params : Parameters}
    {rows : List Row} {shaped : PairedRows} {groups : Option (List (List Row))}
    (h : shapeRows p params rows = .ok (shaped, groups)) :
    ∀ row ∈ shaped.map Prod.fst, row.keys = p.columns := by
  intro row hrow
  rw [shapeRows] at h
  split at h
  · obtain ⟨⟨output, members⟩, hgroups, h⟩ := bind_eq_ok h
    cases h
    rw [groupRows] at hgroups
    obtain ⟨_, -, hgroups⟩ := bind_eq_ok hgroups
    obtain ⟨output', houtput, hgroups⟩ := bind_eq_ok hgroups
    cases hgroups
    simp only [List.map_map, Function.comp_def, List.map_id'] at hrow
    obtain ⟨group, -, hgroup⟩ := mem_of_mapM houtput hrow
    exact groupRow_keys hgroup
  · rename_i hplain
    have hplain : p.groupBy = [] := by
      rw [Plan.isGrouped, Bool.or_eq_true, not_or] at hplain
      simpa using hplain.1
    cases h
    simp only [List.map_map, Function.comp_def] at hrow
    obtain ⟨source, -, rfl⟩ := List.mem_map.mp hrow
    exact projectRow_keys shown hplain params source

/-! ## The result -/

/-- Every row of a query in memory has the columns of the plan, in order; and these are the output
names of the select list unless the plan groups by fields of its own that it does not select first. -/
theorem memory_columns_selected {c : StepContext} {policy : ExpressionFailure} {output : StepOutput}
    (shown : p.dimensions ≠ [] ∨ p.metrics ≠ []) (calculated : p.calculated = [])
    (distinct : p.selectedNames.Nodup) (run : runInMemory p c policy = .ok output) :
    ∀ row ∈ output.rows, row.keys = p.columns ∧
      (row.keys = p.selectedNames ↔
        p.dimensions ≠ [] ∨ p.groupBy.foldl addName [] <+: p.metrics.map Metric.label) := by
  rw [runInMemory_eq, calculated] at run
  obtain ⟨source, -, run⟩ := bind_eq_ok run
  obtain ⟨joined, -, run⟩ := bind_eq_ok run
  obtain ⟨⟨shaped, groups⟩, hshaped, run⟩ := bind_eq_ok run
  cases run
  intro row hrow
  have hkeys : row.keys = p.columns :=
    shapeRows_keys shown hshaped row (p.mem_of_mem_arranged (mem_of_mem_paged hrow))
  refine ⟨hkeys, ?_⟩
  rw [hkeys]
  exact Plan.columns_eq_selectedNames_iff distinct

/-- The number of sales by region, the region as a dimension or only grouped by. -/
def regionCounts (dimensions : List Dimension) (groupBy : List String) : Plan where
  source := "sales"
  dimensions
  metrics := [.aggregate .count none "n"]
  filter := none
  joins := []
  groupBy
  having := none
  calculated := []
  orderBy := []
  limit := none
  offset := none
  distinct := false

def saleRegions : List Row :=
  ["EU", "US", "EU"].map fun region => .ofList [("region", .string region)]

def areaCounts : List Row :=
  [("EU", 2), ("US", 1)].map fun r => .ofList [("area", .string r.1), ("n", .int r.2)]

theorem memory_columns_selected_regions :
    let p := regionCounts [⟨"region", some "area"⟩] []
    runInMemory p (salesContext saleRegions) .null = .ok { rows := areaCounts } ∧
      ∀ row ∈ areaCounts, row.keys = ["area", "n"] ∧ row.keys = p.selectedNames := by
  intro p
  have hdimensions : p.dimensions ≠ [] := List.cons_ne_nil _ _
  have hrun : runInMemory p (salesContext saleRegions) .null = .ok { rows := areaCounts } := rfl
  refine ⟨hrun, fun row hrow => ?_⟩
  obtain ⟨hcolumns, hselected⟩ :=
    memory_columns_selected (.inl hdimensions) rfl (by decide) hrun row hrow
  exact ⟨hcolumns, hselected.mpr (.inl hdimensions)⟩

def groupedCounts : Json :=
  .object [("data_source", .string "sales"), ("group_by", .array [.string "region"]),
    ("metrics", .array [.object [("name", .string "n"), ("aggregation", .string "count")]])]

/-- A field that is only grouped by is a column of the rows in memory and not of the statement. -/
theorem grouped_column_not_selected :
    ∃ config plan output, Config.ofJson groupedCounts = .ok config ∧ Plan.ofConfig config = .ok plan ∧
      plan.joins = [] ∧ plan.calculated = [] ∧ plan.metrics ≠ [] ∧ plan.selectedNames.Nodup ∧
      runInMemory plan (salesContext saleRegions) .null = .ok output ∧
      output.rows.map Record.keys = [["region", "n"], ["region", "n"]] ∧
      plan.selectedNames = ["n"] := by
  refine ⟨_, regionCounts [] ["region"], _, rfl, rfl, rfl, rfl, ?_, ?_, rfl, rfl, rfl⟩
  · simp [regionCounts]
  · decide

end Query

end RowPipeline
