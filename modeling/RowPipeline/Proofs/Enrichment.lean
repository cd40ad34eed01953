import RowPipeline.Proofs.JoinedColumns
import RowPipeline.Step.Enrich

/-!
# Enrichment

An enrich step joins the rows of a source with those of a lookup. The lookup columns go under names that are
new, whatever the columns of both sides are called, so no row loses a value of its source row.
-/

namespace RowPipeline.Enrich

open Query

/-! ## New names -/

/-- One of the numbered forms is free, since there are more of them than names taken. -/
theorem numbered_not_mem (name : String) (taken : List String) : numbered name taken ∉ taken := by
  let form := fun n : Nat => name ++ "_" ++ toString (n + 1)
  have hform : Function.Injective form := by
    intro n m h
    have hlists := congrArg String.toList h
    simp only [form, String.toList_append, List.append_cancel_left_eq, String.toList_inj] at hlists
    exact Nat.succ.inj (Json.toString_injective hlists)
  have hfree : ∃ candidate ∈ (List.range (taken.length + 1)).map form, candidate ∉ taken := by
    by_contra hnone
    push Not at hnone
    have hlength := (List.nodup_range.map hform).length_le_of_subset hnone
    rw [List.length_map, List.length_range] at hlength
    exact Nat.not_succ_le_self _ hlength
  have hsome : (((List.range (taken.length + 1)).map form).find?
      fun candidate => candidate ∉ taken).isSome = true := by
    rw [List.find?_isSome]
    obtain ⟨candidate, hmem, hfree⟩ := hfree
    exact ⟨candidate, hmem, decide_eq_true hfree⟩
  obtain ⟨candidate, hfound⟩ := Option.isSome_iff_exists.mp hsome
  have hnumbered : numbered name taken = candidate := congrArg (·.getD name) hfound
  rw [hnumbered]
  have hpasses := List.find?_some hfound
  exact of_decide_eq_true hpasses

theorem columns_renames (taken columns : List String) :
    (renames taken columns).map Prod.fst = columns := by
  induction columns generalizing taken with
  | nil => rfl
  | cons column rest ih => exact congrArg (column :: ·) (ih _)

/-- Each column gets a name that is neither taken nor that of a column before it. -/
theorem nodup_renames {taken : List String} (columns : List String) (nodup : taken.Nodup) :
    (taken ++ (renames taken columns).map Prod.snd).Nodup := by
  induction columns generalizing taken with
  | nil => simpa [renames] using nodup
  | cons column rest ih =>
      -- what the names so far and the new one are, the next columns find taken
      have hnew : ∃ output, output ∉ taken ∧
          renames taken (column :: rest) = (column, output) :: renames (taken ++ [output]) rest := by
        by_cases hcolumn : column ∈ taken
        · refine ⟨numbered column taken, numbered_not_mem column taken, ?_⟩
          simp only [renames, hcolumn, if_true]
        · refine ⟨column, hcolumn, ?_⟩
          simp only [renames, hcolumn, if_false]
      obtain ⟨output, hfree, hnames⟩ := hnew
      have hnext : (taken ++ [output]).Nodup := by
        rw [List.nodup_append]
        refine ⟨nodup, List.nodup_singleton _, ?_⟩
        rintro name hname other hother rfl
        exact hfree (List.mem_singleton.mp hother ▸ hname)
      rw [hnames, List.map_cons, ← List.singleton_append, ← List.append_assoc]
      exact ih hnext

/-! ## Rows -/

/-- The type of join that keeps the same sides. -/
def How.joinType : How → JoinType
  | .left => .left
  | .right => .right
  | .inner => .inner
  | .outer => .full

namespace Config

/-- The join that an enrich step carries out. Nothing is qualified by the name of its table. -/
def clause (config : Config) : JoinClause := ⟨config.how.joinType, "", none, config.on⟩

/-- The keys with one name for both sides. -/
def sharedKeys (config : Config) : List String :=
  (config.on.filter fun on => on.left = on.right).map (·.left)

/-- The result rows that are made of rows of both sides, or of one alone. -/
def rowsFrom (config : Config) (columns : List String) (names : List (String × String)) :
    JoinOrigin → List Row
  | .both l r => [withLookup names (project columns l) fun column => (r.get? column).getD .null]
  | .leftAlone l =>
      match config.onMissing with
      | .keep => [withLookup names (project columns l) fun _ => .null]
      | .fill => [withLookup names (project columns l) fun _ => config.fillValue]
      | .drop => []
  | .rightAlone r => [lookupOnlyRow config names columns r]

variable {config : Config}

theorem keepsLeft_eq (config : Config) :
    config.how.keepsLeft = (config.clause.type = .left || config.clause.type = .full) := by
  unfold clause
  cases config.how <;> rfl

theorem keepsRight_eq (config : Config) :
    config.how.keepsRight = (config.clause.type = .right || config.clause.type = .full) := by
  unfold clause
  cases config.how <;> rfl

/-- The result rows of a source row are those of the origins that a join has for it. -/
theorem rowsOf_eq (columns : List String) (names : List (String × String)) (right : List Row)
    (l : Row) :
    rowsOf config names (project columns l) (right.filter (config.clause.matchesRows l)) =
      (originsOf right config.clause l).flatMap (config.rowsFrom columns names) := by
  unfold rowsOf originsOf
  dsimp only
  split
  · rw [config.keepsLeft_eq]
    split
    · rw [List.flatMap_singleton]
      rfl
    · rfl
  · rw [List.flatMap_map]
    exact List.map_eq_flatMap

/-- The result rows of the lookup rows without a partner. -/
theorem lone_eq (columns : List String) (names : List (String × String)) (left right : List Row) :
    (if config.how.keepsRight then
        (right.filter fun r => !left.any fun l => config.clause.matchesRows l r).map
          (lookupOnlyRow config names columns)
      else []) =
      (loneOrigins left right config.clause).flatMap (config.rowsFrom columns names) := by
  unfold loneOrigins
  rw [config.keepsRight_eq]
  split
  · rw [List.flatMap_map]
    exact List.map_eq_flatMap
  · rfl

/-- The rows of both sides that are put together, and those that stay alone. -/
theorem mem_origins {left right : List Row} (o : JoinOrigin) :
    o ∈ joinOrigins left right config.clause ↔
      match o with
      | .both l r => l ∈ left ∧ r ∈ right ∧ config.clause.matchesRows l r = true
      | .leftAlone l => l ∈ left ∧ (∀ r ∈ right, config.clause.matchesRows l r = false) ∧
          (config.how = .left ∨ config.how = .outer)
      | .rightAlone r => r ∈ right ∧ (∀ l ∈ left, config.clause.matchesRows l r = false) ∧
          (config.how = .right ∨ config.how = .outer) := by
  have hleft : config.clause.type = .left ∨ config.clause.type = .full ↔
      config.how = .left ∨ config.how = .outer := by
    unfold clause
    cases config.how <;> simp [How.joinType]
  have hright : config.clause.type = .right ∨ config.clause.type = .full ↔
      config.how = .right ∨ config.how = .outer := by
    unfold clause
    cases config.how <;> simp [How.joinType]
  rw [mem_joinOrigins]
  cases o with
  | both l r => exact Iff.rfl
  | leftAlone l => simp only [hleft]
  | rightAlone r => simp only [hright]

end Config

/-- An enrich step carries out its join and counts the source rows that match. -/
theorem join_eq {config : Config} {left right : List Row} {joined : Joined}
    (h : join config left right = .ok joined) :
    joined.rows = (joinOrigins left right config.clause).flatMap
        (config.rowsFrom (columnNames left)
          (renames (columnNames left) (lookupColumns config right))) ∧
      joined.matched = (left.filter fun l => right.any (config.clause.matchesRows l)).length := by
  have hmatches : ∀ l, matchesIn (indexByKey (config.on.map (·.right)) right)
      (joinKey? (config.on.map (·.left)) l) =
        (right.mapIdx Prod.mk).filter fun p => config.clause.matchesRows l p.2 :=
    fun l => config.clause.matchesIn_eq_filter l right
  have hany : ∀ l, (!((right.mapIdx Prod.mk).filter fun p =>
      config.clause.matchesRows l p.2).isEmpty) = right.any (config.clause.matchesRows l) := by
    intro l
    rw [← List.isEmpty_map (f := Prod.snd), filter_places, Bool.eq_iff_iff]
    simp
  unfold join at h
  dsimp only at h
  split at h
  · cases h
  obtain ⟨-, -, h⟩ := bind_eq_ok h
  obtain ⟨-, -, h⟩ := bind_eq_ok h
  obtain rfl := Except.ok.inj h
  dsimp only
  simp only [hmatches]
  constructor
  · rw [joinOrigins, List.flatMap_append, ← Config.lone_eq, ← filter_unused, List.map_map,
      List.flatMap_map, List.flatMap_map, List.flatMap_assoc]
    refine congrArg₂ _ (List.flatMap_congr fun l _ => ?_) rfl
    rw [filter_places]
    exact Config.rowsOf_eq _ _ right l
  · rw [List.filter_map, List.length_map]
    simp only [Function.comp_def, hany]

/-! ## Columns -/

section Columns

variable {config : Config} {columns : List String} {names : List (String × String)}
  {value : String → Value} {base l r row : Row} {c : String} {n : String × String}

/-- A lookup column is found under its name. -/
theorem get?_withLookup_of_mem (distinct : (names.map Prod.snd).Nodup) (hn : n ∈ names) :
    (withLookup names base value).get? n.2 = some (value n.1) := by
  refine Record.get?_insertAll_of_mem base ?_ (List.mem_map.mpr ⟨n, hn, rfl⟩)
  rw [List.map_map]
  exact distinct

theorem get?_withLookup_of_not_mem (hc : c ∉ names.map Prod.snd) :
    (withLookup names base value).get? c = base.get? c := by
  refine Record.get?_insertAll_of_not_mem base ?_
  rw [List.map_map]
  exact hc

theorem get?_project (hc : c ∈ columns) :
    (project columns l).get? c = some ((l.get? c).getD .null) := by
  have himage : (columns.map fun c => (c, (l.get? c).getD .null)) =
      columns.filterMap fun c => (some ((l.get? c).getD .null)).map fun v => (c, v) := by
    rw [← List.filterMap_eq_map]
    rfl
  rw [project, himage, Record.get?_ofList_image fun c => some ((l.get? c).getD .null), if_pos hc]

theorem keys_project (nodup : columns.Nodup) : (project columns l).keys = columns := by
  have hcolumns : (columns.map fun c => (c, (l.get? c).getD .null)).map Prod.fst = columns := by
    rw [List.map_map]
    exact List.map_id columns
  rw [project, Record.keys_ofList_of_nodup _ (hcolumns.symm ▸ nodup), hcolumns]

/-- A source row has its own columns first and then the lookup columns. -/
theorem keys_withLookup (fresh : (columns ++ names.map Prod.snd).Nodup) :
    (withLookup names (project columns l) value).keys = columns ++ names.map Prod.snd := by
  have hnames : (names.map fun n => (n.2, value n.1)).map Prod.fst = names.map Prod.snd := by
    rw [List.map_map]
    rfl
  have hkeys := keys_project (l := l) (List.nodup_append.mp fresh).1
  rw [withLookup, Record.keys, Record.entries_insertAll_of_nodup _ _ (by rwa [hkeys, hnames]),
    List.map_append, hnames]
  exact congrArg (· ++ _) hkeys

/-- No lookup column goes under the name of a source column. -/
theorem column_not_renamed (fresh : (columns ++ names.map Prod.snd).Nodup) (hc : c ∈ columns) :
    c ∉ names.map Prod.snd :=
  fun hmem => (List.nodup_append.mp fresh).2.2 c hc c hmem rfl

/-- What a result row of a source row holds of it. -/
theorem holds_source (l : Row) (value : String → Value)
    (fresh : (columns ++ names.map Prod.snd).Nodup) :
    (withLookup names (project columns l) value).keys = columns ++ names.map Prod.snd ∧
      ∀ c ∈ columns,
        (withLookup names (project columns l) value).get? c = some ((l.get? c).getD .null) :=
  ⟨keys_withLookup fresh, fun _ hc => by
    rw [get?_withLookup_of_not_mem (column_not_renamed fresh hc), get?_project hc]⟩

/-- What the row of a lookup row alone holds in the source columns. -/
theorem get?_lookupOnlyRow (fresh : (columns ++ names.map Prod.snd).Nodup) (hc : c ∈ columns) :
    (lookupOnlyRow config names columns r).get? c =
      some (if c ∈ config.sharedKeys then r.lookupD c else .null) := by
  have hkeys : ((config.on.filter fun on => on.left = on.right).map fun on =>
      (on.left, r.lookupD on.right)) =
        config.sharedKeys.filterMap fun name => (some (r.lookupD name)).map fun v => (name, v) := by
    rw [Config.sharedKeys, List.filterMap_map, ← List.filterMap_eq_map]
    refine List.filterMap_congr fun on hon => ?_
    have hsame : on.left = on.right := of_decide_eq_true (List.mem_filter.mp hon).2
    simp [hsame]
  have hnulls : (Record.ofList (columns.map fun c => (c, Value.null))).get? c = some .null := by
    have hget := get?_nullRow columns c
    rwa [if_pos hc] at hget
  rw [lookupOnlyRow, get?_withLookup_of_not_mem (column_not_renamed fresh hc), hkeys,
    Record.get?_insertAll_image fun name => some (r.lookupD name), hnulls]
  split <;> rfl

end Columns

/-! ## Enriched rows -/

variable {config : Config} {left right : List Row} {joined : Joined}

/-- An enrich step is a nested loop over both sides, which counts the source rows that match. Rows match if
their keys are not null and have the same canonical key, one by one. For keys without doubles that is
equality; for doubles it is not, as an integral double has the key of its integer and what is not finite
that of null. The lookup columns go under names of their own, so each row of a source row holds its values
and those of the lookup row, or what stands for a lookup row that is missing. -/
theorem join_lossless (h : join config left right = .ok joined) :
    let columns := columnNames left
    let names := renames columns (lookupColumns config right)
    let origins := joinOrigins left right config.clause
    joined.rows = origins.flatMap (config.rowsFrom columns names) ∧
      (∀ o, o ∈ origins ↔
        match o with
        | .both l r => l ∈ left ∧ r ∈ right ∧ config.clause.matchesRows l r = true
        | .leftAlone l => l ∈ left ∧ (∀ r ∈ right, config.clause.matchesRows l r = false) ∧
            (config.how = .left ∨ config.how = .outer)
        | .rightAlone r => r ∈ right ∧ (∀ l ∈ left, config.clause.matchesRows l r = false) ∧
            (config.how = .right ∨ config.how = .outer)) ∧
      joined.matched = (left.filter fun l => right.any (config.clause.matchesRows l)).length ∧
      names.map Prod.fst = lookupColumns config right ∧
      (columns ++ names.map Prod.snd).Nodup ∧
      (∀ l r, ∃ row, config.rowsFrom columns names (.both l r) = [row] ∧
        row.keys = columns ++ names.map Prod.snd ∧
        (∀ c ∈ columns, row.get? c = some ((l.get? c).getD .null)) ∧
        ∀ n ∈ names, row.get? n.2 = some ((r.get? n.1).getD .null)) ∧
      (∀ l, (config.onMissing = .drop → config.rowsFrom columns names (.leftAlone l) = []) ∧
        (config.onMissing ≠ .drop →
          ∃ row, config.rowsFrom columns names (.leftAlone l) = [row] ∧
            row.keys = columns ++ names.map Prod.snd ∧
            (∀ c ∈ columns, row.get? c = some ((l.get? c).getD .null)) ∧
            ∀ n ∈ names, row.get? n.2 =
              some (if config.onMissing = .fill then config.fillValue else .null))) ∧
      (∀ r, ∃ row, config.rowsFrom columns names (.rightAlone r) = [row] ∧
        (∀ c ∈ columns,
          row.get? c = some (if c ∈ config.sharedKeys then r.lookupD c else .null)) ∧
        ∀ n ∈ names, row.get? n.2 = some ((r.get? n.1).getD .null)) ∧
      ∀ l r, (∀ on ∈ config.on, (l.lookupD on.left).Exact) →
        (∀ on ∈ config.on, (r.lookupD on.right).Exact) →
          (config.clause.matchesRows l r = true ↔ ∀ on ∈ config.on,
            (l.lookupD on.left).isNull = false ∧ l.lookupD on.left = r.lookupD on.right) := by
  intro columns names origins
  have hcolumns : columns.Nodup := nodup_columnNames left
  have hfresh : (columns ++ names.map Prod.snd).Nodup := nodup_renames _ hcolumns
  have hdistinct : (names.map Prod.snd).Nodup := (List.nodup_append.mp hfresh).2.1
  obtain ⟨hrows, hmatched⟩ := join_eq h
  refine ⟨hrows, Config.mem_origins, hmatched, columns_renames _ _, hfresh, ?_, ?_, ?_, ?_⟩
  · intro l r
    obtain ⟨hkeys, hsource⟩ := holds_source l
      (fun column => (r.get? column).getD .null) hfresh
    exact ⟨_, rfl, hkeys, hsource, fun n hn => get?_withLookup_of_mem hdistinct hn⟩
  · intro l
    refine ⟨fun hdrop => by rw [Config.rowsFrom, hdrop], fun hkept => ?_⟩
    obtain ⟨hkeys, hsource⟩ := holds_source l
      (fun _ => if config.onMissing = .fill then config.fillValue else .null) hfresh
    refine ⟨_, ?_, hkeys, hsource, fun n hn => get?_withLookup_of_mem hdistinct hn⟩
    cases hmissing : config.onMissing with
    | keep => simp [Config.rowsFrom, hmissing]
    | fill => simp [Config.rowsFrom, hmissing]
    | drop => exact absurd hmissing hkept
  · intro r
    exact ⟨_, rfl, fun c hc => get?_lookupOnlyRow hfresh hc,
      fun n hn => get?_withLookup_of_mem hdistinct hn⟩
  · intro l r hl hr
    exact JoinClause.matchesRows_iff_of_exact (j := config.clause) hl hr

/-- All orders and customers, the customer told by the number in the order. -/
def customersOfOrders : Config where
  source := "orders"
  lookup := .step "customers"
  on := [⟨"customer", "id"⟩]
  how := .outer
  lookupFields := none
  onMissing := .fill
  fillValue := .string "unknown"

theorem join_lossless_orders :
    ∃ joined first second third, join customersOfOrders orders customers = .ok joined ∧
      joined.rows = [first, second, third] ∧ joined.matched = 1 ∧
      first.keys = ["id", "customer", "id_1", "name"] ∧
      first.get? "id" = some (.int 1) ∧ first.get? "id_1" = some (.int 7) ∧
      second.get? "id" = some (.int 2) ∧ second.get? "name" = some (.string "unknown") ∧
      third.get? "id" = some .null ∧ third.get? "name" = some (.string "Cid") := by
  have hjoin : ∃ joined, join customersOfOrders orders customers = .ok joined := ⟨_, rfl⟩
  obtain ⟨joined, hjoin⟩ := hjoin
  obtain ⟨hrows, -, hmatched, -, -, hboth, hleft, hright, -⟩ := join_lossless hjoin
  have hlone : customers[1] ∈ customers := List.getElem_mem _
  obtain ⟨first, hfirst, hkeys, hown, hlookup⟩ := hboth order customer
  obtain ⟨second, hsecond, -, hown', hfilled⟩ := (hleft plainOrder).2 nofun
  obtain ⟨third, hthird, hnull, hlookup'⟩ := hright customers[1]
  refine ⟨joined, first, second, third, hjoin, ?_, hmatched, hkeys, ?_, ?_, ?_, ?_, ?_, ?_⟩
  · have horigins : joinOrigins orders customers customersOfOrders.clause =
        [.both order customer, .leftAlone plainOrder, .rightAlone customers[1]] := rfl
    rw [hrows, horigins, List.flatMap_cons, List.flatMap_cons, List.flatMap_singleton, hfirst, hsecond,
      hthird]
    rfl
  · exact hown "id" (by decide)
  · exact hlookup ("id", "id_1") (by decide)
  · exact hown' "id" (by decide)
  · exact hfilled ("name", "name") (by decide)
  · exact hnull "id" (by decide)
  · exact hlookup' ("name", "name") (by decide)

end RowPipeline.Enrich
