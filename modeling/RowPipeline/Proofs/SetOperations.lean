import RowPipeline.Proofs.Identification
import RowPipeline.Proofs.JoinedColumns

/-!
# Set operations on rows

Row sets are brought to common columns before they are combined, so rows without doubles share an identity
exactly if they are one and the same. What is decided by identities is then what the set operations say
about the rows: which are repeated, and which are in all other sets or in none.

An object in a row is the same only as one with the same fields in the same order. The order of fields does
not count for the equality of the expression language, `Value.looseEq`, so rows that differ in it alone
are two rows here.
-/

namespace RowPipeline

namespace Record

variable {α : Type}

/-- Records with the same names in the same order that answer alike are the same. -/
theorem eq_of_keys {r s : Record α} (names : r.keys = s.keys) (values : ∀ c, r.get? c = s.get? c) :
    r = s := by
  have hentries : ∀ r : Record α, r.entries.map (fun p => (p.1, some p.2)) =
      r.keys.map fun c => (c, r.get? c) := by
    intro r
    rw [keys, List.map_map]
    refine List.map_congr_left fun p hp => ?_
    exact Prod.ext rfl (Assoc.get?_of_mem r.nodup hp).symm
  have hsame : r.entries.map (fun p => (p.1, some p.2)) = s.entries.map fun p => (p.1, some p.2) := by
    rw [hentries, hentries, names]
    exact List.map_congr_left fun c _ => Prod.ext rfl (values c)
  have hinjective : Function.Injective fun p : String × α => (p.1, some p.2) := by
    intro p q hpq
    exact Prod.ext (Prod.mk.inj hpq).1 (Option.some.inj (Prod.mk.inj hpq).2)
  cases r
  cases s
  congr
  exact hinjective.list_map hsame

end Record

/-- Rows without doubles that have the same columns in the same order are told by their identities. -/
theorem Row.identity_inj {r s : Row} (hr : r.Exact) (hs : s.Exact) (names : r.keys = s.keys) :
    r.identity = s.identity ↔ r = s := by
  rw [identity_eq_iff_get? hr hs]
  constructor
  · exact Record.eq_of_keys names
  · rintro rfl
    exact fun _ => rfl

namespace Union

/-! ## Alignment -/

section Align

variable {columns : List String} (nodup : columns.Nodup) (row : Row)

include nodup

theorem entries_align : (align columns row).entries =
    columns.map fun c => (c, (row.get? c).getD .null) := by
  refine Record.entries_ofList_of_nodup _ ?_
  rw [List.map_map]
  simpa [Function.comp_def] using nodup

theorem keys_align : (align columns row).keys = columns := by
  rw [Record.keys, entries_align nodup, List.map_map]
  exact List.map_id columns

theorem get?_align {c : String} (hc : c ∈ columns) :
    (align columns row).get? c = some ((row.get? c).getD .null) := by
  refine Assoc.get?_of_mem (align columns row).nodup ?_
  rw [entries_align nodup]
  exact List.mem_map_of_mem hc

variable {row}

/-- Nulls are no doubles. -/
theorem exact_align (exact : row.Exact) : (align columns row).Exact := by
  refine Row.Exact.of_values fun v hv => ?_
  rw [Record.values, entries_align nodup, List.map_map] at hv
  obtain ⟨c, -, rfl⟩ := List.mem_map.mp hv
  show ((row.get? c).getD .null).Exact
  cases hget : row.get? c with
  | none => trivial
  | some w => exact exact c w hget

end Align

theorem nodup_commonColumns (sets : List (List Row)) : (commonColumns sets).Nodup :=
  Query.nodup_columnNames _

/-- The common columns are those of all rows. -/
theorem mem_commonColumns {sets : List (List Row)} {c : String} :
    c ∈ commonColumns sets ↔ ∃ set ∈ sets, ∃ row ∈ set, c ∈ row.keys := by
  unfold commonColumns
  rw [Query.mem_columnNames]
  constructor
  · rintro ⟨row, hrow, hc⟩
    obtain ⟨set, hset, hrow⟩ := List.mem_flatten.mp hrow
    exact ⟨set, hset, row, hrow, hc⟩
  · rintro ⟨set, hset, row, hrow, hc⟩
    exact ⟨row, List.mem_flatten.mpr ⟨set, hset, hrow⟩, hc⟩

/-! ## Aligned rows -/

/-- Rows without doubles that all have the same columns. -/
structure Aligned (columns : List String) (rows : List Row) : Prop where
  columns : ∀ row ∈ rows, row.keys = columns
  exact : ∀ row ∈ rows, row.Exact

namespace Aligned

variable {columns : List String} {rows others : List Row}

theorem sublist (h : Aligned columns rows) (hsub : others.Sublist rows) : Aligned columns others :=
  ⟨fun row hrow => h.columns row (hsub.subset hrow), fun row hrow => h.exact row (hsub.subset hrow)⟩

theorem flatten {sets : List (List Row)} (h : ∀ set ∈ sets, Aligned columns set) :
    Aligned columns sets.flatten := by
  constructor
  · intro row hrow
    obtain ⟨set, hset, hrow⟩ := List.mem_flatten.mp hrow
    exact (h set hset).columns row hrow
  · intro row hrow
    obtain ⟨set, hset, hrow⟩ := List.mem_flatten.mp hrow
    exact (h set hset).exact row hrow

theorem identity_inj (h : Aligned columns rows) (h' : Aligned columns others) {r s : Row} (hr : r ∈ rows)
    (hs : s ∈ others) : r.identity = s.identity ↔ r = s :=
  Row.identity_inj (h.exact r hr) (h'.exact s hs) ((h.columns r hr).trans (h'.columns s hs).symm)

/-- A row is in a set if its identity is one of the set's. -/
theorem mem_identities (h : Aligned columns rows) (h' : Aligned columns others) {r : Row}
    (hr : r ∈ rows) : r.identity ∈ identities others ↔ r ∈ others := by
  unfold identities
  rw [List.mem_map]
  constructor
  · rintro ⟨s, hs, heq⟩
    rwa [(h.identity_inj h' hr hs).mp heq.symm]
  · intro hmem
    exact ⟨r, hmem, rfl⟩

/-- What is left is each row once, at its first place. -/
theorem distinctRows_eq (h : Aligned columns rows) : distinctRows rows = rows.eraseDups := by
  unfold distinctRows List.eraseDups
  refine distinctByKey_eq_eraseDupsBy fun r hr s hs => ?_
  rw [h.identity_inj h hr hs, beq_iff_eq]

end Aligned

/-! ## Combinations -/

variable {columns : List String} {first : List Row} {others : List (List Row)}

theorem combineAligned_intersect (hfirst : Aligned columns first)
    (hothers : ∀ set ∈ others, Aligned columns set) :
    combineAligned .intersect first others =
      (first.filter fun row => ∀ set ∈ others, row ∈ set).eraseDups := by
  have hfilter : (first.filter fun row => (others.map identities).all fun ids => row.identity ∈ ids) =
      first.filter fun row => ∀ set ∈ others, row ∈ set := by
    refine List.filter_congr fun row hrow => ?_
    rw [Bool.eq_iff_iff, List.all_eq_true, decide_eq_true_iff, List.forall_mem_map]
    refine forall₂_congr fun set hset => ?_
    rw [decide_eq_true_iff, hfirst.mem_identities (hothers set hset) hrow]
  unfold combineAligned
  dsimp only
  rw [hfilter, (hfirst.sublist List.filter_sublist).distinctRows_eq]

theorem combineAligned_except (hfirst : Aligned columns first)
    (hothers : ∀ set ∈ others, Aligned columns set) :
    combineAligned .except first others =
      (first.filter fun row => ∀ set ∈ others, row ∉ set).eraseDups := by
  have hfilter : (first.filter fun row => row.identity ∉ identities others.flatten) =
      first.filter fun row => ∀ set ∈ others, row ∉ set := by
    refine List.filter_congr fun row hrow => ?_
    rw [decide_eq_decide, hfirst.mem_identities (Aligned.flatten hothers) hrow, List.mem_flatten]
    push Not
    rfl
  unfold combineAligned
  dsimp only
  rw [hfilter, (hfirst.sublist List.filter_sublist).distinctRows_eq]

/-- A combination has rows of the sets only. -/
theorem mem_of_mem_combineAligned {mode : Mode} {row : Row} (h : row ∈ combineAligned mode first others) :
    row ∈ (first :: others).flatten := by
  rw [List.flatten_cons]
  cases mode with
  | unionAll => exact h
  | union => exact mem_of_mem_distinctByKey h
  | intersect =>
      have hrow := (List.mem_filter.mp (mem_of_mem_distinctByKey h)).1
      exact List.mem_append_left _ hrow
  | except =>
      have hrow := (List.mem_filter.mp (mem_of_mem_distinctByKey h)).1
      exact List.mem_append_left _ hrow

/-- Row sets without doubles are combined as their mode says, once each row has all columns, with null where
it had none: all rows one set after the other, each different row once at its first place, and of these
the ones of the first set that are in every other set, or in no other. All rows have the same columns. Rows
differ if objects in them differ in the order of their fields. -/
theorem combine_set_operations (first : List Row) (others : List (List Row))
    (exact : ∀ set ∈ first :: others, ∀ row ∈ set, row.Exact) :
    let columns := commonColumns (first :: others)
    let aligned := List.map (align columns)
    (∀ c, c ∈ columns ↔ ∃ set ∈ first :: others, ∃ row ∈ set, c ∈ row.keys) ∧
      (∀ row, (align columns row).keys = columns ∧
        ∀ c ∈ columns, (align columns row).get? c = some ((row.get? c).getD .null)) ∧
      combine .unionAll (first :: others) = ((first :: others).map aligned).flatten ∧
      combine .union (first :: others) = ((first :: others).map aligned).flatten.eraseDups ∧
      combine .intersect (first :: others) =
        ((aligned first).filter fun row => ∀ set ∈ others, row ∈ aligned set).eraseDups ∧
      combine .except (first :: others) =
        ((aligned first).filter fun row => ∀ set ∈ others, row ∉ aligned set).eraseDups ∧
      ∀ mode, ∀ row ∈ combine mode (first :: others), row.keys = columns := by
  intro columns aligned
  have nodup : columns.Nodup := nodup_commonColumns _
  have hsets : ∀ set ∈ first :: others, Aligned columns (aligned set) := by
    intro set hset
    constructor
    · intro row hrow
      obtain ⟨origin, -, rfl⟩ := List.mem_map.mp hrow
      exact keys_align nodup origin
    · intro row hrow
      obtain ⟨origin, horigin, rfl⟩ := List.mem_map.mp hrow
      exact exact_align nodup (exact set hset origin horigin)
  have hfirst := hsets first List.mem_cons_self
  have hothers : ∀ set ∈ others.map aligned, Aligned columns set :=
    List.forall_mem_map.mpr fun set hset => hsets set (List.mem_cons_of_mem _ hset)
  have hall : Aligned columns ((first :: others).map aligned).flatten :=
    Aligned.flatten (List.forall_mem_map.mpr hsets)
  have hcombine : ∀ mode, combine mode (first :: others) =
      combineAligned mode (aligned first) (others.map aligned) := fun _ => rfl
  refine ⟨fun c => mem_commonColumns, fun row => ⟨keys_align nodup row, fun c => get?_align nodup row⟩,
    rfl, ?_, ?_, ?_, ?_⟩
  · rw [hcombine]
    exact hall.distinctRows_eq
  · rw [hcombine, combineAligned_intersect hfirst hothers]
    simp only [List.forall_mem_map]
  · rw [hcombine, combineAligned_except hfirst hothers]
    simp only [List.forall_mem_map]
  · intro mode row hrow
    rw [hcombine] at hrow
    exact hall.columns row (mem_of_mem_combineAligned hrow)

def itemRow (id : Int64) (note : Value) : Row := Record.ofList [("id", .int id), ("note", note)]

/-- Items, of which the second comes again with its columns in the other order. -/
def items : List Row :=
  [itemRow 1 (.string "a"), Record.ofList [("id", .int 2)], itemRow 1 (.string "a"),
    Record.ofList [("note", .null), ("id", .int 2)]]

def otherItems : List Row := [Record.ofList [("id", .int 2)], itemRow 3 (.string "b")]

theorem combine_set_operations_items :
    combine .union [items, otherItems] =
        [itemRow 1 (.string "a"), itemRow 2 .null, itemRow 3 (.string "b")] ∧
      combine .intersect [items, otherItems] = [itemRow 2 .null] ∧
      combine .except [items, otherItems] = [itemRow 1 (.string "a")] := by
  have hheld : ∀ set ∈ [items, otherItems], ∀ row ∈ set, ∀ v ∈ row.values,
      v ∈ [.null, .int 1, .int 2, .int 3, .string "a", .string "b"] := by decide
  have hplain : ∀ v ∈ [Value.null, .int 1, .int 2, .int 3, .string "a", .string "b"], v.Exact := by
    simp [Value.Exact]
  have hexact : ∀ set ∈ [items, otherItems], ∀ row ∈ set, row.Exact := by
    intro set hset row hrow
    exact Row.Exact.of_values fun v hv => hplain v (hheld set hset row hrow v hv)
  obtain ⟨-, -, -, hunion, hintersect, hexcept, -⟩ := combine_set_operations items [otherItems] hexact
  refine ⟨?_, ?_, ?_⟩
  · rw [hunion]
    decide
  · rw [hintersect]
    decide
  · rw [hexcept]
    decide

end Union

end RowPipeline
