import Mathlib.Data.Finset.Card
import RowPipeline.Proofs.Enrichment
import RowPipeline.Proofs.GroupPlaces
import RowPipeline.Proofs.QueryRuns
import RowPipeline.Step.Assert

/-!
# Quality checks

The checks of an assert step count what the other steps would find. A row repeats an earlier one exactly if
a query puts it into the same group, and the value of a row is an orphan exactly if an enrich step finds no
partner for the row.
-/

namespace RowPipeline

variable {α : Type}

/-- Values put together share a text if their keys are the same, one by one. -/
theorem compositeKey_eq_iff_keys (vs ws : List Value) :
    compositeKey vs = compositeKey ws ↔
      vs.map Value.canonicalKey = ws.map Value.canonicalKey := by
  refine ⟨fun h => ?_, congrArg unitSeparator.intercalate⟩
  have hforms := congrArg (List.map Value.canonicalKey) ((compositeKey_eq_iff vs ws).mp h)
  simpa [Function.comp_def] using hforms

/-- There are as many groups as keys. -/
theorem length_groupByKey (key : α → String) (xs : List α) :
    (groupByKey key xs).length = (xs.map key).toFinset.card := by
  obtain ⟨hkeys, -⟩ := groupByKey_keyed key xs
  have hnodup : ((xs.map key).foldl addName []).Nodup :=
    Document.nodup_foldl_addName _ List.nodup_nil
  rw [← List.length_map (f := Prod.fst), hkeys, ← List.toFinset_card_of_nodup hnodup]
  congr 1
  ext k
  rw [List.mem_toFinset, List.mem_toFinset, Document.mem_foldl_addName]
  simp

/-- Lists with members are as many as all their members if each has one. -/
theorem length_flatten_of_ne_nil {lists : List (List α)} (h : ∀ l ∈ lists, l ≠ []) :
    lists.length ≤ lists.flatten.length ∧
      (lists.flatten.length = lists.length ↔ ∀ l ∈ lists, l.length = 1) := by
  induction lists with
  | nil => simp
  | cons l rest ih =>
      obtain ⟨hl, hrest⟩ := List.forall_mem_cons.mp h
      obtain ⟨hle, hone⟩ := ih hrest
      have hpos : 0 < l.length := List.length_pos_iff.mpr hl
      rw [List.forall_mem_cons, ← hone, List.flatten_cons, List.length_append, List.length_cons]
      omega

namespace Query

variable {p : Plan} {params : Parameters} {rows output : List Row} {groups : List (List Row)}

/-- With a key, the groups of a query are those of its rows. -/
theorem groups_of_groupRows (hkey : p.groupKey ≠ [])
    (h : groupRows p params rows = .ok (output, groups)) :
    groups = (groupByKey (groupRowKey p.groupKey) rows).map Prod.snd := by
  obtain ⟨hgroups, -⟩ := groupRows_eq h
  have hclasses : classesOf p rows = groupPlaces (groupRowKey p.groupKey) rows := by
    simp [classesOf, hkey]
  rw [hgroups, hclasses, members_groupPlaces]

end Query

namespace Assert

open Query

/-! ## Repeated rows -/

/-- The tuples that are repeated and those that are not yet seen make up all tuples. -/
theorem countRepeats_add_card (seen keys : List (List String)) :
    countRepeats seen keys + (keys.toFinset \ seen.toFinset).card = keys.length := by
  induction keys generalizing seen with
  | nil => simp [countRepeats]
  | cons key rest ih =>
      rw [countRepeats, List.toFinset_cons, List.length_cons]
      split
      · rename_i hseen
        rw [Finset.insert_sdiff_of_mem _ (List.mem_toFinset.mpr hseen)]
        have hrest := ih seen
        omega
      · rename_i hnew
        have hfirst : insert key rest.toFinset \ seen.toFinset =
            insert key (rest.toFinset \ (key :: seen).toFinset) := by
          ext k
          by_cases hk : k = key
          · simp [hk, hnew]
          · simp [hk]
        have hnot : key ∉ rest.toFinset \ (key :: seen).toFinset := by simp
        rw [hfirst, Finset.card_insert_of_notMem hnot]
        have hrest := ih (key :: seen)
        omega

/-- The tuple of keys that the check compares and the text that grouping compares tell the same rows
apart. -/
theorem duplicateCount_add_groups (fields : List String) (rows : List Row) :
    duplicateCount fields rows + (groupByKey (groupRowKey fields) rows).length = rows.length := by
  have hkeys : (rows.map (groupRowKey fields)).toFinset =
      (rows.map (keyTuple fields)).toFinset.image unitSeparator.intercalate := by
    ext k
    simp [groupRowKey, compositeKey, keyTuple, Function.comp_def]
  have hinjective : Set.InjOn unitSeparator.intercalate
      (rows.map (keyTuple fields)).toFinset := by
    intro t ht u hu htext
    obtain ⟨r, -, rfl⟩ := List.mem_map.mp (List.mem_toFinset.mp ht)
    obtain ⟨s, -, rfl⟩ := List.mem_map.mp (List.mem_toFinset.mp hu)
    have htuples := compositeKey_eq_iff_keys (fields.map r.lookupD) (fields.map s.lookupD)
    rw [List.map_map, List.map_map] at htuples
    exact htuples.mp (by rw [compositeKey, compositeKey, List.map_map, List.map_map]; exact htext)
  have hcount := countRepeats_add_card [] (rows.map (keyTuple fields))
  rw [List.toFinset_nil, Finset.sdiff_empty, List.length_map] at hcount
  rw [length_groupByKey, hkeys, Finset.card_image_of_injOn hinjective]
  exact hcount

/-! ## Orphans -/

/-- A row has a partner if its value is among those of the other side. -/
theorem any_matchesRows {j : JoinClause} {field target : String} (hon : j.on = [⟨field, target⟩])
    (l : Row) (right : List Row) :
    right.any (j.matchesRows l) = (!(l.lookupD field).isNull &&
      decide ((l.lookupD field).canonicalKey ∈
        (presentValues right target).map Value.canonicalKey)) := by
  rw [Bool.eq_iff_iff, List.any_eq_true, Bool.and_eq_true, decide_eq_true_iff, List.mem_map]
  simp only [JoinClause.matchesRows, hon, List.all_cons, List.all_nil, Bool.and_true, Bool.and_eq_true,
    beq_iff_eq, presentValues, List.mem_filter, List.mem_map]
  constructor
  · rintro ⟨r, hr, ⟨hl, htarget⟩, hkey⟩
    exact ⟨hl, _, ⟨⟨r, hr, rfl⟩, htarget⟩, hkey.symm⟩
  · rintro ⟨hl, -, ⟨⟨r, hr, rfl⟩, htarget⟩, hkey⟩
    exact ⟨r, hr, ⟨hl, htarget⟩, hkey.symm⟩

/-- The orphans and the rows with a partner make up the rows with a value. -/
theorem orphanCount_add_matched {j : JoinClause} {field target : String}
    (hon : j.on = [⟨field, target⟩]) (left right : List Row) :
    orphanCount left field right target + (left.filter fun l => right.any (j.matchesRows l)).length =
      (left.filter fun r => !(r.lookupD field).isNull).length := by
  have hany := fun l => any_matchesRows hon l right
  have hsplit := List.length_eq_length_filter_add (l := presentValues left field) fun v =>
    decide (v.canonicalKey ∈ (presentValues right target).map Value.canonicalKey)
  have hmatched : (left.filter fun l => right.any (j.matchesRows l)).length =
      ((presentValues left field).filter fun v =>
        decide (v.canonicalKey ∈ (presentValues right target).map Value.canonicalKey)).length := by
    generalize (presentValues right target).map Value.canonicalKey = known at hany
    rw [presentValues, List.filter_map, List.filter_map, List.length_map, List.filter_filter]
    refine congrArg List.length (List.filter_congr fun l _ => ?_)
    rw [hany, Bool.and_comm]
    rfl
  have hpresent : (presentValues left field).length =
      (left.filter fun r => !(r.lookupD field).isNull).length := by
    rw [presentValues, List.filter_map, List.length_map]
    rfl
  rw [hmatched, ← hpresent, hsplit, orphanCount, countFailing]
  exact Nat.add_comm _ _

/-! ## Agreement -/

/-- A check for unique rows counts the rows less the groups that a query forms by the fields, and passes
if each group is one row. A check of a relationship counts the rows with a value less those for which an
enrich step by the two fields finds a partner. -/
theorem checks_agree_with_engines (c : StepContext) :
    (∀ (p : Plan) (params : Parameters) (fields : List String) (rows output : List Row)
        (groups : List (List Row)), fields ≠ [] → p.groupKey = fields →
      groupRows p params rows = .ok (output, groups) →
        ∃ finding, (Check.unique fields).run rows c = .ok finding ∧
          groups.length ≤ rows.length ∧
          finding.details = [("duplicates", .ofNat (rows.length - groups.length))] ∧
          (finding.passed = true ↔ ∀ g ∈ groups, g.length = 1)) ∧
      ∀ (config : Enrich.Config) (rows referenced : List Row) (joined : Enrich.Joined)
        (field reference : String) (referenceField : Option String),
        config.on = [⟨field, referenceField.getD field⟩] →
        Enrich.join config rows referenced = .ok joined → c.input reference = .ok referenced →
          let present := (rows.filter fun r => !(r.lookupD field).isNull).length
          ∃ finding, (Check.relationship field reference referenceField).run rows c = .ok finding ∧
            joined.matched ≤ present ∧
            finding.details = [("orphans", .ofNat (present - joined.matched))] ∧
            (finding.passed = true ↔ joined.matched = present) := by
  constructor
  · intro p params fields rows output groups hne hfields hgroups
    subst hfields
    have hmembers := groups_of_groupRows hne hgroups
    have hkeyed := (groupByKey_keyed (groupRowKey p.groupKey) rows).2
    have hnonempty : ∀ g ∈ groups, g ≠ [] := by
      rw [hmembers]
      exact List.forall_mem_map.mpr fun g hg => (hkeyed g hg).1
    have hflatten : groups.flatten.length = rows.length := by
      rw [hmembers, ← List.flatMap_def]
      exact (groupByKey_perm _ rows).length_eq
    have hcount : duplicateCount p.groupKey rows + groups.length = rows.length := by
      rw [hmembers, List.length_map]
      exact duplicateCount_add_groups p.groupKey rows
    obtain ⟨hle, hone⟩ := length_flatten_of_ne_nil hnonempty
    have hduplicates : duplicateCount p.groupKey rows = rows.length - groups.length := by omega
    refine ⟨_, rfl, by omega, ?_, ?_⟩
    · rw [checkUnique, hduplicates]
      rfl
    · rw [← hone, checkUnique, Finding.ofCount, beq_iff_eq]
      omega
  · intro config rows referenced joined field reference referenceField hon hjoin hinput present
    obtain ⟨-, hmatched⟩ := Enrich.join_eq hjoin
    have hcount := orphanCount_add_matched (j := config.clause) hon rows referenced
    rw [← hmatched] at hcount
    have horphans : orphanCount rows field referenced (referenceField.getD field) =
        present - joined.matched := by omega
    refine ⟨_, by rw [Check.run, checkRelationship, hinput]; rfl, by omega, ?_, ?_⟩
    · rw [horphans]
      rfl
    · rw [Finding.ofCount, beq_iff_eq]
      omega

/-- Orders whose customer is written as a number of either kind, under a qualified name, or not at all. -/
def looseOrders : List Row :=
  [.ofList [("customer", .int 1)], .ofList [("customer", .float 1)],
    .ofList [("o.customer", .int 1)], .ofList [("note", .string "lost")],
    .ofList [("customer", .null)], .ofList [("customer", .int 5)]]

def knownCustomers : List Row :=
  [.ofList [("id", .float 1)], .ofList [("id", .int 2)], .ofList [("id", .null)]]

theorem checks_agree_with_engines_loose :
    (∃ unique, (Check.unique ["customer"]).run looseOrders (salesContext knownCustomers) = .ok unique ∧
      unique.details = [("duplicates", .ofNat 3)] ∧ unique.passed = false) ∧
    ∃ related, (Check.relationship "customer" "sales" (some "id")).run looseOrders
        (salesContext knownCustomers) = .ok related ∧
      related.details = [("orphans", .ofNat 1)] ∧ related.passed = false := by
  obtain ⟨hunique, hrelated⟩ := checks_agree_with_engines (salesContext knownCustomers)
  let byCustomer : Plan := { visitsByRegion with groupBy := ["customer"] }
  have hgroups : ((groupRows byCustomer {} looseOrders).toOption.map fun r => r.2.map List.length) =
      some [3, 2, 1] := by decide +kernel
  have hjoin : ((Enrich.join Enrich.customersOfOrders looseOrders knownCustomers).toOption.map
      Enrich.Joined.matched) = some 3 := by decide +kernel
  have hpresent : (looseOrders.filter fun r => !(r.lookupD "customer").isNull).length = 4 := by
    decide +kernel
  constructor
  · cases hrun : groupRows byCustomer {} looseOrders with
    | error e =>
        rw [hrun] at hgroups
        cases hgroups
    | ok r =>
        rw [hrun] at hgroups
        have hlengths : r.2.map List.length = [3, 2, 1] := Option.some.inj hgroups
        have hcount : r.2.length = 3 := by simpa using congrArg List.length hlengths
        obtain ⟨finding, hfinding, -, hdetails, hpassed⟩ :=
          hunique byCustomer {} ["customer"] looseOrders r.1 r.2 (by decide) rfl hrun
        refine ⟨finding, hfinding, by rw [hdetails, hcount]; rfl, Bool.eq_false_iff.mpr fun h => ?_⟩
        have hthree : 3 ∈ r.2.map List.length := by simp [hlengths]
        obtain ⟨g, hg, hsize⟩ := List.mem_map.mp hthree
        have hone := hpassed.mp h g hg
        omega
  · cases hrun : Enrich.join Enrich.customersOfOrders looseOrders knownCustomers with
    | error e =>
        rw [hrun] at hjoin
        cases hjoin
    | ok joined =>
        rw [hrun] at hjoin
        have hmatched : joined.matched = 3 := Option.some.inj hjoin
        obtain ⟨finding, hfinding, -, hdetails, hpassed⟩ :=
          hrelated Enrich.customersOfOrders looseOrders knownCustomers joined "customer" "sales"
            (some "id") rfl hrun rfl
        rw [hmatched, hpresent] at hdetails hpassed
        exact ⟨finding, hfinding, hdetails, Bool.eq_false_iff.mpr fun h => absurd (hpassed.mp h)
          (by decide)⟩

end Assert

end RowPipeline
