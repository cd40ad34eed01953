import RowPipeline.Proofs.Joins
import RowPipeline.Proofs.RowIdentity
import RowPipeline.Step.Union

/-!
# What keys identify

Groups, sets, distinct counts and joins identify what shares keys. Where keys differ exactly if values do,
that is what equality calls equal.
-/

namespace RowPipeline

/-! ## Rows -/

namespace Row

/-- Rows with equal values in some fields. -/
def looseEqOn (fields : List String) (r s : Row) : Bool :=
  fields.all fun f => (r.lookupD f).looseEq (s.lookupD f)

/-- Rows whose values in one column have keys that differ exactly if they do. -/
def Concordant (r s : Row) : Prop :=
  ∀ c v w, r.get? c = some v → s.get? c = some w → v.Concordant w

theorem identity_eq_iff_looseEq {r s : Row} (h : r.Concordant s) :
    r.identity = s.identity ↔ r.looseEq s = true := by
  rw [identity_eq_iff, looseEq_iff]
  refine forall_congr' fun c => ?_
  have hc := h c
  generalize r.get? c = v at hc ⊢
  generalize s.get? c = w at hc ⊢
  cases v with
  | none => cases w <;> simp
  | some v =>
      cases w with
      | none => simp
      | some w => simp [(hc v w rfl rfl).canonicalKey_eq_iff]

theorem groupRowKey_eq_iff {fields : List String} {r s : Row}
    (h : ∀ f ∈ fields, (r.lookupD f).Concordant (s.lookupD f)) :
    Query.groupRowKey fields r = Query.groupRowKey fields s ↔ looseEqOn fields r s = true := by
  rw [Query.groupRowKey, Query.groupRowKey, compositeKey_eq_iff, List.map_map, List.map_map,
    List.map_inj_left, looseEqOn, List.all_eq_true]
  refine forall₂_congr fun f hf => ?_
  rw [← (h f hf).canonicalKey_eq_iff, Value.canonicalKey_eq_iff]
  rfl

end Row

/-! ## Sets and counts -/

theorem distinctRows_eq {rows : List Row} (h : ∀ r ∈ rows, ∀ s ∈ rows, r.Concordant s) :
    distinctRows rows = rows.eraseDupsBy Row.looseEq :=
  distinctByKey_eq_eraseDupsBy fun r hr s hs => Row.identity_eq_iff_looseEq (h r hr s hs)

theorem Union.combine_union (sets : List (List Row)) :
    combine .union sets = distinctRows (sets.flatten.map (align (commonColumns sets))) := by
  rw [combine, List.map_flatten]
  generalize sets.map (fun set => set.map (align (commonColumns sets))) = aligned
  cases aligned <;> rfl

theorem countDistinct_eq {values : List Value} (h : ∀ v ∈ values, ∀ w ∈ values, v.Concordant w) :
    aggregateValues .countDistinct values =
      .ofNat ((values.filter fun v => !v.isNull).eraseDupsBy Value.looseEq).length := by
  rw [aggregateValues, distinctByKey_eq_eraseDupsBy]
  intro v hv w hw
  exact (h v (List.mem_filter.mp hv).1 w (List.mem_filter.mp hw).1).canonicalKey_eq_iff

/-! ## Joins -/

/-- Rows that a join puts together: no value of the conditions is null, and they are equal in pairs. -/
def JoinClause.looseEqRows (j : JoinClause) (l r : Row) : Bool :=
  j.on.all fun on => !(l.lookupD on.left).isNull && !(r.lookupD on.right).isNull &&
    (l.lookupD on.left).looseEq (r.lookupD on.right)

theorem JoinClause.matchesRows_eq_looseEqRows {j : JoinClause} {l r : Row}
    (h : ∀ on ∈ j.on, (l.lookupD on.left).Concordant (r.lookupD on.right)) :
    j.matchesRows l r = j.looseEqRows l r := by
  rw [Bool.eq_iff_iff, matchesRows, looseEqRows, List.all_eq_true, List.all_eq_true]
  refine forall₂_congr fun on hon => ?_
  rw [Bool.and_eq_true_iff, Bool.and_eq_true_iff (y := Value.looseEq _ _), beq_iff_eq,
    (h on hon).canonicalKey_eq_iff]

/-! ## Identification -/

/-- Values share a key exactly if they are equal, unless they share one without being discerned or are
equal without being aligned. Where keys and equality agree on the values that are read, the groups are the
classes of equal rows; of equal rows of a set or a union the first is left; of equal values one is counted;
and a row is joined with the rows equal to it. -/
theorem keys_identify_equals (a b : Value) (fields : List String) (rows : List Row)
    (sets : List (List Row)) (values : List Value) (j : JoinClause) (l : Row) :
    (a.NamedOnce → b.NamedOnce →
      (a.LooselyDiscerned b → a.LooselyAligned b →
        (a.canonicalKey = b.canonicalKey ↔ a.looseEq b = true)) ∧
      (a.canonicalKey = b.canonicalKey → (a.looseEq b = true ↔ a.LooselyDiscerned b)) ∧
      (a.looseEq b = true → (a.canonicalKey = b.canonicalKey ↔ a.LooselyAligned b))) ∧
    ((∀ r ∈ rows, ∀ s ∈ rows, ∀ f ∈ fields, (r.lookupD f).Concordant (s.lookupD f)) →
      (groupByKey (Query.groupRowKey fields) rows).map Prod.snd =
        (rows.eraseDupsBy (Row.looseEqOn fields)).map fun r =>
          rows.filter fun s => Row.looseEqOn fields s r) ∧
    ((∀ r ∈ rows, ∀ s ∈ rows, r.Concordant s) → distinctRows rows = rows.eraseDupsBy Row.looseEq) ∧
    (let aligned := sets.flatten.map (Union.align (Union.commonColumns sets))
     (∀ r ∈ aligned, ∀ s ∈ aligned, r.Concordant s) →
      Union.combine .union sets = aligned.eraseDupsBy Row.looseEq) ∧
    ((∀ v ∈ values, ∀ w ∈ values, v.Concordant w) →
      aggregateValues .countDistinct values =
        .ofNat ((values.filter fun v => !v.isNull).eraseDupsBy Value.looseEq).length) ∧
    ((∀ r ∈ rows, ∀ on ∈ j.on, (l.lookupD on.left).Concordant (r.lookupD on.right)) →
      (matchesIn (indexByKey (j.on.map (·.right)) rows)
        (joinKey? (j.on.map (·.left)) l)).map Prod.snd = rows.filter (j.looseEqRows l)) := by
  refine ⟨fun ha hb => ⟨?_, ?_, ?_⟩, fun h => ?_, distinctRows_eq, ?_, countDistinct_eq, fun h => ?_⟩
  · intro hdiscerned haligned
    exact Value.Concordant.canonicalKey_eq_iff ⟨ha, hb, hdiscerned, haligned⟩
  · exact fun hkey => Value.looseEq_iff_discerned hkey hb
  · exact fun heq => Value.canonicalKey_iff_aligned heq ha hb
  · exact groupByKey_classes fun r hr s hs => Row.groupRowKey_eq_iff (h r hr s hs)
  · intro aligned h
    rw [Union.combine_union]
    exact distinctRows_eq h
  · rw [j.matchesIn_eq_filter, filter_places]
    exact List.filter_congr fun r hr => JoinClause.matchesRows_eq_looseEqRows (h r hr)

def measures : List Value := [.int 1, .float 1, .float 2.5]

theorem measures_concordant : ∀ v ∈ measures, ∀ w ∈ measures, v.Concordant w := by
  have hfinite : (1 : Float).isFinite = true ∧ (2.5 : Float).isFinite = true := by decide +kernel
  have hsmall : Binary64.smallInt64? 1 = some 1 := by decide +kernel
  have hapart : ¬ (Binary64.ofInt64 1 == 2.5) = true := by decide +kernel
  intro v hv w hw
  simp only [measures, List.mem_cons, List.not_mem_nil, or_false] at hv hw
  rcases hv with rfl | rfl | rfl <;> rcases hw with rfl | rfl | rfl
  · exact ⟨trivial, trivial, trivial, trivial⟩
  · exact ⟨trivial, trivial, trivial, fun _ => hsmall⟩
  · exact ⟨trivial, trivial, trivial, fun h => absurd h hapart⟩
  · exact ⟨trivial, trivial, trivial, fun _ => hsmall⟩
  · exact ⟨trivial, trivial, .inl hfinite.1, trivial⟩
  · exact ⟨trivial, trivial, .inl hfinite.1, trivial⟩
  · exact ⟨trivial, trivial, trivial, fun h => absurd h hapart⟩
  · exact ⟨trivial, trivial, .inl hfinite.2, trivial⟩
  · exact ⟨trivial, trivial, .inl hfinite.2, trivial⟩

/-- The measures as the rows of one column. -/
def measureRows : List Row := measures.map fun v => Record.ofList [("n", v)]

theorem measureRows_concordant : ∀ r ∈ measureRows, ∀ s ∈ measureRows, r.Concordant s := by
  have held : ∀ r ∈ measureRows, ∀ c v, r.get? c = some v → v ∈ measures := by
    intro r hr c v hv
    obtain ⟨w, hw, rfl⟩ := List.mem_map.mp hr
    have hmem := Assoc.mem_of_get? hv
    obtain ⟨-, rfl⟩ := Prod.mk.inj (List.mem_singleton.mp hmem)
    exact hw
  intro r hr s hs c v w hv hw
  exact measures_concordant v (held r hr c v hv) w (held s hs c w hw)

theorem lookupD_measureRows : ∀ r ∈ measureRows, r.lookupD "n" ∈ measures := by
  intro r hr
  obtain ⟨v, hv, rfl⟩ := List.mem_map.mp hr
  have hlookup : Row.lookupD (Record.ofList [("n", v)]) "n" = v := rfl
  rw [hlookup]
  exact hv

theorem keys_identify_equals_measures :
    (Value.int 1).canonicalKey = (Value.float 1).canonicalKey ∧
      ((groupByKey (Query.groupRowKey ["n"]) measureRows).map Prod.snd).map List.length = [2, 1] ∧
      (distinctRows measureRows).length = 2 ∧
      (Union.combine .union [measureRows]).length = 2 ∧
      aggregateValues .countDistinct measures = .int 2 ∧
      ((matchesIn (indexByKey ["n"] measureRows)
        (joinKey? ["n"] (Record.ofList [("n", .float 1)]))).map Prod.snd).length = 2 := by
  let j : JoinClause := ⟨.inner, "", none, [⟨"n", "n"⟩]⟩
  let l : Row := Record.ofList [("n", .float 1)]
  obtain ⟨hvalues, hgroups, hset, hunion, hcount, hjoin⟩ :=
    keys_identify_equals (.int 1) (.float 1) ["n"] measureRows [measureRows] measures j l
  have hfields : ∀ r ∈ measureRows, ∀ s ∈ measureRows, ∀ f ∈ ["n"],
      (r.lookupD f).Concordant (s.lookupD f) := by
    intro r hr s hs f hf
    rw [List.mem_singleton.mp hf]
    exact measures_concordant _ (lookupD_measureRows r hr) _ (lookupD_measureRows s hs)
  have haligned : [measureRows].flatten.map (Union.align (Union.commonColumns [measureRows])) =
      measureRows := rfl
  rw [haligned] at hunion
  have hl : l ∈ measureRows := by simp [measureRows, measures, l]
  refine ⟨?_, ?_, ?_, ?_, ?_, ?_⟩
  · have h := measures_concordant (.int 1) (by simp [measures]) (.float 1) (by simp [measures])
    exact ((hvalues h.left h.right).1 h.discerned h.aligned).mpr (by decide +kernel)
  · rw [hgroups hfields]
    decide +kernel
  · rw [hset measureRows_concordant]
    decide +kernel
  · rw [hunion measureRows_concordant]
    decide +kernel
  · have hlength : ((measures.filter fun v => !v.isNull).eraseDupsBy Value.looseEq).length = 2 := by
      decide +kernel
    rw [hcount measures_concordant, hlength]
    rfl
  · have hjoined := hjoin fun r hr on hon => by
      rw [List.mem_singleton.mp hon]
      exact measures_concordant _ (lookupD_measureRows l hl) _ (lookupD_measureRows r hr)
    exact (congrArg List.length hjoined).trans (by decide +kernel)

/-- An integer that is rounded to a double is equal to it and has another key. -/
theorem rounded_integer_keyed_apart :
    let i := Value.int 9007199254740993
    let x := Value.float 9007199254740992
    i.looseEq x = true ∧ i.canonicalKey ≠ x.canonicalKey := by
  decide +kernel

end RowPipeline
