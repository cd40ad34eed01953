import RowPipeline.Document.Reader
import RowPipeline.Proofs.Documents
import RowPipeline.Proofs.FilterCodec
import RowPipeline.Proofs.Places

/-!
# Gated filters

Dropping closed conditions changes the filters that hold gates and nothing else: each of them is
replaced by what is left of it, or goes with its name. What is left is settled: it reads as the tree it
was written from, whose gates are open. So dropping closed conditions again changes nothing.
-/

namespace RowPipeline

variable {params : Parameters} {path : String}

namespace FilterNode

/-! ## Trees -/

theorem resolveAll_of_settled {children : List FilterNode}
    (h : ∀ n ∈ children, n.resolve params = some n) : resolveAll params children = children := by
  induction children with
  | nil => rfl
  | cons n rest ih =>
      obtain ⟨hn, hrest⟩ := List.forall_mem_cons.mp h
      rw [resolveAll, hn, ih hrest]
      rfl

/-- What is left of a group: a member of the rest, or a group of it. -/
theorem resolve_logical {op : LogicalOp} {children : List FilterNode} {t : FilterNode}
    (h : (logical op children).resolve params = some t) :
    t ∈ resolveAll params children ∨ t = logical op (resolveAll params children) ∧
      1 < (resolveAll params children).length := by
  rw [resolve] at h
  split at h
  · cases h
  · rename_i only hleft
    cases h
    left
    rw [hleft]
    exact List.mem_singleton.mpr rfl
  · rename_i hnil hone
    cases h
    right
    refine ⟨rfl, ?_⟩
    cases hleft : resolveAll params children with
    | nil => exact absurd hleft hnil
    | cons n rest =>
        cases rest with
        | nil => exact absurd hleft (hone n)
        | cons => simp

theorem resolve_logical_of_settled {op : LogicalOp} {children : List FilterNode}
    (h : ∀ n ∈ children, n.resolve params = some n) (more : 1 < children.length) :
    (logical op children).resolve params = some (logical op children) := by
  rw [resolve, resolveAll_of_settled h]
  match children, more with
  | _ :: _ :: _, _ => rfl

mutual

/-- What is left of a tree is left of it again. -/
theorem resolve_settled : ∀ (n t : FilterNode), n.resolve params = some t →
    t.resolve params = some t
  | .leaf c, t, h => by
      rw [resolve] at h
      split at h
      · rename_i hopen
        cases h
        rw [resolve, if_pos hopen]
      · cases h
  | .logical op children, t, h => by
      have hmembers := resolveAll_settled children
      rcases resolve_logical h with hmember | ⟨rfl, hmore⟩
      · exact hmembers t hmember
      · exact resolve_logical_of_settled hmembers hmore

theorem resolveAll_settled : ∀ (children : List FilterNode), ∀ t ∈ resolveAll params children,
    t.resolve params = some t
  | [], _, ht => absurd ht List.not_mem_nil
  | n :: rest, t, ht => by
      rw [resolveAll, List.mem_append, Option.mem_toList] at ht
      rcases ht with hfirst | hrest
      · exact resolve_settled n t hfirst
      · exact resolveAll_settled rest t hrest

end

mutual

/-- What is left of a tree holds conditions of the tree. -/
theorem leaves_resolve : ∀ (n t : FilterNode), n.resolve params = some t → t.leaves ⊆ n.leaves
  | .leaf c, t, h => by
      rw [resolve] at h
      split at h
      · cases h
        exact List.Subset.refl _
      · cases h
  | .logical op children, t, h => by
      have hmembers := leaves_resolveAll children
      rw [leaves]
      rcases resolve_logical h with hmember | ⟨rfl, -⟩
      · exact hmembers t hmember
      · intro c hc
        rw [leaves, mem_leavesOf] at hc
        obtain ⟨n, hn, hc⟩ := hc
        exact hmembers n hn hc

theorem leaves_resolveAll : ∀ (children : List FilterNode), ∀ t ∈ resolveAll params children,
    t.leaves ⊆ leavesOf children
  | [], _, ht => absurd ht List.not_mem_nil
  | n :: rest, t, ht => by
      rw [resolveAll, List.mem_append, Option.mem_toList] at ht
      rw [leavesOf]
      rcases ht with hfirst | hrest
      · exact fun c hc => List.mem_append_left _ (leaves_resolve n t hfirst hc)
      · exact fun c hc => List.mem_append_right _ (leaves_resolveAll rest t hrest hc)

end

end FilterNode

/-! ## Changes of an object -/

section Changes

variable {change : String × Option Json} {changes : List (String × Option Json)}
variable {entries : List (String × Json)}

/-- What the changes make of an entry: another value under its name, nothing, or the entry itself. -/
def changedBy (changes : List (String × Option Json)) (entry : String × Json) :
    Option (String × Json) :=
  match Assoc.get? entry.1 changes with
  | some change => change.map fun j => (entry.1, j)
  | none => some entry

theorem changedBy_singleton_of_ne {entry : String × Json} (h : change.1 ≠ entry.1) :
    changedBy [change] entry = some entry := by
  rw [changedBy, Assoc.get?, if_neg h]
  rfl

theorem filterMap_changedBy_of_not_mem (h : change.1 ∉ entries.map Prod.fst) :
    entries.filterMap (changedBy [change]) = entries := by
  have hsame : ∀ entry ∈ entries, changedBy [change] entry = some entry := by
    intro entry hentry
    refine changedBy_singleton_of_ne fun heq => h ?_
    rw [heq]
    exact List.mem_map_of_mem hentry
  rw [List.filterMap_congr hsame, List.filterMap_some]

/-- A change under a name that is there is made entry by entry. -/
theorem applyFilterChange_eq (nodup : (entries.map Prod.fst).Nodup)
    (present : change.1 ∈ entries.map Prod.fst) :
    applyFilterChange entries change = entries.filterMap (changedBy [change]) := by
  obtain ⟨key, value⟩ := change
  induction entries with
  | nil => cases present
  | cons head rest ih =>
      obtain ⟨k, v⟩ := head
      rw [List.map_cons, List.nodup_cons] at nodup
      by_cases hk : k = key
      · subst hk
        have hrest : rest.filterMap (changedBy [(k, value)]) = rest :=
          filterMap_changedBy_of_not_mem nodup.1
        have hhead : changedBy [(k, value)] (k, v) = value.map fun j => (k, j) := by
          rw [changedBy, Assoc.get?, if_pos rfl]
        cases value with
        | none =>
            rw [List.filterMap_cons_none hhead, hrest, applyFilterChange, Assoc.erase, if_pos rfl]
        | some j =>
            rw [List.filterMap_cons_some hhead, hrest, applyFilterChange, Assoc.insert, if_pos rfl]
      · have hpresent : key ∈ rest.map Prod.fst := by
          rcases List.mem_cons.mp present with heq | hmem
          · exact absurd heq.symm hk
          · exact hmem
        have hhead : changedBy [(key, value)] (k, v) = some (k, v) :=
          changedBy_singleton_of_ne (Ne.symm hk)
        rw [List.filterMap_cons_some hhead, ← ih nodup.2 hpresent]
        cases value with
        | none => rw [applyFilterChange, applyFilterChange, Assoc.erase, if_neg hk]
        | some j => rw [applyFilterChange, applyFilterChange, Assoc.insert, if_neg hk]

theorem nodup_applyFilterChange (nodup : (entries.map Prod.fst).Nodup) :
    ((applyFilterChange entries change).map Prod.fst).Nodup := by
  obtain ⟨key, value⟩ := change
  cases value with
  | none => exact ((Assoc.erase_sublist key entries).map Prod.fst).nodup nodup
  | some j => exact Assoc.nodup_keys_insert nodup

theorem mem_keys_applyFilterChange {key : String} (other : change.1 ≠ key) :
    key ∈ (applyFilterChange entries change).map Prod.fst ↔ key ∈ entries.map Prod.fst := by
  rw [← Assoc.get?_isSome, ← Assoc.get?_isSome, get?_applyFilterChange entries other]

/-- Changes under different names that are there are made entry by entry. -/
theorem foldl_applyFilterChange_eq (nodup : (entries.map Prod.fst).Nodup)
    (different : (changes.map Prod.fst).Nodup)
    (present : ∀ change ∈ changes, change.1 ∈ entries.map Prod.fst) :
    changes.foldl applyFilterChange entries = entries.filterMap (changedBy changes) := by
  induction changes generalizing entries with
  | nil => exact (List.filterMap_some ..).symm
  | cons change rest ih =>
      rw [List.map_cons, List.nodup_cons] at different
      obtain ⟨hpresent, hrest⟩ := List.forall_mem_cons.mp present
      have hother : ∀ c ∈ rest, change.1 ≠ c.1 :=
        fun c hc heq => different.1 (heq ▸ List.mem_map_of_mem hc)
      have hstep : changedBy (change :: rest) =
          fun entry => (changedBy [change] entry).bind (changedBy rest) := by
        funext entry
        by_cases heq : change.1 = entry.1
        · have hnone : Assoc.get? entry.1 rest = none := by
            rw [Assoc.get?_eq_none, ← heq]
            exact different.1
          have hhead : ∀ tail, Assoc.get? entry.1 (change :: tail) = some change.2 := by
            intro tail
            rw [Assoc.get?, if_pos heq]
          rw [changedBy, hhead, changedBy, hhead]
          cases change.2 with
          | none => rfl
          | some j =>
              change some (entry.1, j) = changedBy rest (entry.1, j)
              rw [changedBy, hnone]
        · rw [changedBy_singleton_of_ne heq, changedBy, Assoc.get?, if_neg heq]
          rfl
      rw [List.foldl_cons, ih (nodup_applyFilterChange nodup) different.2
        fun c hc => (mem_keys_applyFilterChange (hother c hc)).mpr (hrest c hc),
        applyFilterChange_eq nodup hpresent, List.filterMap_filterMap, hstep]

/-- Changes to what is there already change nothing. -/
theorem foldl_applyFilterChange_same
    (h : ∀ change ∈ changes, ∃ j, change.2 = some j ∧ Assoc.get? change.1 entries = some j) :
    changes.foldl applyFilterChange entries = entries := by
  induction changes with
  | nil => rfl
  | cons change rest ih =>
      obtain ⟨⟨j, hj, hget⟩, hrest⟩ := List.forall_mem_cons.mp h
      have hstep : applyFilterChange entries change = entries := by
        obtain ⟨key, value⟩ := change
        subst hj
        exact Assoc.insert_of_get? hget
      rw [List.foldl_cons, hstep, ih hrest]

end Changes

/-! ## What dropping closed conditions does -/

/-- A filter that reads and holds no gate. -/
def GateFree (raw : Json) : Prop :=
  ∃ tree?, FilterNode.ofJson raw = .ok tree? ∧ ∀ tree ∈ tree?, tree.hasGate = false

/-- A filter that reads as a tree with gates. -/
def Gated (raw : Json) (tree : FilterNode) : Prop :=
  FilterNode.ofJson raw = .ok (some tree) ∧ tree.hasGate = true

mutual

/-- The second value is the first without the closed conditions of its filters. A filter with gates is
replaced by what is left of it or goes with its name; everything else is as it was, and in its place. -/
inductive FiltersResolved (params : Parameters) : Json → Json → Prop
  | null : FiltersResolved params .null .null
  | bool (b : Bool) : FiltersResolved params (.bool b) (.bool b)
  | number (n : JsonNumber) : FiltersResolved params (.number n) (.number n)
  | string (s : String) : FiltersResolved params (.string s) (.string s)
  | array {items items' : List Json} (h : ItemsResolved params items items') :
      FiltersResolved params (.array items) (.array items')
  | object {fields fields' : List (String × Json)} (h : FieldsResolved params fields fields') :
      FiltersResolved params (.object fields) (.object fields')

inductive ItemsResolved (params : Parameters) : List Json → List Json → Prop
  | nil : ItemsResolved params [] []
  | cons {j j' : Json} {rest rest' : List Json} (h : FiltersResolved params j j')
      (others : ItemsResolved params rest rest') : ItemsResolved params (j :: rest) (j' :: rest')

inductive FieldsResolved (params : Parameters) :
    List (String × Json) → List (String × Json) → Prop
  | nil : FieldsResolved params [] []
  | gate {j : Json} {rest rest' : List (String × Json)} (others : FieldsResolved params rest rest') :
      FieldsResolved params ((gateKey, j) :: rest) ((gateKey, j) :: rest')
  | inner {key : String} {j j' : Json} {rest rest' : List (String × Json)} (plain : key ∉ filterKeys)
      (other : key ≠ gateKey) (h : FiltersResolved params j j')
      (others : FieldsResolved params rest rest') :
      FieldsResolved params ((key, j) :: rest) ((key, j') :: rest')
  | kept {key : String} {j : Json} {rest rest' : List (String × Json)} (filter : key ∈ filterKeys)
      (h : GateFree j) (others : FieldsResolved params rest rest') :
      FieldsResolved params ((key, j) :: rest) ((key, j) :: rest')
  | replaced {key : String} {j : Json} {tree left : FilterNode} {rest rest' : List (String × Json)}
      (filter : key ∈ filterKeys) (h : Gated j tree) (some : tree.resolve params = some left)
      (others : FieldsResolved params rest rest') :
      FieldsResolved params ((key, j) :: rest) ((key, left.toJson) :: rest')
  | dropped {key : String} {j : Json} {tree : FilterNode} {rest rest' : List (String × Json)}
      (filter : key ∈ filterKeys) (h : Gated j tree) (none : tree.resolve params = none)
      (others : FieldsResolved params rest rest') :
      FieldsResolved params ((key, j) :: rest) rest'

end

/-- What becomes of the filter under a key, if it has gates: what is left of it, or nothing. -/
def changeOf (params : Parameters) (fields : List (String × Json)) (key : String) :
    Option (Option Json) :=
  match Assoc.get? key fields with
  | none => none
  | some raw =>
      match FilterNode.ofJson raw with
      | .ok (some tree) =>
          if tree.hasGate then some ((tree.resolve params).map FilterNode.toJson) else none
      | _ => none

/-- The changes under all keys of filters. -/
def changesOf (params : Parameters) (fields : List (String × Json)) : List (String × Option Json) :=
  filterKeys.filterMap fun key => (changeOf params fields key).map fun change => (key, change)

/-- The filter under a key reads, if there is one. -/
def Readable (key : String) (fields : List (String × Json)) : Prop :=
  ∀ raw, Assoc.get? key fields = some raw → ∃ tree?, FilterNode.ofJson raw = .ok tree?

theorem filterChange_of_readable {key : String} {fields : List (String × Json)}
    (h : Readable key fields) : filterChange params path key fields =
      .ok ((changeOf params fields key).map fun change => (key, change)).toList := by
  cases hget : Assoc.get? key fields with
  | none =>
      simp only [filterChange, changeOf, hget]
      rfl
  | some raw =>
      obtain ⟨tree?, htree⟩ := h raw hget
      simp only [filterChange, changeOf, hget, htree]
      cases tree? with
      | none => rfl
      | some tree => cases hgate : tree.hasGate <;> simp [hgate]

theorem readable_of_filterChange {key : String} {fields : List (String × Json)}
    {changes : List (String × Option Json)} (h : filterChange params path key fields = .ok changes) :
    Readable key fields := by
  intro raw hraw
  cases hread : FilterNode.ofJson raw with
  | ok tree? => exact ⟨tree?, rfl⟩
  | error e =>
      simp only [filterChange, hraw, hread] at h
      cases h

/-- An object is resolved field by field, and then its filters are changed. -/
theorem resolveFilters_object {fields : List (String × Json)} {j' : Json} :
    resolveFilters params path (.object fields) = .ok j' ↔
      (∀ key ∈ filterKeys, Readable key fields) ∧
        ∃ inner, resolveFiltersInFields params path fields = .ok inner ∧
          j' = .object ((changesOf params fields).foldl applyFilterChange inner) := by
  have hchanges : (∀ key ∈ filterKeys, Readable key fields) → ∃ lists,
      filterKeys.mapM (fun key => filterChange params path key fields) = .ok lists ∧
        lists.flatten = changesOf params fields := by
    intro h
    refine ⟨_, mapM_eq_map fun key hkey => filterChange_of_readable (h key hkey), ?_⟩
    rw [changesOf, List.filterMap_eq_flatMap_toList, List.flatMap_def]
  rw [resolveFilters]
  constructor
  · intro h
    obtain ⟨lists, hlists, h⟩ := bind_eq_ok h
    obtain ⟨inner, hinner, h⟩ := bind_eq_ok h
    have hread : ∀ key ∈ filterKeys, Readable key fields := by
      intro key hkey
      obtain ⟨changes, -, hchange⟩ := exists_of_mapM hlists hkey
      exact readable_of_filterChange hchange
    obtain ⟨lists', hlists', hflat⟩ := hchanges hread
    rw [hlists] at hlists'
    cases hlists'
    cases h
    exact ⟨hread, inner, hinner, by rw [hflat]⟩
  · rintro ⟨hread, inner, hinner, rfl⟩
    obtain ⟨lists, hlists, hflat⟩ := hchanges hread
    rw [hlists, hinner, ← hflat]
    rfl

/-- The changes of an object as they concern one of its fields. -/
def Fits (params : Parameters) (changes : List (String × Option Json)) (entry : String × Json) : Prop :=
  (entry.1 ∉ filterKeys → Assoc.get? entry.1 changes = none) ∧
    (entry.1 ∈ filterKeys → GateFree entry.2 ∧ Assoc.get? entry.1 changes = none ∨
      ∃ tree, Gated entry.2 tree ∧
        Assoc.get? entry.1 changes = some ((tree.resolve params).map FilterNode.toJson))

theorem fits_changesOf {fields : List (String × Json)} (nodup : (fields.map Prod.fst).Nodup)
    (readable : ∀ key ∈ filterKeys, Readable key fields) :
    ∀ entry ∈ fields, Fits params (changesOf params fields) entry := by
  rintro ⟨key, raw⟩ hentry
  have hget : Assoc.get? key fields = some raw := Assoc.get?_of_mem nodup hentry
  have hchange := Assoc.get?_image (changeOf params fields) filterKeys key
  rw [← changesOf] at hchange
  constructor
  · intro hplain
    rw [hchange, if_neg hplain]
  · intro hfilter
    obtain ⟨tree?, htree⟩ := readable key hfilter raw hget
    rw [hchange, if_pos hfilter, changeOf]
    simp only [hget, htree]
    cases tree? with
    | none => exact .inl ⟨⟨none, htree, nofun⟩, rfl⟩
    | some tree =>
        cases hgate : tree.hasGate with
        | false =>
            refine .inl ⟨⟨some tree, htree, ?_⟩, by simp [hgate]⟩
            rintro other heq
            rw [← Option.some.inj heq]
            exact hgate
        | true => exact .inr ⟨tree, ⟨htree, hgate⟩, by simp [hgate]⟩

theorem resolveFiltersInFields_cons {key : String} {j : Json} {rest fields' : List (String × Json)} :
    resolveFiltersInFields params path ((key, j) :: rest) = .ok fields' ↔
      ∃ j' rest', (if key ∈ filterKeys ∨ key = gateKey then j' = j
          else resolveFilters params (path ++ "." ++ key) j = .ok j') ∧
        resolveFiltersInFields params path rest = .ok rest' ∧ fields' = (key, j') :: rest' := by
  rw [resolveFiltersInFields]
  by_cases hkey : key ∈ filterKeys ∨ key = gateKey
  · rw [if_pos (by simpa using hkey)]
    simp only [if_pos hkey]
    constructor
    · intro h
      obtain ⟨j', hj', h⟩ := bind_eq_ok h
      obtain ⟨rest', hrest, h⟩ := bind_eq_ok h
      cases hj'
      cases h
      exact ⟨j, rest', rfl, hrest, rfl⟩
    · rintro ⟨j', rest', rfl, hrest, rfl⟩
      rw [hrest]
      rfl
  · rw [if_neg (by simpa using hkey)]
    simp only [if_neg hkey]
    constructor
    · intro h
      obtain ⟨j', hj', h⟩ := bind_eq_ok h
      obtain ⟨rest', hrest, h⟩ := bind_eq_ok h
      cases h
      exact ⟨j', rest', hj', hrest, rfl⟩
    · rintro ⟨j', rest', hj', hrest, rfl⟩
      rw [hj', hrest]
      rfl

theorem keys_resolveFiltersInFields {fields fields' : List (String × Json)}
    (h : resolveFiltersInFields params path fields = .ok fields') :
    fields'.map Prod.fst = fields.map Prod.fst := by
  induction fields generalizing fields' with
  | nil =>
      rw [resolveFiltersInFields] at h
      cases h
      rfl
  | cons head rest ih =>
      obtain ⟨j', rest', -, hrest, rfl⟩ := resolveFiltersInFields_cons.mp h
      rw [List.map_cons, List.map_cons, ih hrest]

/-- The fields of an object after they were searched and its filters changed. -/
theorem foldl_changesOf {fields inner : List (String × Json)} (nodup : (fields.map Prod.fst).Nodup)
    (h : resolveFiltersInFields params path fields = .ok inner) :
    (changesOf params fields).foldl applyFilterChange inner =
      inner.filterMap (changedBy (changesOf params fields)) := by
  have hkeys := keys_resolveFiltersInFields h
  refine foldl_applyFilterChange_eq (hkeys ▸ nodup) ?_ ?_
  · exact (Assoc.keys_image_sublist (changeOf params fields) filterKeys).nodup (by decide)
  · intro change hchange
    obtain ⟨key, -, hkey⟩ := List.mem_filterMap.mp hchange
    obtain ⟨value, hvalue, rfl⟩ := Option.map_eq_some_iff.mp hkey
    rw [hkeys, ← Assoc.get?_isSome]
    rw [changeOf] at hvalue
    cases hget : Assoc.get? key fields with
    | none => simp [hget] at hvalue
    | some raw => rfl

mutual

/-- What dropping closed conditions makes of a value. -/
theorem filtersResolved : ∀ (j j' : Json) (path : String), j.Proper →
    resolveFilters params path j = .ok j' → FiltersResolved params j j'
  | .object fields, j', path, hproper, h => by
      obtain ⟨hread, inner, hinner, rfl⟩ := resolveFilters_object.mp h
      rw [foldl_changesOf hproper.nodup hinner]
      have hfits : ∀ entry ∈ fields, Fits params (changesOf params fields) entry :=
        fits_changesOf hproper.nodup hread
      rw [Json.Proper] at hproper
      exact .object (fieldsResolved fields inner path hproper.2 hinner hfits)
  | .array items, j', path, hproper, h => by
      rw [resolveFilters] at h
      obtain ⟨items', hitems, h⟩ := bind_eq_ok h
      cases h
      rw [Json.Proper] at hproper
      exact .array (itemsResolved items items' path 0 hproper hitems)
  | .null, j', _, _, h => by
      unfold resolveFilters at h
      cases h
      exact .null
  | .bool b, j', _, _, h => by
      unfold resolveFilters at h
      cases h
      exact .bool b
  | .number n, j', _, _, h => by
      unfold resolveFilters at h
      cases h
      exact .number n
  | .string s, j', _, _, h => by
      unfold resolveFilters at h
      cases h
      exact .string s

theorem itemsResolved : ∀ (items items' : List Json) (path : String) (index : Nat),
    Json.ProperItems items → resolveFiltersInItems params path index items = .ok items' →
    ItemsResolved params items items'
  | [], items', _, _, _, h => by
      rw [resolveFiltersInItems] at h
      cases h
      exact .nil
  | j :: rest, items', path, index, hproper, h => by
      rw [resolveFiltersInItems] at h
      obtain ⟨j', hj', h⟩ := bind_eq_ok h
      obtain ⟨rest', hrest, h⟩ := bind_eq_ok h
      cases h
      exact .cons (filtersResolved j j' _ hproper.1 hj')
        (itemsResolved rest rest' path (index + 1) hproper.2 hrest)

theorem fieldsResolved : ∀ (fields inner : List (String × Json)) (path : String)
    {changes : List (String × Option Json)}, Json.ProperFields fields →
    resolveFiltersInFields params path fields = .ok inner →
    (∀ entry ∈ fields, Fits params changes entry) →
    FieldsResolved params fields (inner.filterMap (changedBy changes))
  | [], inner, _, _, _, h, _ => by
      rw [resolveFiltersInFields] at h
      cases h
      exact .nil
  | (key, j) :: rest, inner, path, changes, hproper, h, hfits => by
      obtain ⟨j', rest', hj', hrest, rfl⟩ := resolveFiltersInFields_cons.mp h
      obtain ⟨⟨hplain, hfilter⟩, hothers⟩ := List.forall_mem_cons.mp hfits
      have hrest' := fieldsResolved rest rest' path hproper.2 hrest hothers
      have hstay : ∀ {v : Json}, Assoc.get? key changes = none →
          changedBy changes (key, v) = some (key, v) := by
        intro v hnone
        rw [changedBy, hnone]
      by_cases hkey : key ∈ filterKeys
      · rw [if_pos (.inl hkey)] at hj'
        subst hj'
        rcases hfilter hkey with ⟨hfree, hnone⟩ | ⟨tree, hgated, hchange⟩
        · rw [List.filterMap_cons_some (hstay hnone)]
          exact .kept hkey hfree hrest'
        · have hchanged : changedBy changes (key, j') =
              (tree.resolve params).map fun left => (key, left.toJson) := by
            rw [changedBy, hchange]
            cases tree.resolve params <;> rfl
          cases hleft : tree.resolve params with
          | none =>
              rw [hleft] at hchanged
              rw [List.filterMap_cons_none hchanged]
              exact .dropped hkey hgated hleft hrest'
          | some left =>
              rw [hleft] at hchanged
              rw [List.filterMap_cons_some hchanged]
              exact .replaced hkey hgated hleft hrest'
      · rw [List.filterMap_cons_some (hstay (hplain hkey))]
        by_cases hgate : key = gateKey
        · rw [if_pos (.inr hgate)] at hj'
          subst hj' hgate
          exact .gate hrest'
        · rw [if_neg (not_or.mpr ⟨hkey, hgate⟩)] at hj'
          exact .inner hkey hgate (filtersResolved j j' _ hproper.1 hj') hrest'

end

/-! ## Settled values -/

/-- A filter that dropping its closed conditions leaves as it is written. -/
def SettledFilter (params : Parameters) (raw : Json) : Prop :=
  GateFree raw ∨ ∃ tree, Gated raw tree ∧ (tree.resolve params).map FilterNode.toJson = some raw

mutual

/-- Every filter that is searched for is settled. -/
def Settled (params : Parameters) : Json → Prop
  | .object fields => SettledFields params fields
  | .array items => SettledItems params items
  | .null | .bool _ | .number _ | .string _ => True

def SettledItems (params : Parameters) : List Json → Prop
  | [] => True
  | j :: rest => Settled params j ∧ SettledItems params rest

def SettledFields (params : Parameters) : List (String × Json) → Prop
  | [] => True
  | (key, j) :: rest =>
      (if key ∈ filterKeys then SettledFilter params j else key = gateKey ∨ Settled params j) ∧
        SettledFields params rest

end

/-- What is left of a tree with finite values is settled as it is written. -/
theorem settledFilter_toJson {tree left : FilterNode} (finite : tree.Finite)
    (h : tree.resolve params = some left) : SettledFilter params left.toJson := by
  have hfinite : left.Finite := fun c hc => finite c (FilterNode.leaves_resolve tree left h hc)
  have hread := FilterNode.ofJson_toJson hfinite
  cases hgate : left.hasGate with
  | true =>
      refine .inr ⟨left, ⟨hread, hgate⟩, ?_⟩
      rw [FilterNode.resolve_settled tree left h, Option.map_some]
  | false =>
      refine .inl ⟨some left, hread, ?_⟩
      rintro other heq
      rw [← Option.some.inj heq]
      exact hgate

mutual

theorem settled_of_filtersResolved : ∀ (j j' : Json), j.Proper → FiltersResolved params j j' →
    Settled params j'
  | .object fields, _, hproper, h => by
      cases h with
      | object h =>
          rw [Json.Proper] at hproper
          rw [Settled]
          exact settled_of_fieldsResolved fields _ hproper.2 h
  | .array items, _, hproper, h => by
      cases h with
      | array h =>
          rw [Json.Proper] at hproper
          rw [Settled]
          exact settled_of_itemsResolved items _ hproper h
  | .null, _, _, h => by
      cases h
      trivial
  | .bool _, _, _, h => by
      cases h
      trivial
  | .number _, _, _, h => by
      cases h
      trivial
  | .string _, _, _, h => by
      cases h
      trivial

theorem settled_of_itemsResolved : ∀ (items items' : List Json), Json.ProperItems items →
    ItemsResolved params items items' → SettledItems params items'
  | [], _, _, h => by
      cases h
      trivial
  | j :: rest, _, hproper, h => by
      cases h with
      | cons h others =>
          exact ⟨settled_of_filtersResolved j _ hproper.1 h,
            settled_of_itemsResolved rest _ hproper.2 others⟩

theorem settled_of_fieldsResolved : ∀ (fields fields' : List (String × Json)),
    Json.ProperFields fields → FieldsResolved params fields fields' → SettledFields params fields'
  | [], _, _, h => by
      cases h
      trivial
  | (key, j) :: rest, _, hproper, h => by
      cases h with
      | gate others =>
          refine ⟨?_, settled_of_fieldsResolved rest _ hproper.2 others⟩
          rw [if_neg (by decide)]
          exact .inl rfl
      | inner plain other h others =>
          refine ⟨?_, settled_of_fieldsResolved rest _ hproper.2 others⟩
          rw [if_neg plain]
          exact .inr (settled_of_filtersResolved j _ hproper.1 h)
      | kept filter h others =>
          refine ⟨?_, settled_of_fieldsResolved rest _ hproper.2 others⟩
          rw [if_pos filter]
          exact .inl h
      | replaced filter h left others =>
          refine ⟨?_, settled_of_fieldsResolved rest _ hproper.2 others⟩
          rw [if_pos filter]
          exact settledFilter_toJson (FilterNode.finite_of_ofJson j _ hproper.1 h.1) left
      | dropped filter h gone others => exact settled_of_fieldsResolved rest _ hproper.2 others

end

theorem settledFields_get? {fields : List (String × Json)} (h : SettledFields params fields)
    {key : String} (hkey : key ∈ filterKeys) {raw : Json} (hraw : Assoc.get? key fields = some raw) :
    SettledFilter params raw := by
  induction fields with
  | nil => cases hraw
  | cons head rest ih =>
      obtain ⟨k, j⟩ := head
      rw [Assoc.get?] at hraw
      rw [SettledFields] at h
      split at hraw
      · rename_i hk
        subst hk
        rw [if_pos hkey] at h
        rw [← Option.some.inj hraw]
        exact h.1
      · exact ih h.2 hraw

theorem readable_of_settledFields {fields : List (String × Json)} (h : SettledFields params fields) :
    ∀ key ∈ filterKeys, Readable key fields := by
  intro key hkey raw hraw
  rcases settledFields_get? h hkey hraw with ⟨tree?, htree, -⟩ | ⟨tree, htree, -⟩
  · exact ⟨tree?, htree⟩
  · exact ⟨some tree, htree.1⟩

/-- The filters of a settled object are replaced by themselves. -/
theorem foldl_changesOf_settled {fields : List (String × Json)} (h : SettledFields params fields) :
    (changesOf params fields).foldl applyFilterChange fields = fields := by
  refine foldl_applyFilterChange_same fun change hchange => ?_
  obtain ⟨key, hkey, hentry⟩ := List.mem_filterMap.mp hchange
  obtain ⟨value, hvalue, rfl⟩ := Option.map_eq_some_iff.mp hentry
  rw [changeOf] at hvalue
  cases hget : Assoc.get? key fields with
  | none => simp [hget] at hvalue
  | some raw =>
      rcases settledFields_get? h hkey hget with ⟨tree?, htree, hfree⟩ | ⟨tree, ⟨htree, hgate⟩, hsame⟩
      · simp only [hget, htree] at hvalue
        cases tree? with
        | none => cases hvalue
        | some tree => simp [hfree tree rfl] at hvalue
      · simp only [hget, htree, hgate, if_true, Option.some.injEq] at hvalue
        exact ⟨raw, hvalue ▸ hsame, rfl⟩

mutual

/-- Dropping closed conditions leaves a settled value as it is. -/
theorem resolveFilters_of_settled : ∀ (j : Json) (path : String), Settled params j →
    resolveFilters params path j = .ok j
  | .object fields, path, h => by
      rw [Settled] at h
      refine resolveFilters_object.mpr ⟨readable_of_settledFields h, fields, ?_, ?_⟩
      · exact resolveFiltersInFields_of_settled fields path h
      · rw [foldl_changesOf_settled h]
  | .array items, path, h => by
      rw [Settled] at h
      rw [resolveFilters, resolveFiltersInItems_of_settled items path 0 h]
      rfl
  | .null, _, _ => rfl
  | .bool _, _, _ => rfl
  | .number _, _, _ => rfl
  | .string _, _, _ => rfl

theorem resolveFiltersInItems_of_settled : ∀ (items : List Json) (path : String) (index : Nat),
    SettledItems params items → resolveFiltersInItems params path index items = .ok items
  | [], _, _, _ => rfl
  | j :: rest, path, index, h => by
      rw [resolveFiltersInItems, resolveFilters_of_settled j _ h.1,
        resolveFiltersInItems_of_settled rest path (index + 1) h.2]
      rfl

theorem resolveFiltersInFields_of_settled : ∀ (fields : List (String × Json)) (path : String),
    SettledFields params fields → resolveFiltersInFields params path fields = .ok fields
  | [], _, _ => rfl
  | (key, j) :: rest, path, h => by
      rw [SettledFields] at h
      have hrest := resolveFiltersInFields_of_settled rest path h.2
      refine resolveFiltersInFields_cons.mpr ⟨j, rest, ?_, hrest, rfl⟩
      by_cases hkey : key ∈ filterKeys
      · rw [if_pos (.inl hkey)]
      · rw [if_neg hkey] at h
        rcases h.1 with hgate | hsettled
        · rw [if_pos (.inr hgate)]
        · split
          · rfl
          · exact resolveFilters_of_settled j _ hsettled

end

/-- Dropping closed conditions a second time changes nothing. -/
theorem resolveFilters_again {j j' : Json} (proper : j.Proper)
    (h : resolveFilters params path j = .ok j') (path' : String) :
    resolveFilters params path' j' = .ok j' :=
  resolveFilters_of_settled j' path'
    (settled_of_filtersResolved j j' proper (filtersResolved j j' path proper h))

/-! ## Values without gates -/

mutual

/-- No filter that is searched for has gates. -/
def Ungated : Json → Prop
  | .object fields => UngatedFields fields
  | .array items => UngatedItems items
  | .null | .bool _ | .number _ | .string _ => True

def UngatedItems : List Json → Prop
  | [] => True
  | j :: rest => Ungated j ∧ UngatedItems rest

def UngatedFields : List (String × Json) → Prop
  | [] => True
  | (key, j) :: rest =>
      (if key ∈ filterKeys then ∀ tree, ¬ Gated j tree else key = gateKey ∨ Ungated j) ∧
        UngatedFields rest

end

mutual

theorem FiltersResolved.eq_of_ungated : ∀ (j j' : Json), Ungated j → FiltersResolved params j j' →
    j' = j
  | .object fields, _, hfree, h => by
      cases h with
      | object h =>
          rw [Ungated] at hfree
          rw [FieldsResolved.eq_of_ungated fields _ hfree h]
  | .array items, _, hfree, h => by
      cases h with
      | array h =>
          rw [Ungated] at hfree
          rw [ItemsResolved.eq_of_ungated items _ hfree h]
  | .null, _, _, h => by
      cases h
      rfl
  | .bool _, _, _, h => by
      cases h
      rfl
  | .number _, _, _, h => by
      cases h
      rfl
  | .string _, _, _, h => by
      cases h
      rfl

theorem ItemsResolved.eq_of_ungated : ∀ (items items' : List Json), UngatedItems items →
    ItemsResolved params items items' → items' = items
  | [], _, _, h => by
      cases h
      rfl
  | j :: rest, _, hfree, h => by
      cases h with
      | cons h others =>
          rw [FiltersResolved.eq_of_ungated j _ hfree.1 h,
            ItemsResolved.eq_of_ungated rest _ hfree.2 others]

theorem FieldsResolved.eq_of_ungated : ∀ (fields fields' : List (String × Json)),
    UngatedFields fields → FieldsResolved params fields fields' → fields' = fields
  | [], _, _, h => by
      cases h
      rfl
  | (key, j) :: rest, _, hfree, h => by
      rw [UngatedFields] at hfree
      cases h with
      | gate others => rw [FieldsResolved.eq_of_ungated rest _ hfree.2 others]
      | inner plain other h others =>
          rw [if_neg plain] at hfree
          rw [FiltersResolved.eq_of_ungated j _ (hfree.1.resolve_left other) h,
            FieldsResolved.eq_of_ungated rest _ hfree.2 others]
      | kept filter h others => rw [FieldsResolved.eq_of_ungated rest _ hfree.2 others]
      | replaced filter h left others =>
          rw [if_pos filter] at hfree
          exact absurd h (hfree.1 _)
      | dropped filter h gone others =>
          rw [if_pos filter] at hfree
          exact absurd h (hfree.1 _)

end

/-! ## Pipelines -/

namespace Pipeline

/-- One step is another without the closed conditions of its filters. -/
def StepResolved (params : Parameters) (s s' : Step) : Prop :=
  ∃ config, FiltersResolved params s.config config ∧ s' = { s with config }

/-- A pipeline without its closed conditions differs in the settings of its steps, each of which is
resolved at its own place. -/
theorem resolveFilters_steps {p q : Pipeline} (h : p.resolveFilters params = .ok q) :
    ∃ steps, q = { p with steps } ∧ List.Forall₂ (fun s s' => ∃ path config,
      RowPipeline.resolveFilters params path s.config = .ok config ∧ s' = { s with config })
        p.steps steps := by
  rw [resolveFilters] at h
  obtain ⟨steps, hsteps, h⟩ := bind_eq_ok h
  cases h
  refine ⟨steps, rfl, ?_⟩
  rw [← List.zipIdx_map_fst 0 p.steps, List.forall₂_map_left_iff]
  refine (forall₂_of_mapM hsteps).imp ?_
  rintro ⟨s, i⟩ s' hstep
  obtain ⟨config, hconfig, hstep⟩ := bind_eq_ok hstep
  cases hstep
  exact ⟨_, config, hconfig, rfl⟩

theorem resolveFilters_of_steps {p : Pipeline}
    (h : ∀ s ∈ p.steps, ∀ path, RowPipeline.resolveFilters params path s.config = .ok s.config) :
    p.resolveFilters params = .ok p := by
  have hstep : ∀ entry ∈ p.steps.zipIdx, (do
      let config ← RowPipeline.resolveFilters params
        ("steps[" ++ toString entry.2 ++ "].config") entry.1.config
      return { entry.1 with config }) = Except.ok entry.1 := by
    intro entry hentry
    rw [h entry.1 (List.fst_mem_of_mem_zipIdx hentry)]
    rfl
  have hsteps := mapM_eq_map hstep
  rw [List.zipIdx_map_fst] at hsteps
  exact congrArg (· >>= fun steps => pure { p with steps }) hsteps

/-- Dropping the closed conditions of a pipeline changes the filters with gates alone; doing so again
changes nothing, nor does it where there are no gates. -/
theorem resolveFilters_idempotent {p q : Pipeline} (proper : ∀ s ∈ p.steps, s.config.Proper)
    (h : p.resolveFilters params = .ok q) :
    q.resolveFilters params = .ok q ∧
      (∃ steps, q = { p with steps } ∧ List.Forall₂ (StepResolved params) p.steps steps) ∧
      ((∀ s ∈ p.steps, Ungated s.config) → q = p) := by
  obtain ⟨steps, rfl, hsteps⟩ := resolveFilters_steps h
  have hproper := (List.forall₂_and_left _ _).mpr ⟨proper, hsteps⟩
  refine ⟨?_, ⟨steps, rfl, ?_⟩, fun ungated => ?_⟩
  · have hsettled : ∀ s ∈ steps, ∀ path,
        RowPipeline.resolveFilters params path s.config = .ok s.config := by
      clear hsteps h proper
      generalize p.steps = originals at hproper
      induction hproper with
      | nil => exact fun s hs => absurd hs List.not_mem_nil
      | cons hfirst _ ih =>
          obtain ⟨hproper, path, config, hconfig, rfl⟩ := hfirst
          exact List.forall_mem_cons.mpr ⟨resolveFilters_again hproper hconfig, ih⟩
    exact resolveFilters_of_steps hsettled
  · refine hproper.imp ?_
    rintro s s' ⟨hproper, path, config, hconfig, rfl⟩
    exact ⟨config, filtersResolved _ _ path hproper hconfig, rfl⟩
  · have hfree := (List.forall₂_and_left _ _).mpr ⟨ungated, hproper⟩
    have hsame : List.Forall₂ (fun s s' => s = s') p.steps steps := by
      refine hfree.imp ?_
      rintro s s' ⟨hfree, hproper, path, config, hconfig, rfl⟩
      have hresolved := filtersResolved _ _ path hproper hconfig
      rw [FiltersResolved.eq_of_ungated _ _ hfree hresolved]
    rw [List.forall₂_eq_eq_eq] at hsame
    rw [← hsame]

/-- A condition that takes part if there is a parameter of the field's name. -/
def gatedCondition (field : String) : Json :=
  .object [("field", .string field), ("operator", .string "="), ("value", .string ("$" ++ field)),
    ("conditional", .object [("type", .string "parameter_exists"), ("parameter", .string field)])]

/-- A query with filters as given and a limit. -/
def salesPipeline (filters : List (String × Json)) : Pipeline where
  metadata := {}
  parameters := []
  steps := [⟨"sales", .query, .object (("data_source", .string "orders") :: filters ++
    [("limit", .number (.int 5))]), true⟩]
  output := "sales"
  order := ["sales"]
  dependencies := .ofList [("sales", [])]

/-- Of two conditions one is left, and the other filter goes. -/
theorem resolveFilters_idempotent_sales :
    let params : Parameters := .ofList [("region", .string "EU")]
    let p := salesPipeline [("filters", .array [gatedCondition "region", gatedCondition "year"]),
      ("where", gatedCondition "year")]
    let q := salesPipeline [("filters", gatedCondition "region")]
    p.resolveFilters params = .ok q ∧ q.resolveFilters params = .ok q := by
  intro params p q
  have hproper : ∀ s ∈ p.steps, s.config.Proper := by
    intro s hs
    rw [List.mem_singleton.mp hs]
    simp [gatedCondition, Json.Proper, Json.ProperFields, Json.ProperItems]
  have hfirst : p.resolveFilters params = .ok q := rfl
  exact ⟨hfirst, (resolveFilters_idempotent hproper hfirst).1⟩

end Pipeline

end RowPipeline
