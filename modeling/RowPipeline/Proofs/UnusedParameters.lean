import RowPipeline.Proofs.ExpressionReferences
import RowPipeline.Proofs.GatedFilters
import RowPipeline.Proofs.ParameterReads
import RowPipeline.Proofs.Resubstitution

/-!
# Parameters without references

Resolving a pipeline looks up the parameters that its settings refer to and no others, if the gates of
its filters are legible: the names that a gate looks up are found where they are searched. So a declared
parameter that draws the warning of no use makes no difference.
-/

namespace RowPipeline

open Json

variable {q q' : Parameters}

/-- Two maps have the same under some names. -/
def Parameters.AgreeOn (q q' : Parameters) (names : List String) : Prop :=
  ∀ name ∈ names, q.get? name = q'.get? name

namespace Parameters.AgreeOn

variable {names names' : List String}

theorem of_subset (h : q.AgreeOn q' names) (sub : names' ⊆ names) : q.AgreeOn q' names' :=
  fun name hname => h name (sub hname)

theorem left (h : q.AgreeOn q' (names ++ names')) : q.AgreeOn q' names :=
  h.of_subset (List.subset_append_left names names')

theorem right (h : q.AgreeOn q' (names ++ names')) : q.AgreeOn q' names' :=
  h.of_subset (List.subset_append_right names names')

end Parameters.AgreeOn

/-! ## References -/

theorem mem_itemReferences {items : List Json} {name : String} :
    name ∈ itemReferences items ↔ ∃ j ∈ items, name ∈ references j := by
  induction items with
  | nil => simp [itemReferences]
  | cons j rest ih => simp [itemReferences, ih]

theorem mem_fieldReferences {fields : List (String × Json)} {name : String} :
    name ∈ fieldReferences fields ↔ ∃ entry ∈ fields,
      (entry.1 = gateKey ∧ name ∈ gateReferences entry.2) ∨ name ∈ references entry.2 := by
  induction fields with
  | nil => simp [fieldReferences]
  | cons entry rest ih =>
      obtain ⟨key, j⟩ := entry
      rw [fieldReferences, List.mem_append, List.mem_append, ih]
      by_cases hkey : key = gateKey <;> simp [hkey]

/-- What a part of a value refers to, the value refers to. -/
theorem references_part {j v : Json} (hv : v ∈ j.parts) : references v ⊆ references j := by
  refine forall_parts (P := fun v => references v ⊆ references j) ?_ j (List.Subset.refl _) v hv
  intro v hsub member hmember name hname
  refine hsub ?_
  cases v with
  | array items => exact mem_itemReferences.mpr ⟨member, hmember, hname⟩
  | object fields =>
      obtain ⟨entry, hentry, rfl⟩ := List.mem_map.mp hmember
      exact mem_fieldReferences.mpr ⟨entry, hentry, .inr hname⟩
  | _ => exact absurd hmember List.not_mem_nil

theorem references_member {j v : Json} (hv : v ∈ j.members) : references v ⊆ references j :=
  references_part (member_mem_parts hv)

/-- The names of the gate of an object are among its references. -/
theorem gateReferences_subset {j gate : Json} (h : j.field? gateKey = some gate) :
    gateReferences gate ⊆ references j := by
  cases j with
  | object fields =>
      exact fun name hname =>
        mem_fieldReferences.mpr ⟨(gateKey, gate), Assoc.mem_of_get? h, .inl ⟨rfl, hname⟩⟩
  | _ => cases h

theorem mem_referencedParameters {j : Json} {name : String} :
    name ∈ referencedParameters j ↔ name ∈ references j := by
  rw [referencedParameters, mem_sortBy, Document.mem_foldl_addName]
  simp

/-! ## Gates -/

namespace Gate

/-- The names that a gate looks up. -/
def names : Gate → List String
  | .parameterExists name | .parameterNotEmpty name _ => [name]
  | .allParametersExist names => names
  | .expression text =>
      match Expr.parse text with
      | .ok e => e.params
      | .error _ => []

/-- Maps that agree on its names open a gate or close it alike. -/
theorem holds_agree {g : Gate} (h : q.AgreeOn q' g.names) : g.holds q = g.holds q' := by
  cases g with
  | parameterExists name =>
      rw [holds, holds, Record.contains, h name List.mem_cons_self, Record.contains]
  | parameterNotEmpty name emptyValues => rw [holds, holds, h name List.mem_cons_self]
  | allParametersExist names =>
      rw [holds, holds, Bool.eq_iff_iff, List.all_eq_true, List.all_eq_true]
      refine forall₂_congr fun name hname => ?_
      rw [Record.contains, h name hname, Record.contains]
  | expression text =>
      rw [holds, holds]
      rw [names] at h
      cases hparse : Expr.parse text with
      | error e => rfl
      | ok e =>
          rw [hparse] at h
          have heval : e.eval ⟨none, some q, fun _ => none⟩ = e.eval ⟨none, some q', fun _ => none⟩ :=
            Expr.eval_agree e (Expr.agreeIn_params h)
          simp only [Except.bind, heval]

/-- Whether the names that the gate of a condition looks up are found: the field with them has its main
name, and those of an expression are names to the scan for placeholders. -/
def Legible (condition : Json) : Gate → Prop
  | .parameterExists _ | .parameterNotEmpty _ _ =>
      ((condition.field? gateKey).bind fun gate => gate.field? "parameter").isSome = true
  | .allParametersExist _ =>
      ((condition.field? gateKey).bind fun gate => gate.field? "parameters").isSome = true
  | .expression text =>
      ∀ e, Expr.parse text = .ok e → ∀ name ∈ e.params, Piece.isName name.toList = true

theorem mem_gateReferences_parameter {gate : Json} {name : String}
    (h : gate.field? "parameter" = some (.string name)) : name ∈ gateReferences gate := by
  rw [gateReferences, h]
  exact List.mem_append_left _ List.mem_cons_self

theorem subset_gateReferences_parameters {gate : Json} {names : List String}
    (h : gate.field? "parameters" = some (.array (names.map .string))) :
    names ⊆ gateReferences gate := by
  intro name hname
  rw [gateReferences, h]
  refine List.mem_append_right _ (List.mem_filterMap.mpr ⟨.string name, ?_, rfl⟩)
  exact List.mem_map_of_mem hname

/-- The names of a legible gate are among the references of its condition. -/
theorem names_subset {condition : Json} {c : FilterCondition}
    (hc : FilterCondition.ofJson condition = .ok c) {g : Gate} (hg : g ∈ c.gate)
    (legible : g.Legible condition) : g.names ⊆ references condition := by
  obtain ⟨-, -, hgate⟩ := FilterCondition.ofJson_eq_ok hc
  obtain ⟨raw, hraw, hread, hsame⟩ := hgate g hg
  obtain ⟨fields, hmembers, hfields, hdecode⟩ := ofJson_eq_ok hread
  -- what is given for a name that the gate has under its main key stands there
  have hfound : ∀ {key : String},
      ((condition.field? gateKey).bind fun gate => gate.field? key).isSome = true →
      gateReferences raw ⊆ references condition ∧
        ∀ {layout : List (List String)} {s : Slots} {aliases : List String} {v : Json},
          slots layout fields = .ok s → key ≠ "type" → key :: aliases ∈ layout →
          (∀ names ∈ layout, names.headD "" = key → names = key :: aliases) →
          s.get key = .given v → raw.field? key = some v := by
    intro key hkey
    obtain ⟨w, hw⟩ := Option.isSome_iff_exists.mp hkey
    obtain ⟨gate, hfield, hw⟩ := Option.bind_eq_some_iff.mp hw
    obtain rfl := hsame gate hfield
    refine ⟨gateReferences_subset hfield, fun hs htype listed alone hv => ?_⟩
    have hgiven := slots_main hs listed alone ((hfields key htype).trans hw)
    rw [hw, Slot.given.inj (hgiven.symm.trans hv)]
  rcases hdecode with hexists | hnotEmpty | hall | hexpression
  · obtain ⟨s, name, hs, hname, rfl⟩ := decodeExists_eq_ok hexists
    obtain ⟨hsub, hstands⟩ := hfound legible
    have hfield := hstands hs (by decide) List.mem_cons_self (by decide) hname
    exact List.cons_subset.mpr ⟨hsub (mem_gateReferences_parameter hfield), List.nil_subset _⟩
  · obtain ⟨s, name, emptyValues, hs, hname, -, rfl⟩ := decodeNotEmpty_eq_ok hnotEmpty
    obtain ⟨hsub, hstands⟩ := hfound legible
    have hfield := hstands hs (by decide) List.mem_cons_self (by decide) hname
    exact List.cons_subset.mpr ⟨hsub (mem_gateReferences_parameter hfield), List.nil_subset _⟩
  · obtain ⟨s, names, hs, hnames, rfl⟩ := decodeAllExist_eq_ok hall
    obtain ⟨hsub, hstands⟩ := hfound legible
    have hfield := hstands hs (by decide) List.mem_cons_self (by decide) hnames
    exact fun name hname => hsub (subset_gateReferences_parameters hfield hname)
  · obtain ⟨s, text, hs, htext, rfl⟩ := decodeExpression_eq_ok hexpression
    have htext : .string text ∈ raw.members := hmembers ((slots_within hs).get htext)
    intro name hname
    rw [names] at hname
    split at hname
    · rename_i e hparse
      have hfound := Expr.params_subset_names hparse hname (legible e hparse name hname)
      exact references_member hraw (references_member htext hfound)
    · cases hname

end Gate

namespace FilterNode

mutual

/-- Maps that open the same gates leave the same of a tree. -/
theorem resolve_agree : ∀ n : FilterNode,
    (∀ c ∈ n.leaves, ∀ g ∈ c.gate, g.holds q = g.holds q') → n.resolve q = n.resolve q'
  | .leaf c, h => by
      have hgate : c.gate.all (Gate.holds q) = c.gate.all (Gate.holds q') := by
        have hc := h c (List.mem_singleton.mpr rfl)
        cases hgate : c.gate with
        | none => rfl
        | some g => exact hc g hgate
      rw [resolve, resolve, hgate]
  | .logical op children, h => by
      rw [leaves] at h
      rw [resolve, resolve, resolveAll_agree children h]

theorem resolveAll_agree : ∀ children : List FilterNode,
    (∀ c ∈ leavesOf children, ∀ g ∈ c.gate, g.holds q = g.holds q') →
      resolveAll q children = resolveAll q' children
  | [], _ => rfl
  | n :: rest, h => by
      rw [leavesOf] at h
      obtain ⟨hn, hrest⟩ := List.forall_mem_append.mp h
      rw [resolveAll, resolveAll, resolve_agree n hn, resolveAll_agree rest hrest]

end

end FilterNode

/-! ## Filters -/

namespace Json

mutual

/-- What stands for filters in a value. Filters and gates are not searched. -/
def filters : Json → List Json
  | .array items => filtersOfItems items
  | .object fields => filtersOfFields fields
  | _ => []

def filtersOfItems : List Json → List Json
  | [] => []
  | j :: rest => filters j ++ filtersOfItems rest

def filtersOfFields : List (String × Json) → List Json
  | [] => []
  | (key, j) :: rest =>
      (if key ∈ filterKeys then [j] else if key = gateKey then [] else filters j) ++
        filtersOfFields rest

end

mutual

theorem filters_subset_parts : ∀ j : Json, j.filters ⊆ j.parts
  | .array items => List.subset_cons_of_subset _ (filtersOfItems_subset_parts items)
  | .object fields => List.subset_cons_of_subset _ (filtersOfFields_subset_parts fields)
  | .null | .bool _ | .number _ | .string _ => List.nil_subset _

theorem filtersOfItems_subset_parts : ∀ items : List Json, filtersOfItems items ⊆ partsOfItems items
  | [] => List.nil_subset _
  | j :: rest => by
      rw [filtersOfItems, partsOfItems]
      exact List.append_subset.mpr
        ⟨List.subset_append_of_subset_left _ (filters_subset_parts j),
          List.subset_append_of_subset_right _ (filtersOfItems_subset_parts rest)⟩

theorem filtersOfFields_subset_parts : ∀ fields : List (String × Json),
    filtersOfFields fields ⊆ partsOfFields fields
  | [] => List.nil_subset _
  | (key, j) :: rest => by
      rw [filtersOfFields, partsOfFields]
      have hfirst : (if key ∈ filterKeys then [j] else if key = gateKey then [] else filters j) ⊆
          j.parts := by
        split
        · exact List.cons_subset.mpr ⟨self_mem_parts j, List.nil_subset _⟩
        · split
          · exact List.nil_subset _
          · exact filters_subset_parts j
      exact List.append_subset.mpr
        ⟨List.subset_append_of_subset_left _ hfirst,
          List.subset_append_of_subset_right _ (filtersOfFields_subset_parts rest)⟩

end

/-- Every gate of a filter is legible where it stands, or looks up names that are known anyway. -/
def LegibleGates (known : List String) (raw : Json) : Prop :=
  ∀ l ∈ raw.parts, ∀ c, FilterCondition.ofJson l = .ok c → ∀ g ∈ c.gate,
    g.Legible l ∨ g.names ⊆ known

end Json

/-- A filter of which two maps leave the same, as far as it reads. -/
def ResolvesAlike (q q' : Parameters) (raw : Json) : Prop :=
  ∀ tree, FilterNode.ofJson raw = .ok (some tree) → tree.resolve q = tree.resolve q'

theorem resolvesAlike {raw : Json} {known : List String} (legible : raw.LegibleGates known)
    (sub : references raw ⊆ known) (agree : q.AgreeOn q' known) : ResolvesAlike q q' raw := by
  intro tree htree
  refine tree.resolve_agree fun c hc g hg => Gate.holds_agree (agree.of_subset ?_)
  obtain ⟨l, hl, hread⟩ := FilterNode.readFrom_of_ofJson raw tree htree c hc
  rcases legible l hl c hread g hg with hlegible | hknown
  · exact fun name hname => sub (references_part hl (Gate.names_subset hread hg hlegible hname))
  · exact hknown

theorem filterChange_agree {path key : String} {fields : List (String × Json)}
    (h : ∀ raw, Assoc.get? key fields = some raw → ResolvesAlike q q' raw) :
    filterChange q path key fields = filterChange q' path key fields := by
  cases hraw : Assoc.get? key fields with
  | none => simp only [filterChange, hraw]
  | some raw =>
      simp only [filterChange, hraw]
      split
      · rfl
      · rfl
      · rename_i tree htree
        rw [h raw hraw tree htree]

theorem get?_mem_filters {key : String} (hkey : key ∈ filterKeys) {fields : List (String × Json)}
    {raw : Json} (h : Assoc.get? key fields = some raw) : raw ∈ filtersOfFields fields := by
  induction fields with
  | nil => cases h
  | cons entry rest ih =>
      obtain ⟨k, j⟩ := entry
      rw [Assoc.get?] at h
      rw [filtersOfFields]
      split at h
      · rename_i hk
        rw [hk, if_pos hkey, Option.some.inj h]
        exact List.mem_append_left _ List.mem_cons_self
      · exact List.mem_append_right _ (ih h)

mutual

/-- Maps that resolve every filter alike resolve a value alike, or fail alike. -/
theorem resolveFilters_agree : ∀ (j : Json) (path : String),
    (∀ raw ∈ j.filters, ResolvesAlike q q' raw) → resolveFilters q path j = resolveFilters q' path j
  | .object fields, path, h => by
      have hchanges : filterKeys.mapM (fun key => filterChange q path key fields) =
          filterKeys.mapM fun key => filterChange q' path key fields :=
        mapM_congr fun key hkey => filterChange_agree fun raw hraw => h raw (get?_mem_filters hkey hraw)
      rw [resolveFilters, resolveFilters, hchanges, resolveFiltersInFields_agree fields path h]
  | .array items, path, h => by
      rw [resolveFilters, resolveFilters, resolveFiltersInItems_agree items path 0 h]
  | .null, _, _ | .bool _, _, _ | .number _, _, _ | .string _, _, _ => by
      unfold resolveFilters
      rfl

theorem resolveFiltersInItems_agree : ∀ (items : List Json) (path : String) (index : Nat),
    (∀ raw ∈ filtersOfItems items, ResolvesAlike q q' raw) →
      resolveFiltersInItems q path index items = resolveFiltersInItems q' path index items
  | [], _, _, _ => by rw [resolveFiltersInItems, resolveFiltersInItems]
  | j :: rest, path, index, h => by
      rw [filtersOfItems] at h
      obtain ⟨hj, hrest⟩ := List.forall_mem_append.mp h
      rw [resolveFiltersInItems, resolveFiltersInItems, resolveFilters_agree j _ hj,
        resolveFiltersInItems_agree rest path (index + 1) hrest]

theorem resolveFiltersInFields_agree : ∀ (fields : List (String × Json)) (path : String),
    (∀ raw ∈ filtersOfFields fields, ResolvesAlike q q' raw) →
      resolveFiltersInFields q path fields = resolveFiltersInFields q' path fields
  | [], _, _ => by rw [resolveFiltersInFields, resolveFiltersInFields]
  | (key, j) :: rest, path, h => by
      rw [filtersOfFields] at h
      obtain ⟨hj, hrest⟩ := List.forall_mem_append.mp h
      rw [resolveFiltersInFields, resolveFiltersInFields, resolveFiltersInFields_agree rest path hrest]
      by_cases hkey : key ∈ filterKeys ∨ key = gateKey
      · rw [if_pos (by simpa using hkey), if_pos (by simpa using hkey)]
      · obtain ⟨hfilter, hgate⟩ := not_or.mp hkey
        rw [if_neg hfilter, if_neg hgate] at hj
        rw [if_neg (by simpa using hkey), if_neg (by simpa using hkey), resolveFilters_agree j _ hj]

end

/-! ## Putting in parameters -/

/-- A text of whose references two maps have the same. -/
def TextAgrees (q q' : Parameters) (text : String) : Prop := q.AgreeOn q' (Piece.names text)

/-- A value of whose texts, those in gates apart, this holds. -/
abbrev TextsAgree (q q' : Parameters) (j : Json) : Prop :=
  j.Texts (TextAgrees q q') (TextAgrees q q')

abbrev ItemTextsAgree (q q' : Parameters) (items : List Json) : Prop :=
  ItemTexts (TextAgrees q q') (TextAgrees q q') items

abbrev FieldTextsAgree (q q' : Parameters) (fields : List (String × Json)) : Prop :=
  FieldTexts (TextAgrees q q') (TextAgrees q q') fields

theorem Piece.fill_congr {replace replace' : String → Option String} {text : String}
    (h : ∀ name ∈ names text, replace name = replace' name) :
    fill replace text = fill replace' text := by
  refine congrArg String.ofList (List.flatMap_congr fun piece hpiece => ?_)
  cases piece with
  | char c => rfl
  | reference name source =>
      dsimp only
      rw [h name (mem_names.mpr ⟨source, hpiece⟩)]

theorem substituteExpression_agree {text : String} (h : TextAgrees q q' text) :
    substituteExpression q text = substituteExpression q' text :=
  Piece.fill_congr fun name hname => by rw [h name hname]

theorem substituteString_agree {text : String} (h : TextAgrees q q' text) :
    substituteString q text = substituteString q' text := by
  unfold substituteString
  split
  · rename_i name source hscan
    rw [h name (Piece.mem_names_of_scan hscan)]
  · exact congrArg Json.string (Piece.fill_congr fun name hname => by rw [h name hname])

/-- Where the texts of expressions are like all others, a field is no different from its value. -/
theorem fieldTexts_cons {P : String → Prop} {key : String} {j : Json} {rest : List (String × Json)} :
    FieldTexts P P ((key, j) :: rest) ↔ (key = gateKey ∨ j.Texts P P) ∧ FieldTexts P P rest := by
  rw [FieldTexts]
  refine and_congr_left' (or_congr_right ?_)
  split
  · rename_i text hformula
    rw [(formula?_eq_some hformula).2]
    rfl
  · rfl

theorem substituteField_agree {key : String} {j : Json}
    (h : key = gateKey ∨ TextsAgree q q' j)
    (hvalue : TextsAgree q q' j → substituteValue q j = substituteValue q' j) :
    substituteField q key j = substituteField q' key j := by
  unfold substituteField
  split
  · rfl
  · rename_i hgate
    have hfield := h.resolve_left hgate
    split
    · rename_i text hformula
      rw [(formula?_eq_some hformula).2] at hfield
      rw [substituteExpression_agree hfield]
    · exact hvalue hfield

mutual

/-- Maps that agree on the references in every text make the same of a value. -/
theorem substituteValue_agree : ∀ {j : Json}, TextsAgree q q' j →
    substituteValue q j = substituteValue q' j
  | .string _, h => substituteString_agree h
  | .array _, h => by rw [substituteValue, substituteValue, substituteItems_agree h]
  | .object _, h => by rw [substituteValue, substituteValue, substituteFields_agree h]
  | .null, _ | .bool _, _ | .number _, _ => rfl

theorem substituteItems_agree : ∀ {items : List Json}, ItemTextsAgree q q' items →
    substituteItems q items = substituteItems q' items
  | [], _ => rfl
  | _ :: _, h => by
      rw [substituteItems, substituteItems, substituteValue_agree h.1, substituteItems_agree h.2]

theorem substituteFields_agree : ∀ {fields : List (String × Json)}, FieldTextsAgree q q' fields →
    substituteFields q fields = substituteFields q' fields
  | [], _ => rfl
  | (_, _) :: _, h => by
      obtain ⟨hfield, hrest⟩ := fieldTexts_cons.mp h
      rw [substituteFields_cons, substituteFields_cons,
        substituteField_agree hfield substituteValue_agree, substituteFields_agree hrest]

end

/-! ## The texts of what was resolved -/

theorem fieldTexts_insert {P : String → Prop} {key : String} {j : Json} (hj : j.Texts P P)
    {fields : List (String × Json)} (h : FieldTexts P P fields) :
    FieldTexts P P (Assoc.insert key j fields) := by
  induction fields with
  | nil => exact fieldTexts_cons.mpr ⟨.inr hj, trivial⟩
  | cons entry rest ih =>
      obtain ⟨k, v⟩ := entry
      rw [Assoc.insert]
      split
      · exact fieldTexts_cons.mpr ⟨.inr hj, h.2⟩
      · exact ⟨h.1, ih h.2⟩

theorem fieldTexts_erase {P : String → Prop} {key : String} {fields : List (String × Json)}
    (h : FieldTexts P P fields) : FieldTexts P P (Assoc.erase key fields) := by
  induction fields with
  | nil => exact h
  | cons entry rest ih =>
      obtain ⟨k, v⟩ := entry
      rw [Assoc.erase]
      split
      · exact h.2
      · exact ⟨h.1, ih h.2⟩

mutual

/-- Texts of a value refer to what the value refers to. -/
theorem texts_of_references : ∀ j : Json, q.AgreeOn q' (references j) → TextsAgree q q' j
  | .string _, h => h
  | .array items, h => itemTexts_of_references items h
  | .object fields, h => fieldTexts_of_references fields h
  | .null, _ | .bool _, _ | .number _, _ => trivial

theorem itemTexts_of_references : ∀ items : List Json, q.AgreeOn q' (itemReferences items) →
    ItemTextsAgree q q' items
  | [], _ => trivial
  | j :: rest, h => by
      rw [itemReferences] at h
      exact ⟨texts_of_references j h.left, itemTexts_of_references rest h.right⟩

theorem fieldTexts_of_references : ∀ fields : List (String × Json),
    q.AgreeOn q' (fieldReferences fields) → FieldTextsAgree q q' fields
  | [], _ => trivial
  | (key, j) :: rest, h => by
      rw [fieldReferences] at h
      exact fieldTexts_cons.mpr
        ⟨.inr (texts_of_references j h.left.right), fieldTexts_of_references rest h.right⟩

end

section Values

variable {P : String → Prop}

mutual

/-- A value that was read from JSON is written with its texts. -/
theorem texts_toJson_ofJson : ∀ j : Json, j.Texts P P → (Value.ofJson j).toJson.Texts P P
  | .array items, h => itemTexts_toJson_ofJson items h
  | .object fields, h => fieldTexts_toJson_ofJson fields h
  | .number (.int _), _ => trivial
  | .number (.big _), _ | .number (.float _), _ => by
      rw [Value.ofJson, Value.toJson, Json.ofFloat]
      split <;> trivial
  | .string _, h => h
  | .null, _ | .bool _, _ => trivial

theorem itemTexts_toJson_ofJson : ∀ items : List Json, ItemTexts P P items →
    ItemTexts P P (Value.itemsToJson (Value.itemsOfJson items))
  | [], _ => trivial
  | j :: rest, h => ⟨texts_toJson_ofJson j h.1, itemTexts_toJson_ofJson rest h.2⟩

theorem fieldTexts_toJson_ofJson : ∀ fields : List (String × Json), FieldTexts P P fields →
    FieldTexts P P (Value.fieldsToJson (Value.fieldsOfJson fields))
  | [], _ => trivial
  | (_, j) :: rest, h => by
      obtain ⟨hfield, hrest⟩ := fieldTexts_cons.mp h
      exact fieldTexts_cons.mpr
        ⟨hfield.imp_right (texts_toJson_ofJson j), fieldTexts_toJson_ofJson rest hrest⟩

end

end Values

theorem textAgrees_of_names {text : String} (h : Piece.names text = []) : TextAgrees q q' text := by
  intro name hname
  rw [h] at hname
  cases hname

/-- A condition is written with the texts of what it was read from, but for its gate. -/
theorem FilterCondition.texts_toJson {j : Json} {c : FilterCondition} (hc : ofJson j = .ok c)
    (agree : q.AgreeOn q' (references j)) : TextsAgree q q' c.toJson := by
  obtain ⟨hfield, hvalue, -⟩ := ofJson_eq_ok hc
  have htexts : ∀ v ∈ j.members, TextsAgree q q' v :=
    fun v hv => texts_of_references v (agree.of_subset (references_member hv))
  have hoperator : TextAgrees q q' c.operator.sql := by
    refine textAgrees_of_names ?_
    cases c.operator <;> rfl
  have hwritten : TextsAgree q q' c.value.toJson := by
    rcases hvalue with hnull | ⟨v, hv, hvalue⟩
    · rw [hnull]
      trivial
    · rw [hvalue]
      exact texts_toJson_ofJson v (htexts v hv)
  have hgate : FieldTextsAgree q q' (c.gate.map fun g => ("conditional", g.toJson)).toList := by
    cases c.gate with
    | none => trivial
    | some g => exact fieldTexts_cons.mpr ⟨.inl rfl, trivial⟩
  exact fieldTexts_cons.mpr ⟨.inr (htexts _ hfield), fieldTexts_cons.mpr ⟨.inr hoperator,
    fieldTexts_cons.mpr ⟨.inr hwritten, hgate⟩⟩⟩

mutual

theorem FilterNode.texts_toJson : ∀ n : FilterNode,
    (∀ c ∈ n.leaves, TextsAgree q q' c.toJson) → TextsAgree q q' n.toJson
  | .leaf c, h => h c (List.mem_singleton.mpr rfl)
  | .logical op children, h => by
      have hop : TextAgrees q q' op.keyword := by
        refine textAgrees_of_names ?_
        cases op <;> rfl
      exact fieldTexts_cons.mpr ⟨.inr hop,
        fieldTexts_cons.mpr ⟨.inr (FilterNode.texts_toJsonAll children h), trivial⟩⟩

theorem FilterNode.texts_toJsonAll : ∀ children : List FilterNode,
    (∀ c ∈ FilterNode.leavesOf children, TextsAgree q q' c.toJson) →
      ItemTextsAgree q q' (FilterNode.toJsonAll children)
  | [], _ => trivial
  | n :: rest, h => by
      obtain ⟨hn, hrest⟩ := List.forall_mem_append.mp h
      exact ⟨FilterNode.texts_toJson n hn, FilterNode.texts_toJsonAll rest hrest⟩

end

/-- What is left of a filter is written with texts of the filter. -/
theorem texts_of_resolve {params : Parameters} {raw : Json} (agree : q.AgreeOn q' (references raw))
    {tree left : FilterNode} (htree : FilterNode.ofJson raw = .ok (some tree))
    (hleft : tree.resolve params = some left) : TextsAgree q q' left.toJson := by
  refine left.texts_toJson fun c hc => ?_
  obtain ⟨l, hl, hread⟩ :=
    FilterNode.readFrom_of_ofJson raw tree htree c (FilterNode.leaves_resolve tree left hleft hc)
  exact FilterCondition.texts_toJson hread (agree.of_subset (references_part hl))

theorem texts_of_changesOf {params : Parameters} {fields : List (String × Json)}
    (agree : q.AgreeOn q' (fieldReferences fields)) :
    ∀ change ∈ changesOf params fields, ∀ j ∈ change.2, TextsAgree q q' j := by
  intro change hchange j hj
  obtain ⟨key, -, hkey⟩ := List.mem_filterMap.mp hchange
  obtain ⟨value, hvalue, rfl⟩ := Option.map_eq_some_iff.mp hkey
  obtain rfl : value = some j := hj
  rw [changeOf] at hvalue
  split at hvalue
  · cases hvalue
  · rename_i raw hraw
    split at hvalue
    · rename_i tree htree
      split at hvalue
      · obtain ⟨left, hleft, rfl⟩ := Option.map_eq_some_iff.mp (Option.some.inj hvalue)
        have hsub : references raw ⊆ fieldReferences fields := fun name hname =>
          mem_fieldReferences.mpr ⟨(key, raw), Assoc.mem_of_get? hraw, .inr hname⟩
        exact texts_of_resolve (agree.of_subset hsub) htree hleft
      · cases hvalue
    · cases hvalue

theorem fieldTexts_foldl {P : String → Prop} {changes : List (String × Option Json)}
    (hchanges : ∀ change ∈ changes, ∀ j ∈ change.2, j.Texts P P) {fields : List (String × Json)}
    (h : FieldTexts P P fields) : FieldTexts P P (changes.foldl applyFilterChange fields) := by
  induction changes generalizing fields with
  | nil => exact h
  | cons change rest ih =>
      obtain ⟨hchange, hrest⟩ := List.forall_mem_cons.mp hchanges
      refine ih hrest ?_
      obtain ⟨key, value⟩ := change
      cases value with
      | none => exact fieldTexts_erase h
      | some j => exact fieldTexts_insert (hchange j rfl) h

section Resolved

variable {params : Parameters}

mutual

/-- Dropping closed conditions brings in no texts. -/
theorem texts_resolveFilters : ∀ (j j' : Json) (path : String), q.AgreeOn q' (references j) →
    resolveFilters params path j = .ok j' → TextsAgree q q' j'
  | .object fields, j', path, agree, h => by
      obtain ⟨-, inner, hinner, rfl⟩ := resolveFilters_object.mp h
      exact fieldTexts_foldl (texts_of_changesOf agree)
        (fieldTexts_resolveFilters fields inner path agree hinner)
  | .array items, j', path, agree, h => by
      rw [resolveFilters] at h
      obtain ⟨items', hitems, h⟩ := bind_eq_ok h
      cases h
      exact itemTexts_resolveFilters items items' path 0 agree hitems
  | .null, j', _, _, h | .bool _, j', _, _, h | .number _, j', _, _, h => by
      unfold resolveFilters at h
      cases h
      trivial
  | .string _, j', _, agree, h => by
      unfold resolveFilters at h
      cases h
      exact agree

theorem itemTexts_resolveFilters : ∀ (items items' : List Json) (path : String) (index : Nat),
    q.AgreeOn q' (itemReferences items) → resolveFiltersInItems params path index items = .ok items' →
      ItemTextsAgree q q' items'
  | [], items', _, _, _, h => by
      rw [resolveFiltersInItems] at h
      cases h
      trivial
  | j :: rest, items', path, index, agree, h => by
      rw [resolveFiltersInItems] at h
      obtain ⟨j', hj', h⟩ := bind_eq_ok h
      obtain ⟨rest', hrest, h⟩ := bind_eq_ok h
      cases h
      rw [itemReferences] at agree
      exact ⟨texts_resolveFilters j j' _ agree.left hj',
        itemTexts_resolveFilters rest rest' path (index + 1) agree.right hrest⟩

theorem fieldTexts_resolveFilters : ∀ (fields fields' : List (String × Json)) (path : String),
    q.AgreeOn q' (fieldReferences fields) → resolveFiltersInFields params path fields = .ok fields' →
      FieldTextsAgree q q' fields'
  | [], fields', _, _, h => by
      rw [resolveFiltersInFields] at h
      cases h
      trivial
  | (key, j) :: rest, fields', path, agree, h => by
      obtain ⟨j', rest', hj', hrest, rfl⟩ := resolveFiltersInFields_cons.mp h
      rw [fieldReferences] at agree
      have hvalue : TextsAgree q q' j' := by
        split at hj'
        · rw [hj']
          exact texts_of_references j agree.left.right
        · exact texts_resolveFilters j j' _ agree.left.right hj'
      exact fieldTexts_cons.mpr
        ⟨.inr hvalue, fieldTexts_resolveFilters rest rest' path agree.right hrest⟩

end

end Resolved

/-! ## Pipelines -/

namespace Pipeline

/-- A pipeline without its closed conditions and with its parameters put in. -/
def resolved (params : Parameters) (p : Pipeline) : Except ParseError Pipeline :=
  (p.resolveFilters params).map (substitute params)

/-- The parameters that the steps refer to. -/
def referenced (p : Pipeline) : List String := p.steps.flatMap fun s => referencedParameters s.config

/-- Every gate in the filters of the steps is legible, or the steps refer to its names elsewhere. -/
def LegibleGates (p : Pipeline) : Prop :=
  ∀ s ∈ p.steps, ∀ raw ∈ s.config.filters, raw.LegibleGates p.referenced

theorem references_subset_referenced {p : Pipeline} {s : Step} (hs : s ∈ p.steps) :
    references s.config ⊆ p.referenced :=
  fun _ hname => List.mem_flatMap.mpr ⟨s, hs, mem_referencedParameters.mpr hname⟩

theorem resolveFilters_agree {p : Pipeline} (legible : p.LegibleGates)
    (agree : q.AgreeOn q' p.referenced) : p.resolveFilters q = p.resolveFilters q' := by
  have hconfig : ∀ s ∈ p.steps, ∀ path, RowPipeline.resolveFilters q path s.config =
      RowPipeline.resolveFilters q' path s.config := by
    intro s hs path
    refine RowPipeline.resolveFilters_agree s.config path fun raw hraw => ?_
    refine resolvesAlike (legible s hs raw hraw) (fun name hname => ?_) agree
    have hpart := filters_subset_parts s.config hraw
    exact references_subset_referenced hs (references_part hpart hname)
  rw [resolveFilters, resolveFilters]
  congr 1
  refine mapM_congr ?_
  rintro ⟨s, i⟩ hentry
  dsimp only
  rw [hconfig s (List.fst_mem_of_mem_zipIdx hentry)]

/-- In what is left when closed conditions are dropped, the same is put in. -/
theorem substitute_agree {p r : Pipeline} (agree : q.AgreeOn q' p.referenced) {params : Parameters}
    (h : p.resolveFilters params = .ok r) : r.substitute q = r.substitute q' := by
  obtain ⟨steps, rfl, hsteps⟩ := resolveFilters_steps h
  have hsame : ∀ s' ∈ steps, substituteValue q s'.config = substituteValue q' s'.config := by
    intro s' hs'
    obtain ⟨s, hs, path, config, hconfig, rfl⟩ := exists_of_forall₂ hsteps hs'
    have hreferences := agree.of_subset (references_subset_referenced hs)
    exact substituteValue_agree (texts_resolveFilters s.config config path hreferences hconfig)
  have hmap : steps.map (fun s => { s with config := substituteValue q s.config }) =
      steps.map fun s => { s with config := substituteValue q' s.config } :=
    List.map_congr_left fun s' hs' => by rw [hsame s' hs']
  rw [substitute, substitute, hmap]

theorem resolved_agree {p : Pipeline} (legible : p.LegibleGates) (agree : q.AgreeOn q' p.referenced) :
    p.resolved q = p.resolved q' := by
  rw [resolved, resolved, ← resolveFilters_agree legible agree]
  cases hresolved : p.resolveFilters q with
  | error e => rfl
  | ok r => exact congrArg Except.ok (substitute_agree agree hresolved)

end Pipeline

namespace Document

/-- A parameter that draws the warning is in none of the settings. -/
theorem unused_of_mem_warnings {p : Pipeline} {limit : UInt64} {defaulted : Bool} {name : String}
    (h : "Parameter '" ++ name ++ "' is declared but never used" ∈ warnings p limit defaulted) :
    name ∉ p.referenced := by
  -- the other warnings differ from it in their first two letters
  have hother : ∀ {text : String}, text.toList.take 2 ≠ ['P', 'a'] →
      "Parameter '" ++ name ++ "' is declared but never used" ≠ text := by
    rintro text hstart rfl
    rw [String.append_assoc, String.toList_append] at hstart
    exact hstart rfl
  have htake : ∀ start rest : String, 2 ≤ start.toList.length →
      (start ++ rest).toList.take 2 = start.toList.take 2 := by
    intro start rest hlength
    rw [String.toList_append, List.take_append_of_le_length hlength]
  rw [warnings, List.mem_append, List.mem_append, List.mem_append] at h
  rcases h with ((hdescription | hunused) | hcount) | houtput
  · split at hdescription
    · exact absurd (List.mem_singleton.mp hdescription) (hother (by decide))
    · cases hdescription
  · obtain ⟨d, hd, htext⟩ := List.mem_map.mp hunused
    obtain ⟨-, hd⟩ := List.mem_filter.mp hd
    have hname : d.name = name := by simpa using htext
    rw [hname, decide_eq_true_eq] at hd
    intro hmem
    obtain ⟨s, hs, hmem⟩ := List.mem_flatMap.mp hmem
    exact hd (List.mem_flatMap.mpr ⟨s, hs, mem_referencedParameters.mp hmem⟩)
  · split at hcount
    · refine absurd (List.mem_singleton.mp hcount) (hother ?_)
      simp only [String.append_assoc]
      rw [htake _ _ (by decide)]
      decide
    · cases hcount
  · split at houtput
    · refine absurd (List.mem_singleton.mp houtput) (hother ?_)
      rw [String.append_assoc, htake _ _ (by decide)]
      decide
    · cases houtput

theorem unused_of_validate {doc : Json} {p : Pipeline} (hp : Pipeline.ofJson doc = .ok p)
    {limit : UInt64} {name : String}
    (h : "Parameter '" ++ name ++ "' is declared but never used" ∈ (validate doc limit).warnings) :
    name ∉ p.referenced := by
  rw [validate] at h
  simp only [Pipeline.read_of_ofJson hp] at h
  exact unused_of_mem_warnings h

end Document

namespace Pipeline

/-- Resolving a pipeline depends on the parameters that its steps refer to and on no others, given
legible gates. A declared parameter that draws the warning of no use can have any value, or none. -/
theorem resolved_of_referenced {p : Pipeline} (legible : p.LegibleGates) :
    (∀ q q' : Parameters, (∀ name ∈ p.referenced, q.get? name = q'.get? name) →
        p.resolved q = p.resolved q') ∧
      ∀ (doc : Json) (limit : UInt64) (name : String), ofJson doc = .ok p →
        "Parameter '" ++ name ++ "' is declared but never used" ∈
          (Document.validate doc limit).warnings →
        ∀ q q' : Parameters, (∀ other ≠ name, q.get? other = q'.get? other) →
          p.resolved q = p.resolved q' := by
  refine ⟨fun q q' agree => resolved_agree legible agree, ?_⟩
  intro doc limit name hp hwarning q q' agree
  have hunused := Document.unused_of_validate hp hwarning
  refine resolved_agree legible fun other hother => agree other ?_
  rintro rfl
  exact hunused hother

end Pipeline

/-- A condition whose gate names its parameter under `key`. -/
def gatedRegion (key : String) : Json :=
  .object [("field", .string "region"), ("operator", .string "="), ("value", .string "EU"),
    ("conditional", .object [("type", .string "parameter_exists"), (key, .string "region")])]

/-- A query with one filter, and two parameters. -/
def gatedDocument (filter : Json) : Json :=
  .object [
    ("parameters", .array [.object [("name", .string "region")], .object [("name", .string "spare")]]),
    ("steps", .array [.object [("name", .string "sales"), ("type", .string "query"),
      ("config", .object [("data_source", .string "orders"), ("filters", filter)])]])]

/-- What the document is read as. -/
def gatedPipeline (filter : Json) : Pipeline where
  metadata := {}
  parameters := [{ name := "region" }, { name := "spare" }]
  steps := [⟨"sales", .query, .object [("data_source", .string "orders"), ("filters", filter)], true⟩]
  output := "sales"
  order := ["sales"]
  dependencies := .ofList [("sales", [])]

theorem read_gatedDocument (filter : Json) :
    Pipeline.ofJson (gatedDocument filter) = .ok (gatedPipeline filter) := rfl

/-- The gate looks up one of the parameters, and the other one is of no use. -/
theorem resolved_of_referenced_gated :
    let p := gatedPipeline (gatedRegion "parameter")
    let q : Parameters := .ofList [("region", .string "EU"), ("spare", .bool true)]
    p.LegibleGates ∧ Pipeline.ofJson (gatedDocument (gatedRegion "parameter")) = .ok p ∧
      "Parameter '" ++ "spare" ++ "' is declared but never used" ∈
        (Document.validate (gatedDocument (gatedRegion "parameter")) 50).warnings ∧
      p.resolved q = p.resolved (q.erase "spare") := by
  intro p q
  have hlegible : p.LegibleGates := by
    intro s hs raw hraw l hl c hc g hg
    rw [List.mem_singleton.mp hs] at hraw
    rw [List.mem_singleton.mp hraw] at hl
    simp only [gatedRegion, parts, partsOfFields, List.cons_append, List.nil_append, List.mem_cons,
      List.not_mem_nil, or_false] at hl
    -- only the condition itself reads as one
    rcases hl with rfl | rfl | rfl | rfl | rfl | rfl | rfl
    · cases hc
      cases hg
      exact .inl rfl
    all_goals cases hc
  have hread : Pipeline.ofJson (gatedDocument (gatedRegion "parameter")) = .ok p :=
    read_gatedDocument _
  have hwarning : "Parameter '" ++ "spare" ++ "' is declared but never used" ∈
      (Document.validate (gatedDocument (gatedRegion "parameter")) 50).warnings := by
    decide +kernel
  refine ⟨hlegible, hread, hwarning, ?_⟩
  refine (Pipeline.resolved_of_referenced hlegible).2 _ 50 "spare" hread hwarning _ _ ?_
  exact fun other hother => (Assoc.get?_erase_of_ne hother.symm).symm

/-- A gate may name its parameter under another key. The name is not found there, and a parameter that
opens the gate draws the warning of no use. -/
theorem resolved_depends_on_unreferenced :
    let p := gatedPipeline (gatedRegion "param")
    let q : Parameters := .ofList [("region", .string "EU")]
    Pipeline.ofJson (gatedDocument (gatedRegion "param")) = .ok p ∧
      "Parameter '" ++ "region" ++ "' is declared but never used" ∈
        (Document.validate (gatedDocument (gatedRegion "param")) 50).warnings ∧
      (∀ name ∈ p.referenced, q.get? name = (q.erase "region").get? name) ∧
      p.resolved q ≠ p.resolved (q.erase "region") := by
  intro p q
  have hopen : p.resolved q = .ok (gatedPipeline (gatedRegion "parameter")) := rfl
  have hclosed : p.resolved (q.erase "region") = .ok { p with steps :=
      [⟨"sales", .query, .object [("data_source", .string "orders")], true⟩] } := rfl
  have hnone : p.referenced = [] := by
    decide +kernel
  refine ⟨read_gatedDocument _, by decide +kernel, fun name hname => ?_, fun hsame => ?_⟩
  · rw [hnone] at hname
    cases hname
  rw [hopen, hclosed] at hsame
  have hsteps := congrArg Pipeline.steps (Except.ok.inj hsame)
  have hconfig := congrArg Step.config (List.cons.inj hsteps).1
  cases hconfig

end RowPipeline
