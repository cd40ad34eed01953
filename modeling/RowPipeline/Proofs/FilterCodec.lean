import RowPipeline.Filter.Codec
import RowPipeline.Proofs.Decoding
import RowPipeline.Proofs.Doubles
import RowPipeline.Proofs.Journals

/-!
# Filters as JSON

The conditions of a filter tree are read from parts of a JSON value. So their values are finite: the
numbers of JSON are finite, and so are the doubles of its integers. A tree with finite values is written
so that it reads as itself.
-/

namespace RowPipeline

namespace Json

mutual

/-- What holds of every value a JSON text can stand for: its numbers are finite, and an object has each
of its names once. -/
def Proper : Json → Prop
  | .number (.float x) => x.isFinite = true
  | .array items => ProperItems items
  | .object fields => (fields.map Prod.fst).Nodup ∧ ProperFields fields
  | .null | .bool _ | .number (.int _) | .number (.big _) | .string _ => True

def ProperItems : List Json → Prop
  | [] => True
  | j :: rest => j.Proper ∧ ProperItems rest

def ProperFields : List (String × Json) → Prop
  | [] => True
  | (_, j) :: rest => j.Proper ∧ ProperFields rest

end

theorem properItems_iff (items : List Json) : ProperItems items ↔ ∀ j ∈ items, j.Proper := by
  induction items with
  | nil => simp [ProperItems]
  | cons j rest ih => simp [ProperItems, ih]

theorem properFields_iff (fields : List (String × Json)) :
    ProperFields fields ↔ ∀ entry ∈ fields, entry.2.Proper := by
  induction fields with
  | nil => simp [ProperFields]
  | cons entry rest ih =>
      obtain ⟨key, j⟩ := entry
      simp [ProperFields, ih]

theorem Proper.items {items : List Json} (h : (Json.array items).Proper) :
    ∀ j ∈ items, j.Proper := by
  rw [Proper] at h
  exact (properItems_iff items).mp h

theorem Proper.nodup {fields : List (String × Json)} (h : (Json.object fields).Proper) :
    (fields.map Prod.fst).Nodup := by
  rw [Proper] at h
  exact h.1

theorem Proper.fields {fields : List (String × Json)} (h : (Json.object fields).Proper) :
    ∀ entry ∈ fields, entry.2.Proper := by
  rw [Proper] at h
  exact (properFields_iff fields).mp h.2

theorem Proper.get? {fields : List (String × Json)} (h : (Json.object fields).Proper) {key : String}
    {j : Json} (hj : Assoc.get? key fields = some j) : j.Proper :=
  h.fields _ (Assoc.mem_of_get? hj)

theorem Proper.members {j : Json} (h : j.Proper) : ∀ v ∈ j.members, v.Proper := by
  cases j with
  | array items => exact h.items
  | object fields =>
      intro v hv
      obtain ⟨entry, hentry, rfl⟩ := List.mem_map.mp hv
      exact h.fields entry hentry
  | _ => exact fun _ hv => absurd hv List.not_mem_nil

theorem Proper.parts {j : Json} (h : j.Proper) : ∀ v ∈ j.parts, v.Proper :=
  forall_parts (fun _ => Proper.members) j h

end Json

namespace Value

mutual

theorem finite_ofJson : ∀ j : Json, j.Proper → (ofJson j).Finite
  | .null, _ => trivial
  | .bool _, _ => trivial
  | .number (.int _), _ => trivial
  | .number (.big n), _ => Binary64.isFinite_toFloat n
  | .number (.float x), h => by
      rw [Json.Proper] at h
      rwa [ofJson, Finite]
  | .string _, _ => trivial
  | .array items, h => by
      rw [Json.Proper] at h
      rw [ofJson, Finite]
      exact finite_itemsOfJson items h
  | .object fields, h => by
      rw [Json.Proper] at h
      rw [ofJson, Finite]
      exact finite_fieldsOfJson fields h.2

theorem finite_itemsOfJson : ∀ items : List Json, Json.ProperItems items →
    FiniteItems (itemsOfJson items)
  | [], _ => trivial
  | j :: rest, h => ⟨finite_ofJson j h.1, finite_itemsOfJson rest h.2⟩

theorem finite_fieldsOfJson : ∀ fields : List (String × Json), Json.ProperFields fields →
    FiniteFields (fieldsOfJson fields)
  | [], _ => trivial
  | (_, j) :: rest, h => ⟨finite_ofJson j h.1, finite_fieldsOfJson rest h.2⟩

end

end Value

/-! ## What is read -/

open Json

namespace Gate

/-- A gate is read from the fields behind its type, by the reader of its type. -/
theorem ofJson_eq_ok {j : Json} {g : Gate} (h : ofJson j = .ok g) :
    ∃ fields : Json, fields.members ⊆ j.members ∧
      (∀ key ≠ "type", fields.field? key = j.field? key) ∧
      (decodeExists fields = .ok g ∨ decodeNotEmpty fields = .ok g ∨ decodeAllExist fields = .ok g ∨
        decodeExpression fields = .ok g) := by
  have hread : ∀ type fields : Json, (do (← decodeTag types type) fields : Decoded Gate) = .ok g →
      decodeExists fields = .ok g ∨ decodeNotEmpty fields = .ok g ∨ decodeAllExist fields = .ok g ∨
        decodeExpression fields = .ok g := by
    intro type fields h
    obtain ⟨decode, hdecode, h⟩ := bind_eq_ok h
    obtain ⟨name, hmem⟩ := decodeTag_mem hdecode
    simp only [types, List.mem_cons, Prod.mk.injEq, List.not_mem_nil, or_false] at hmem
    rcases hmem with ⟨-, rfl⟩ | ⟨-, rfl⟩ | ⟨-, rfl⟩ | ⟨-, rfl⟩
    · exact .inl h
    · exact .inr (.inl h)
    · exact .inr (.inr (.inl h))
    · exact .inr (.inr (.inr h))
  cases j with
  | object fields =>
      rw [ofJson] at h
      split at h
      · rename_i type htype
        exact ⟨.object (Assoc.erase "type" fields),
          ((Assoc.erase_sublist "type" fields).map Prod.snd).subset,
          fun key hkey => Assoc.get?_erase_of_ne (Ne.symm hkey), hread type _ h⟩
      · cases h
  | array items =>
      cases items with
      | nil => cases h
      | cons type rest =>
          exact ⟨.array rest, List.subset_cons_self type rest, fun _ _ => rfl, hread type _ h⟩
  | _ => cases h

theorem decodeExists_eq_ok {j : Json} {g : Gate} (h : decodeExists j = .ok g) :
    ∃ s name, slots [["parameter", "param", "name"]] j = .ok s ∧
      s.get "parameter" = .given (.string name) ∧ g = .parameterExists name := by
  obtain ⟨s, hs, h⟩ := bind_eq_ok h
  obtain ⟨name, hname, h⟩ := bind_eq_ok h
  cases h
  obtain ⟨v, hv, hname⟩ := Slots.required_eq_ok hname
  rw [decodeString_eq_ok hname] at hv
  exact ⟨s, name, hs, hv, rfl⟩

theorem decodeNotEmpty_eq_ok {j : Json} {g : Gate} (h : decodeNotEmpty j = .ok g) :
    ∃ s name emptyValues, slots [["parameter", "param", "name"], ["empty_values"]] j = .ok s ∧
      s.get "parameter" = .given (.string name) ∧
      (emptyValues = defaultEmptyValues ∨ ∃ items, s.get "empty_values" = .given (.array items) ∧
        emptyValues = items.map Value.ofJson) ∧ g = .parameterNotEmpty name emptyValues := by
  obtain ⟨s, hs, h⟩ := bind_eq_ok h
  obtain ⟨name, hname, h⟩ := bind_eq_ok h
  obtain ⟨emptyValues, hvalues, h⟩ := bind_eq_ok h
  cases h
  obtain ⟨v, hv, hname⟩ := Slots.required_eq_ok hname
  rw [decodeString_eq_ok hname] at hv
  refine ⟨s, name, emptyValues, hs, hv, ?_, rfl⟩
  rcases Slots.withDefault_eq_ok hvalues with hdefault | ⟨w, hw, hvalues⟩
  · exact .inl hdefault
  · obtain ⟨items, rfl, hitems⟩ := decodeArray_eq_ok hvalues
    have hmap : items.mapM (fun j => (.ok (Value.ofJson j) : Decoded Value)) =
        .ok (items.map Value.ofJson) := mapM_eq_map fun _ _ => rfl
    exact .inr ⟨items, hw, Except.ok.inj (hitems.symm.trans hmap)⟩

theorem decodeAllExist_eq_ok {j : Json} {g : Gate} (h : decodeAllExist j = .ok g) :
    ∃ s names, slots [["parameters", "params", "names"]] j = .ok s ∧
      s.get "parameters" = .given (.array (names.map .string)) ∧ g = .allParametersExist names := by
  obtain ⟨s, hs, h⟩ := bind_eq_ok h
  obtain ⟨names, hnames, h⟩ := bind_eq_ok h
  cases h
  obtain ⟨v, hv, hnames⟩ := Slots.required_eq_ok hnames
  obtain ⟨items, rfl, hitems⟩ := decodeArray_eq_ok hnames
  have hsame := map_of_mapM id Json.string (fun _ _ h => (decodeString_eq_ok h).symm) hitems
  rw [List.map_id] at hsame
  exact ⟨s, names, hs, hsame ▸ hv, rfl⟩

theorem decodeExpression_eq_ok {j : Json} {g : Gate} (h : decodeExpression j = .ok g) :
    ∃ s text, slots [["expression", "expr"]] j = .ok s ∧
      s.get "expression" = .given (.string text) ∧ g = .expression text := by
  obtain ⟨s, hs, h⟩ := bind_eq_ok h
  obtain ⟨text, htext, h⟩ := bind_eq_ok h
  cases h
  obtain ⟨v, hv, htext⟩ := Slots.required_eq_ok htext
  rw [decodeString_eq_ok htext] at hv
  exact ⟨s, text, hs, hv, rfl⟩

end Gate

/-- A condition is read from the members of a value. -/
theorem FilterCondition.ofJson_eq_ok {j : Json} {c : FilterCondition} (h : ofJson j = .ok c) :
    .string c.field ∈ j.members ∧ (c.value = .null ∨ ∃ v ∈ j.members, c.value = Value.ofJson v) ∧
      ∀ g ∈ c.gate, ∃ raw ∈ j.members, Gate.ofJson raw = .ok g ∧
        ∀ v, j.field? "conditional" = some v → v = raw := by
  obtain ⟨s, hs, h⟩ := bind_eq_ok h
  obtain ⟨field, hfield, h⟩ := bind_eq_ok h
  obtain ⟨operator, -, h⟩ := bind_eq_ok h
  obtain ⟨value, hvalue, h⟩ := bind_eq_ok h
  obtain ⟨gate, hgate, h⟩ := bind_eq_ok h
  cases h
  have hwithin := slots_within hs
  refine ⟨?_, ?_, ?_⟩
  · obtain ⟨v, hv, hfield⟩ := Slots.required_eq_ok hfield
    exact decodeString_eq_ok hfield ▸ hwithin.get hv
  · rcases Slots.withDefault_eq_ok hvalue with hnull | ⟨v, hv, hvalue⟩
    · exact .inl hnull
    · exact .inr ⟨v, hwithin.get hv, (Except.ok.inj hvalue).symm⟩
  · rintro g rfl
    obtain ⟨raw, hraw, -, hg⟩ := Slots.optional_eq_ok hgate
    refine ⟨raw, hwithin.get hraw, hg, fun v hv => ?_⟩
    have hlisted : ["conditional"] ∈ [["field"], ["operator"], ["value"], ["conditional"]] := by
      decide
    have hgiven := slots_main hs hlisted (by decide) hv
    exact Slot.given.inj (hgiven.symm.trans hraw)

namespace FilterNode

theorem mem_leavesOf {children : List FilterNode} {c : FilterCondition} :
    c ∈ leavesOf children ↔ ∃ n ∈ children, c ∈ n.leaves := by
  induction children with
  | nil => simp [leavesOf]
  | cons n rest ih => simp [leavesOf, ih]

/-- The conditions of a tree are read from parts of a value. -/
def ReadFrom (n : FilterNode) (j : Json) : Prop :=
  ∀ c ∈ n.leaves, ∃ l ∈ j.parts, FilterCondition.ofJson l = .ok c

theorem readFrom_logical {op : LogicalOp} {children : List FilterNode} {j : Json}
    (h : ∀ n ∈ children, ∃ part ∈ j.parts, n.ReadFrom part) : (logical op children).ReadFrom j := by
  intro c hc
  rw [leaves, mem_leavesOf] at hc
  obtain ⟨n, hn, hc⟩ := hc
  obtain ⟨part, hpart, hread⟩ := h n hn
  obtain ⟨l, hl, hlc⟩ := hread c hc
  exact ⟨l, parts_trans hpart hl, hlc⟩

theorem readFrom_of_decode {j : Json} (fuel : Nat) {n : FilterNode} :
    (decode fuel j = .ok n → n.ReadFrom j) ∧ (decodeGroup fuel j = .ok n → n.ReadFrom j) := by
  induction fuel generalizing j n with
  | zero => exact ⟨nofun, nofun⟩
  | succ fuel ih =>
      constructor
      · intro hn
        rw [decode] at hn
        split at hn
        · rename_i group hgroup
          cases hn
          exact ih.2 hgroup
        · split at hn
          · rename_i c hc
            cases hn
            intro c' hc'
            rw [leaves, List.mem_singleton] at hc'
            exact ⟨j, self_mem_parts j, hc' ▸ hc⟩
          · cases hn
      · intro hn
        cases j with
        | object fields =>
            rw [decodeGroup] at hn
            obtain ⟨s, hs, hn⟩ := bind_eq_ok hn
            obtain ⟨op, -, hn⟩ := bind_eq_ok hn
            split at hn
            · rename_i items hgiven
              obtain ⟨children, hchildren, hn⟩ := bind_eq_ok hn
              cases hn
              have hitems : .array items ∈ (Json.object fields).parts :=
                member_mem_parts ((objectSlots_within hs).get hgiven)
              refine readFrom_logical fun n hn => ?_
              obtain ⟨j, hj, hdecode⟩ := mem_of_mapM hchildren hn
              exact ⟨j, parts_trans hitems (member_mem_parts hj), ih.1 hdecode⟩
            · cases hn
        | _ => cases hn

mutual

/-- The conditions of a filter stand in the value that it is read from. -/
theorem readFrom_of_ofJson : ∀ (j : Json) (n : FilterNode), ofJson j = .ok (some n) → n.ReadFrom j
  | .object fields, n, hn => by
      rw [ofJson] at hn
      split at hn
      · rename_i tree htree
        cases hn
        exact (readFrom_of_decode _).1 htree
      · cases hn
  | .array [], _, hn => by
      rw [ofJson] at hn
      cases hn
  | .array (item :: items), n, hn => by
      rw [ofJson] at hn
      obtain ⟨children, hchildren, hn⟩ := bind_eq_ok hn
      cases hn
      refine readFrom_logical fun n hn => ?_
      obtain ⟨j, hj, hread⟩ := readFrom_of_ofItems 0 (item :: items) children hchildren n hn
      exact ⟨j, member_mem_parts hj, hread⟩
  | .null, _, hn => by cases hn
  | .bool _, _, hn => by cases hn
  | .number _, _, hn => by cases hn
  | .string _, _, hn => by cases hn

theorem readFrom_of_ofItems : ∀ (index : Nat) (items : List Json) (children : List FilterNode),
    ofItems index items = .ok children → ∀ n ∈ children, ∃ j ∈ items, n.ReadFrom j
  | _, [], children, h => by
      rw [ofItems] at h
      cases h
      exact fun _ hn => absurd hn List.not_mem_nil
  | index, item :: rest, children, h => by
      rw [ofItems] at h
      split at h
      · cases h
      · cases h
      · rename_i n hn
        obtain ⟨others, hothers, h⟩ := bind_eq_ok h
        cases h
        refine List.forall_mem_cons.mpr ⟨⟨item, List.mem_cons_self, readFrom_of_ofJson item n hn⟩, ?_⟩
        intro n hn
        obtain ⟨j, hj, hread⟩ := readFrom_of_ofItems (index + 1) rest others hothers n hn
        exact ⟨j, List.mem_cons_of_mem item hj, hread⟩

end

end FilterNode

/-! ## Finite values -/

/-- The values that a gate takes for empty are finite. -/
def Gate.Finite : Gate → Prop
  | .parameterNotEmpty _ emptyValues => ∀ v ∈ emptyValues, v.Finite
  | .parameterExists _ | .allParametersExist _ | .expression _ => True

/-- The values that a condition and its gate compare with are finite. -/
structure FilterCondition.Finite (c : FilterCondition) : Prop where
  value : c.value.Finite
  gate : ∀ g ∈ c.gate, g.Finite

def FilterNode.Finite (n : FilterNode) : Prop := ∀ c ∈ n.leaves, c.Finite

theorem Gate.finite_of_ofJson {j : Json} (h : j.Proper) {g : Gate} (hg : ofJson j = .ok g) :
    g.Finite := by
  obtain ⟨fields, hfields, -, hexists | hnotEmpty | hall | hexpression⟩ := ofJson_eq_ok hg
  · obtain ⟨s, name, -, -, rfl⟩ := decodeExists_eq_ok hexists
    trivial
  · obtain ⟨s, name, emptyValues, hs, -, hvalues, rfl⟩ := decodeNotEmpty_eq_ok hnotEmpty
    rcases hvalues with rfl | ⟨items, hitems, rfl⟩
    · intro v hv
      rw [defaultEmptyValues, List.mem_cons, List.mem_singleton] at hv
      rcases hv with rfl | rfl <;> trivial
    · intro v hv
      obtain ⟨item, hitem, rfl⟩ := List.mem_map.mp hv
      have harray := h.members _ (hfields ((slots_within hs).get hitems))
      exact Value.finite_ofJson item (harray.items item hitem)
  · obtain ⟨s, names, -, -, rfl⟩ := decodeAllExist_eq_ok hall
    trivial
  · obtain ⟨s, text, -, -, rfl⟩ := decodeExpression_eq_ok hexpression
    trivial

theorem FilterCondition.finite_of_ofJson {j : Json} (h : j.Proper) {c : FilterCondition}
    (hc : ofJson j = .ok c) : c.Finite := by
  obtain ⟨-, hvalue, hgate⟩ := ofJson_eq_ok hc
  constructor
  · rcases hvalue with hnull | ⟨v, hv, hvalue⟩
    · rw [hnull]
      trivial
    · rw [hvalue]
      exact Value.finite_ofJson v (h.members v hv)
  · intro g hg
    obtain ⟨raw, hraw, hread, -⟩ := hgate g hg
    exact Gate.finite_of_ofJson (h.members raw hraw) hread

namespace FilterNode

theorem finite_leaf {c : FilterCondition} : (leaf c).Finite ↔ c.Finite := by
  rw [Finite, leaves]
  exact List.forall_mem_singleton

theorem finite_logical {op : LogicalOp} {children : List FilterNode} :
    (logical op children).Finite ↔ ∀ n ∈ children, n.Finite := by
  simp only [Finite, leaves, mem_leavesOf]
  constructor
  · intro h n hn c hc
    exact h c ⟨n, hn, hc⟩
  · rintro h c ⟨n, hn, hc⟩
    exact h n hn c hc

/-- A tree read from JSON has finite values. -/
theorem finite_of_ofJson (j : Json) (n : FilterNode) (h : j.Proper) (hn : ofJson j = .ok (some n)) :
    n.Finite := by
  intro c hc
  obtain ⟨l, hl, hread⟩ := readFrom_of_ofJson j n hn c hc
  exact FilterCondition.finite_of_ofJson (h.parts l hl) hread

end FilterNode

/-! ## What is written -/

theorem Gate.ofJson_toJson (g : Gate) (h : g.Finite) : ofJson g.toJson = .ok g := by
  cases g with
  | parameterExists name => rfl
  | parameterNotEmpty name emptyValues =>
      have hvalues : decodeArray (fun j => .ok (Value.ofJson j))
          (.array (emptyValues.map Value.toJson)) = .ok emptyValues :=
        decodeArray_encode fun v hv => congrArg Except.ok (Value.ofJson_toJson v (h v hv))
      change (do
        let values ← decodeArray (fun j => .ok (Value.ofJson j)) (.array (emptyValues.map Value.toJson))
        return Gate.parameterNotEmpty name values) = _
      rw [hvalues]
      rfl
  | allParametersExist names =>
      have hnames : decodeArray decodeString (.array (names.map .string)) = .ok names :=
        decodeArray_encode fun _ _ => rfl
      change (do
        let names ← decodeArray decodeString (.array (names.map .string))
        return Gate.allParametersExist names) = _
      rw [hnames]
      rfl
  | expression text => rfl

namespace FilterCondition

theorem decodeOperator_sql (op : FilterOperator) : decodeOperator (.string op.sql) = .ok op := by
  cases op <;> rfl

theorem optional_toJson {gate : Option Gate} (h : ∀ g ∈ gate, g.Finite) {s : Slots} {name : String}
    (hs : s.get name = (gate.map fun g => Slot.given g.toJson).getD .absent) :
    s.optional name Gate.ofJson = .ok gate := by
  rw [Slots.optional, hs]
  cases gate with
  | none => rfl
  | some g =>
      have hgate := Gate.ofJson_toJson g (h g rfl)
      cases g <;> exact congrArg (Except.map some) hgate

/-- The fields of a written condition. -/
def writtenSlots (c : FilterCondition) : Slots :=
  [("field", .given (.string c.field)), ("operator", .given (.string c.operator.sql)),
    ("value", .given c.value.toJson),
    ("conditional", (c.gate.map fun g => Slot.given g.toJson).getD .absent)]

/-- A condition is read back from what it is written as. -/
theorem ofJson_toJson (c : FilterCondition) (h : c.Finite) : ofJson c.toJson = .ok c := by
  have hslots : slots [["field"], ["operator"], ["value"], ["conditional"]] c.toJson =
      .ok c.writtenSlots := by
    obtain ⟨field, operator, value, gate⟩ := c
    cases gate <;> rfl
  have hfield : c.writtenSlots.required "field" decodeString = .ok c.field := rfl
  have hoperator : c.writtenSlots.required "operator" decodeOperator = .ok c.operator :=
    decodeOperator_sql c.operator
  have hvalue : c.writtenSlots.withDefault "value" .null (fun j => .ok (Value.ofJson j)) =
      .ok c.value := congrArg Except.ok (Value.ofJson_toJson c.value h.value)
  have hgate : c.writtenSlots.optional "conditional" Gate.ofJson = .ok c.gate :=
    optional_toJson h.gate rfl
  generalize c.writtenSlots = s at hslots hfield hoperator hvalue hgate
  simp only [ofJson, hslots, bind, Except.bind, hfield, hoperator, hvalue, hgate]
  rfl

end FilterCondition

namespace FilterNode

mutual

/-- A tree is read back from what it is written as. A condition has no fields of a group. -/
theorem decode_toJson : ∀ (n : FilterNode) (fuel : Nat), n.Finite → 2 * n.toJson.depth < fuel →
    decode fuel n.toJson = .ok n
  | _, 0, _, hfuel => absurd hfuel (Nat.not_lt_zero _)
  | .leaf c, fuel + 1, h, _ => by
      have hgroup : ∀ n, decodeGroup fuel c.toJson ≠ .ok n := by
        intro n
        cases fuel with
        | zero => exact nofun
        | succ fuel =>
            obtain ⟨field, operator, value, gate⟩ := c
            cases gate <;> exact nofun
      have hleaf := FilterCondition.ofJson_toJson c (finite_leaf.mp h)
      rw [toJson, decode]
      split
      · rename_i n hn
        exact absurd hn (hgroup n)
      · rw [hleaf]
  | .logical op children, 1, _, hfuel => by
      simp only [toJson, depth, depthOfFields] at hfuel
      omega
  | .logical op children, fuel + 2, h, hfuel => by
      have hdepth : 2 * depthOfItems (toJsonAll children) < fuel := by
        simp only [toJson, depth, depthOfFields] at hfuel
        omega
      have hchildren := decode_toJsonAll children fuel (finite_logical.mp h) hdepth
      have hop : decodeLogic (.string op.keyword) = .ok op := by cases op <;> rfl
      have hgroup : decodeGroup (fuel + 1) (logical op children).toJson = .ok (.logical op children) := by
        rw [toJson, decodeGroup]
        change (do
          let op ← decodeLogic (.string op.keyword)
          return FilterNode.logical op (← (toJsonAll children).mapM (decode fuel))) = _
        rw [hop, hchildren]
        rfl
      rw [decode, hgroup]

theorem decode_toJsonAll : ∀ (children : List FilterNode) (fuel : Nat), (∀ n ∈ children, n.Finite) →
    2 * depthOfItems (toJsonAll children) < fuel →
    (toJsonAll children).mapM (decode fuel) = .ok children
  | [], _, _, _ => rfl
  | n :: rest, fuel, h, hfuel => by
      obtain ⟨hn, hrest⟩ := List.forall_mem_cons.mp h
      simp only [toJsonAll, depthOfItems] at hfuel
      have hfirst := decode_toJson n fuel hn (by omega)
      have hothers := decode_toJsonAll rest fuel hrest (by omega)
      rw [toJsonAll, List.mapM_cons, hfirst, hothers]
      rfl

end

theorem ofJson_toJson {n : FilterNode} (h : n.Finite) : ofJson n.toJson = .ok (some n) := by
  have hdecode := decode_toJson n (2 * n.toJson.depth + 2) h (by omega)
  cases n with
  | leaf c =>
      rw [toJson, FilterCondition.toJson] at hdecode ⊢
      rw [ofJson, hdecode]
  | logical op children =>
      rw [toJson] at hdecode ⊢
      rw [ofJson, hdecode]

end FilterNode

end RowPipeline
