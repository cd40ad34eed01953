import RowPipeline.Proofs.FilterCodec

/-!
# Filters through JSON

Every filter tree is read from the JSON it is written as, whatever its shape. JSON has no number for NaN and
the infinities, so a value that holds one comes back with a null in its place, and nothing else of the tree
is changed. The trees that come back as they were are those with finite values.
-/

namespace RowPipeline

/-! ## Values -/

namespace Value

mutual

/-- What is read from the JSON of a value is written as the same JSON. -/
theorem toJson_ofJson_toJson : ∀ v : Value, (ofJson v.toJson).toJson = v.toJson
  | .null => rfl
  | .bool _ => rfl
  | .int _ => rfl
  | .string _ => rfl
  | .float x => by
      rw [toJson, Json.ofFloat]
      split
      · rename_i hfinite
        rw [ofJson, toJson, Json.ofFloat, if_pos hfinite]
      · rfl
  | .array items => by
      rw [toJson, ofJson, toJson, itemsToJson_itemsOfJson items]
  | .object fields => by
      rw [toJson, ofJson, toJson, fieldsToJson_fieldsOfJson fields]

theorem itemsToJson_itemsOfJson : ∀ items : List Value,
    itemsToJson (itemsOfJson (itemsToJson items)) = itemsToJson items
  | [] => rfl
  | v :: rest => by
      rw [itemsToJson, itemsOfJson, itemsToJson, toJson_ofJson_toJson v, itemsToJson_itemsOfJson rest]

theorem fieldsToJson_fieldsOfJson : ∀ fields : List (String × Value),
    fieldsToJson (fieldsOfJson (fieldsToJson fields)) = fieldsToJson fields
  | [] => rfl
  | (_, v) :: rest => by
      rw [fieldsToJson, fieldsOfJson, fieldsToJson, toJson_ofJson_toJson v,
        fieldsToJson_fieldsOfJson rest]

end

mutual

/-- What is read from the JSON of a value is finite. -/
theorem finite_ofJson_toJson : ∀ v : Value, (ofJson v.toJson).Finite
  | .null => trivial
  | .bool _ => trivial
  | .int _ => trivial
  | .string _ => trivial
  | .float x => by
      rw [toJson, Json.ofFloat]
      split
      · rename_i hfinite
        rwa [ofJson, Finite]
      · trivial
  | .array items => by
      rw [toJson, ofJson, Finite]
      exact finite_itemsOfJson_itemsToJson items
  | .object fields => by
      rw [toJson, ofJson, Finite]
      exact finite_fieldsOfJson_fieldsToJson fields

theorem finite_itemsOfJson_itemsToJson : ∀ items : List Value,
    FiniteItems (itemsOfJson (itemsToJson items))
  | [] => trivial
  | v :: rest => ⟨finite_ofJson_toJson v, finite_itemsOfJson_itemsToJson rest⟩

theorem finite_fieldsOfJson_fieldsToJson : ∀ fields : List (String × Value),
    FiniteFields (fieldsOfJson (fieldsToJson fields))
  | [] => trivial
  | (_, v) :: rest => ⟨finite_ofJson_toJson v, finite_fieldsOfJson_fieldsToJson rest⟩

end

end Value

/-! ## Conditions -/

/-- A gate as its JSON shows it. -/
def Gate.throughJson : Gate → Gate
  | .parameterNotEmpty name emptyValues =>
      .parameterNotEmpty name (emptyValues.map fun v => .ofJson v.toJson)
  | g => g

theorem Gate.toJson_throughJson (g : Gate) : g.throughJson.toJson = g.toJson := by
  cases g with
  | parameterNotEmpty name emptyValues =>
      have hvalues : (emptyValues.map fun v => Value.ofJson v.toJson).map Value.toJson =
          emptyValues.map Value.toJson := by
        rw [List.map_map]
        exact List.map_congr_left fun v _ => Value.toJson_ofJson_toJson v
      rw [throughJson, toJson, toJson, hvalues]
  | _ => rfl

theorem Gate.finite_throughJson (g : Gate) : g.throughJson.Finite := by
  cases g with
  | parameterNotEmpty name emptyValues =>
      intro v hv
      obtain ⟨w, -, rfl⟩ := List.mem_map.mp hv
      exact Value.finite_ofJson_toJson w
  | _ => trivial

namespace FilterCondition

/-- A condition as its JSON shows it. -/
def throughJson (c : FilterCondition) : FilterCondition :=
  { c with value := .ofJson c.value.toJson, gate := c.gate.map Gate.throughJson }

theorem toJson_throughJson (c : FilterCondition) : c.throughJson.toJson = c.toJson := by
  have hgate : (c.gate.map Gate.throughJson).map (fun g => ("conditional", g.toJson)) =
      c.gate.map fun g => ("conditional", g.toJson) := by
    cases c.gate with
    | none => rfl
    | some g => exact congrArg (fun j => some ("conditional", j)) g.toJson_throughJson
  rw [throughJson, toJson, toJson, Value.toJson_ofJson_toJson, hgate]

theorem finite_throughJson (c : FilterCondition) : c.throughJson.Finite := by
  refine ⟨Value.finite_ofJson_toJson c.value, fun g hg => ?_⟩
  obtain ⟨g, -, rfl⟩ := Option.map_eq_some_iff.mp hg
  exact g.finite_throughJson

end FilterCondition

/-! ## Trees -/

namespace FilterNode

mutual

/-- A tree as its JSON shows it. -/
def throughJson : FilterNode → FilterNode
  | .leaf c => .leaf c.throughJson
  | .logical op children => .logical op (allThroughJson children)

def allThroughJson : List FilterNode → List FilterNode
  | [] => []
  | n :: rest => n.throughJson :: allThroughJson rest

end

mutual

theorem toJson_throughJson : ∀ n : FilterNode, n.throughJson.toJson = n.toJson
  | .leaf c => by rw [throughJson, toJson, toJson, c.toJson_throughJson]
  | .logical op children => by
      rw [throughJson, toJson, toJson, toJsonAll_allThroughJson children]

theorem toJsonAll_allThroughJson : ∀ children : List FilterNode,
    toJsonAll (allThroughJson children) = toJsonAll children
  | [] => rfl
  | n :: rest => by
      rw [allThroughJson, toJsonAll, toJsonAll, toJson_throughJson n, toJsonAll_allThroughJson rest]

end

mutual

theorem finite_throughJson : ∀ n : FilterNode, n.throughJson.Finite
  | .leaf c => finite_leaf.mpr c.finite_throughJson
  | .logical _ children => finite_logical.mpr (finite_allThroughJson children)

theorem finite_allThroughJson : ∀ children : List FilterNode,
    ∀ n ∈ allThroughJson children, n.Finite
  | [] => fun _ hn => absurd hn List.not_mem_nil
  | n :: rest => List.forall_mem_cons.mpr ⟨finite_throughJson n, finite_allThroughJson rest⟩

end

/-- Whatever a tree holds, it is read from its JSON with all its groups, conditions and gates. -/
theorem ofJson_toJson_any (n : FilterNode) : ofJson n.toJson = .ok (some n.throughJson) := by
  rw [← toJson_throughJson]
  exact ofJson_toJson (finite_throughJson n)

/-- A tree comes back from its JSON as it was exactly if the values of its conditions and gates hold neither
NaN nor an infinity. -/
theorem read_as_written_iff_finite (n : FilterNode) :
    ofJson n.toJson = .ok (some n) ↔ n.Finite := by
  constructor
  · intro h
    rw [ofJson_toJson_any] at h
    have hsame : n.throughJson = n := Option.some.inj (Except.ok.inj h)
    exact hsame ▸ finite_throughJson n
  · exact ofJson_toJson

end FilterNode

end RowPipeline
