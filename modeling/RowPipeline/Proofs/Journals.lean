import RowPipeline.Run.Journal
import RowPipeline.Proofs.Record

/-!
# What a cache holds

A property of the entries of a cache, of each under its key, is kept by everything a run does with its
journal except storing, and by storing an entry that has it. The time plays no part: an entry that
expires is only lost. What is stored comes back as it was, if all its numbers are finite.
-/

namespace RowPipeline

/-! ## Values as JSON -/

namespace Value

mutual

/-- No number in a value is infinite or no number at all. -/
def Finite : Value → Prop
  | .null | .bool _ | .int _ | .string _ => True
  | .float x => x.isFinite = true
  | .array items => FiniteItems items
  | .object fields => FiniteFields fields

def FiniteItems : List Value → Prop
  | [] => True
  | v :: rest => v.Finite ∧ FiniteItems rest

def FiniteFields : List (String × Value) → Prop
  | [] => True
  | (_, v) :: rest => v.Finite ∧ FiniteFields rest

end

mutual

/-- A value with finite numbers is read back from its JSON. -/
theorem ofJson_toJson : ∀ v : Value, v.Finite → ofJson v.toJson = v
  | .null, _ => rfl
  | .bool _, _ => rfl
  | .int _, _ => rfl
  | .string _, _ => rfl
  | .float x, h => by
      rw [Finite] at h
      rw [toJson, Json.ofFloat, if_pos h, ofJson]
  | .array items, h => by
      rw [Finite] at h
      rw [toJson, ofJson, itemsOfJson_toJson items h]
  | .object fields, h => by
      rw [Finite] at h
      rw [toJson, ofJson, fieldsOfJson_toJson fields h]

theorem itemsOfJson_toJson : ∀ items : List Value, FiniteItems items →
    itemsOfJson (itemsToJson items) = items
  | [], _ => rfl
  | v :: rest, h => by
      rw [FiniteItems] at h
      rw [itemsToJson, itemsOfJson, ofJson_toJson v h.1, itemsOfJson_toJson rest h.2]

theorem fieldsOfJson_toJson : ∀ fields : List (String × Value), FiniteFields fields →
    fieldsOfJson (fieldsToJson fields) = fields
  | [], _ => rfl
  | (_, v) :: rest, h => by
      rw [FiniteFields] at h
      rw [fieldsToJson, fieldsOfJson, ofJson_toJson v h.1, fieldsOfJson_toJson rest h.2]

end

end Value

namespace Row

/-- No number in a row is infinite or no number at all. -/
def Finite (row : Row) : Prop := ∀ entry ∈ row.entries, entry.2.Finite

theorem throughJson_finite {row : Row} (h : row.Finite) : row.throughJson = row := by
  have hentries : row.entries.map (fun entry => (entry.1, Value.ofJson entry.2.toJson)) =
      row.entries := by
    refine (List.map_congr_left fun entry hentry => ?_).trans (List.map_id _)
    rw [Value.ofJson_toJson _ (h entry hentry)]
    rfl
  obtain ⟨entries, nodup⟩ := row
  simp only [throughJson, Record.map, hentries]

theorem map_throughJson_finite {rows : List Row} (h : ∀ row ∈ rows, row.Finite) :
    rows.map throughJson = rows :=
  (List.map_congr_left fun row hrow => throughJson_finite (h row hrow)).trans (List.map_id _)

end Row

/-! ## Caches -/

namespace Cache

variable {α : Type}

/-- A read finds an entry of the cache. -/
theorem get_found {c : Cache α} {now : Nat} {key : String} {value : α}
    (h : (c.get now key).1 = some value) : ∃ e, c.entries.get? key = some e ∧ e.value = value := by
  rw [get] at h
  cases hget : c.entries.get? key with
  | none =>
      rw [hget] at h
      cases h
  | some e =>
      rw [hget] at h
      dsimp only at h
      split at h
      · cases h
      · exact ⟨e, rfl, Option.some.inj h⟩

/-- A read adds no entry. -/
theorem get_entries {c : Cache α} {now : Nat} {key other : String} {e : CacheEntry α}
    (h : (c.get now key).2.entries.get? other = some e) : c.entries.get? other = some e := by
  rw [get] at h
  cases hget : c.entries.get? key with
  | none =>
      rw [hget] at h
      exact h
  | some found =>
      rw [hget] at h
      dsimp only at h
      split at h
      · exact Record.get?_of_get?_erase h
      · exact h

/-- After a write an entry is the one written or was there before. -/
theorem set_entries {c : Cache α} {now : Nat} {key other : String} {value : α} {ttl : Option Nat}
    {e : CacheEntry α} (h : (c.set now key value ttl).entries.get? other = some e) :
    other = key ∧ e.value = value ∨ c.entries.get? other = some e := by
  rw [set, Record.get?_insert] at h
  split at h
  · rename_i hkey
    left
    rw [← Option.some.inj h]
    exact ⟨hkey, rfl⟩
  · exact .inr h

/-- What was just written is read, unless it is to be gone at once. -/
theorem get_set {c : Cache α} {now ttl : Nat} {key : String} {value : α} (lasting : 0 < ttl) :
    ((c.set now key value (some ttl)).get now key).1 = some value := by
  have hfresh : ({ value, expiresAt := some (now + ttl) } : CacheEntry α).isExpired now = false := by
    simp only [CacheEntry.isExpired, Option.any_some, decide_eq_false_iff_not]
    omega
  have hentry : (c.set now key value (some ttl)).entries.get? key =
      some { value, expiresAt := some (now + ttl) } := Record.get?_insert_self ..
  rw [get, hentry]
  dsimp only
  rw [hfresh]
  rfl

end Cache

namespace Recorded

variable {j : Journal} {key : String}

/-- What is found is what a read of the cache gives. -/
theorem find_result :
    ((find key).run j).1 = j.cache.bind fun cache => (cache.get j.now key).1 := by
  rw [find]
  simp only [StateT.run_bind, StateT.run_get, pure_bind]
  cases j.cache <;> rfl

theorem find_cached : ((find key).run j).2.cache.isSome = j.cache.isSome := by
  rw [find]
  simp only [StateT.run_bind, StateT.run_get, pure_bind]
  cases hcache : j.cache with
  | none => exact congrArg Option.isSome hcache
  | some cache => rfl

/-- What was just stored is found. -/
theorem find_store {value : Stored} {ttl : UInt64} (cached : j.cache.isSome = true)
    (lasting : 0 < ttl.toNat) :
    ((find key).run ((store key value ttl).run j).2).1 = some value.throughJson := by
  obtain ⟨cache, hcache⟩ := Option.isSome_iff_exists.mp cached
  have hstored : ((store key value ttl).run j).2 =
      { j with cache := j.cache.map fun c => c.set j.now key value.throughJson (some ttl.toNat) } :=
    rfl
  rw [hstored, hcache, find_result]
  exact Cache.get_set lasting

end Recorded

/-- Every entry of the cache, if there is one, has a property under its key. -/
def Journal.Holds (P : String → Stored → Prop) (j : Journal) : Prop :=
  ∀ cache, j.cache = some cache →
    ∀ key e, cache.entries.get? key = some e → P key e.value

namespace Journal.Holds

variable {P : String → Stored → Prop} {j : Journal}

/-- Only the cache counts. -/
theorem of_cache {j' : Journal} (h : j.Holds P) (same : j'.cache = j.cache) : j'.Holds P := by
  intro cache hcache
  exact h cache (same ▸ hcache)

/-- A cache without entries has every property. -/
theorem of_empty (empty : ∀ cache, j.cache = some cache → cache.entries = {}) : j.Holds P := by
  intro cache hcache key e he
  rw [empty cache hcache] at he
  cases he

/-- A cache that was cleared has every property. -/
theorem cleared {Q : String → Stored → Prop} {j' : Journal}
    (same : j'.cache = j.cache.map Cache.clear) : j'.Holds Q := by
  refine of_empty ?_
  intro cache hcache
  rw [same] at hcache
  obtain ⟨old, -, rfl⟩ := Option.map_eq_some_iff.mp hcache
  rfl

/-- What is found has the property, and the cache keeps it. -/
theorem find (h : j.Holds P) (key : String) :
    ((Recorded.find key).run j).2.Holds P ∧
      ∀ v, ((Recorded.find key).run j).1 = some v → P key v := by
  rw [Recorded.find]
  simp only [StateT.run_bind, StateT.run_get, pure_bind]
  cases hcache : j.cache with
  | none => exact ⟨h, fun v hv => by cases hv⟩
  | some cache =>
      constructor
      · intro cache' hcache' other e he
        cases hcache'
        exact h cache hcache other e (Cache.get_entries he)
      · intro v hv
        obtain ⟨e, he, rfl⟩ := Cache.get_found hv
        exact h cache hcache key e he

/-- Storing an entry that has the property. -/
theorem store (h : j.Holds P) {key : String} {value : Stored} (ttl : UInt64)
    (hv : P key value.throughJson) : ((Recorded.store key value ttl).run j).2.Holds P := by
  have hstored : ((Recorded.store key value ttl).run j).2.cache =
      j.cache.map fun c => c.set j.now key value.throughJson (some ttl.toNat) := rfl
  intro cache' hcache' other e he
  rw [hstored] at hcache'
  obtain ⟨cache, hcache, rfl⟩ := Option.map_eq_some_iff.mp hcache'
  rcases Cache.set_entries he with ⟨rfl, hvalue⟩ | hold
  · rw [hvalue]
    exact hv
  · exact h cache hcache other e hold

theorem tell (h : j.Holds P) (e : Event) : ((Recorded.tell e).run j).2.Holds P :=
  h.of_cache rfl

theorem send {α : Type} (h : j.Holds P) (m : Sending α) : ((Recorded.send m).run j).2.Holds P :=
  h.of_cache rfl

end Journal.Holds

end RowPipeline
