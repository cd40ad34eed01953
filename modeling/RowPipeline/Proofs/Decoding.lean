import RowPipeline.Json.Decode
import RowPipeline.Proofs.Outcomes
import RowPipeline.Proofs.Record

/-!
# Decoded records

What a field of a decoded record comes from: the field of that name of the object it was read from. In
any case it is a part of the value that the record was read from.
-/

namespace RowPipeline.Json

/-! ## Parts of a value -/

/-- The values right inside a value. -/
def members : Json → List Json
  | .array items => items
  | .object fields => fields.map Prod.snd
  | _ => []

mutual

/-- A value and the values in it. -/
def parts : Json → List Json
  | .array items => .array items :: partsOfItems items
  | .object fields => .object fields :: partsOfFields fields
  | j => [j]

def partsOfItems : List Json → List Json
  | [] => []
  | j :: rest => parts j ++ partsOfItems rest

def partsOfFields : List (String × Json) → List Json
  | [] => []
  | (_, j) :: rest => parts j ++ partsOfFields rest

end

theorem self_mem_parts (j : Json) : j ∈ j.parts := by
  cases j <;> simp [parts]

theorem mem_partsOfItems {items : List Json} {v : Json} :
    v ∈ partsOfItems items ↔ ∃ j ∈ items, v ∈ j.parts := by
  induction items with
  | nil => simp [partsOfItems]
  | cons j rest ih => simp [partsOfItems, ih]

theorem mem_partsOfFields {fields : List (String × Json)} {v : Json} :
    v ∈ partsOfFields fields ↔ ∃ j ∈ fields.map Prod.snd, v ∈ j.parts := by
  induction fields with
  | nil => simp [partsOfFields]
  | cons entry rest ih =>
      rw [partsOfFields, List.mem_append, ih, List.map_cons]
      simp only [List.mem_cons, exists_eq_or_imp]

/-- The parts of a value are the value and the parts of its members. -/
theorem mem_parts {j v : Json} : v ∈ j.parts ↔ v = j ∨ ∃ member ∈ j.members, v ∈ member.parts := by
  cases j with
  | array items => rw [parts, List.mem_cons, mem_partsOfItems, members]
  | object fields => rw [parts, List.mem_cons, mem_partsOfFields, members]
  | _ => simp [parts, members]

mutual

/-- What passes from a value to its members holds of all its parts. -/
theorem forall_parts {P : Json → Prop} (step : ∀ j, P j → ∀ v ∈ j.members, P v) :
    ∀ j : Json, P j → ∀ v ∈ j.parts, P v
  | .array items, h, v, hv => by
      rcases List.mem_cons.mp hv with rfl | hv
      · exact h
      · exact forall_partsOfItems step items (step _ h) v hv
  | .object fields, h, v, hv => by
      rcases List.mem_cons.mp hv with rfl | hv
      · exact h
      · exact forall_partsOfFields step fields (step _ h) v hv
  | .null, h, _, hv | .bool _, h, _, hv | .number _, h, _, hv | .string _, h, _, hv => by
      rwa [List.mem_singleton.mp hv]

theorem forall_partsOfItems {P : Json → Prop} (step : ∀ j, P j → ∀ v ∈ j.members, P v) :
    ∀ items : List Json, (∀ v ∈ items, P v) → ∀ v ∈ partsOfItems items, P v
  | [], _, _, hv => absurd hv List.not_mem_nil
  | j :: rest, h, v, hv => by
      obtain ⟨hj, hrest⟩ := List.forall_mem_cons.mp h
      rcases List.mem_append.mp hv with hv | hv
      · exact forall_parts step j hj v hv
      · exact forall_partsOfItems step rest hrest v hv

theorem forall_partsOfFields {P : Json → Prop} (step : ∀ j, P j → ∀ v ∈ j.members, P v) :
    ∀ fields : List (String × Json), (∀ v ∈ fields.map Prod.snd, P v) →
      ∀ v ∈ partsOfFields fields, P v
  | [], _, _, hv => absurd hv List.not_mem_nil
  | (_, j) :: rest, h, v, hv => by
      obtain ⟨hj, hrest⟩ := List.forall_mem_cons.mp h
      rcases List.mem_append.mp hv with hv | hv
      · exact forall_parts step j hj v hv
      · exact forall_partsOfFields step rest hrest v hv

end

/-- The parts of a part are parts. -/
theorem parts_trans {root j v : Json} (hj : j ∈ root.parts) (hv : v ∈ j.parts) : v ∈ root.parts := by
  have hstep : ∀ j : Json, j.parts ⊆ root.parts → ∀ member ∈ j.members, member.parts ⊆ root.parts :=
    fun j h member hmember v hv => h (mem_parts.mpr (.inr ⟨member, hmember, hv⟩))
  exact forall_parts hstep root (List.Subset.refl _) j hj hv

theorem member_mem_parts {j v : Json} (hv : v ∈ j.members) : v ∈ j.parts :=
  mem_parts.mpr (.inr ⟨v, hv, self_mem_parts v⟩)

/-! ## Slots -/

/-- A field that is there once, by one of its names, is given. -/
theorem slotOf_given {fields : List (String × Json)} {key : String} {j : Json}
    (h : Assoc.get? key fields = some j) {names : List String} (hkey : key ∈ names) {slot : Slot}
    (hslot : slotOf fields names = .ok slot) : slot = .given j := by
  have hmem : (key, j) ∈ fields.filter fun p => p.1 ∈ names :=
    List.mem_filter.mpr ⟨Assoc.mem_of_get? h, decide_eq_true hkey⟩
  unfold slotOf at hslot
  split at hslot
  · rename_i hnone
    rw [hnone] at hmem
    cases hmem
  · rename_i k other hone
    rw [hone, List.mem_singleton] at hmem
    cases hmem
    cases hslot
    rfl
  · cases hslot

/-- The slot of a field that is there by its main name, by which no other field goes. -/
theorem objectSlots_main {fields : List (String × Json)} {layout : List (List String)} {s : Slots}
    (h : objectSlots fields layout = .ok s) {key : String} {aliases : List String}
    (listed : key :: aliases ∈ layout)
    (alone : ∀ names ∈ layout, names.headD "" = key → names = key :: aliases) {j : Json}
    (hj : Assoc.get? key fields = some j) : s.get key = .given j := by
  induction layout generalizing s with
  | nil => cases listed
  | cons names rest ih =>
      rw [objectSlots] at h
      obtain ⟨slot, hslot, h⟩ := bind_eq_ok h
      obtain ⟨others, hothers, h⟩ := bind_eq_ok h
      cases h
      by_cases hname : names.headD "" = key
      · rw [alone names List.mem_cons_self hname] at hslot ⊢
        rw [slotOf_given hj List.mem_cons_self hslot, Slots.get, Assoc.get?, List.headD_cons,
          if_pos rfl]
        rfl
      · have hrest : key :: aliases ∈ rest := by
          rcases List.mem_cons.mp listed with rfl | hrest
          · exact absurd rfl hname
          · exact hrest
        have hget := ih hothers hrest fun other hother => alone other (List.mem_cons_of_mem _ hother)
        rw [Slots.get, Assoc.get?, if_neg hname]
        exact hget

/-- The slot of a field with a single name, by which no other field goes. -/
theorem objectSlots_get {fields : List (String × Json)} {layout : List (List String)} {s : Slots}
    (h : objectSlots fields layout = .ok s) {key : String} (listed : [key] ∈ layout)
    (alone : ∀ names ∈ layout, names.headD "" = key → names = [key]) {j : Json}
    (hj : Assoc.get? key fields = some j) : s.get key = .given j :=
  objectSlots_main h listed alone hj

/-- The same of a record that is read from any value. -/
theorem slots_main {record : Json} {layout : List (List String)} {s : Slots}
    (h : slots layout record = .ok s) {key : String} {aliases : List String}
    (listed : key :: aliases ∈ layout)
    (alone : ∀ names ∈ layout, names.headD "" = key → names = key :: aliases) {j : Json}
    (hj : record.field? key = some j) : s.get key = .given j := by
  cases record with
  | object fields => exact objectSlots_main h listed alone hj
  | _ => cases hj

theorem Slots.required_given {α : Type} {s : Slots} {name : String} {j : Json}
    (h : s.get name = .given j) (decode : Json → Decoded α) : s.required name decode = decode j := by
  rw [required, h]

theorem Slots.withDefault_given {α : Type} {s : Slots} {name : String} {j : Json}
    (h : s.get name = .given j) (default : α) (decode : Json → Decoded α) :
    s.withDefault name default decode = decode j := by
  rw [withDefault, h]

theorem Slots.required_eq_ok {α : Type} {s : Slots} {name : String} {decode : Json → Decoded α} {a : α}
    (h : s.required name decode = .ok a) : ∃ j, s.get name = .given j ∧ decode j = .ok a := by
  rw [required] at h
  split at h
  · rename_i j hj
    exact ⟨j, hj, h⟩
  · cases h

theorem Slots.withDefault_eq_ok {α : Type} {s : Slots} {name : String} {default a : α}
    {decode : Json → Decoded α} (h : s.withDefault name default decode = .ok a) :
    a = default ∨ ∃ j, s.get name = .given j ∧ decode j = .ok a := by
  rw [withDefault] at h
  split at h
  · rename_i j hj
    exact .inr ⟨j, hj, h⟩
  · cases h
    exact .inl rfl

theorem Slots.optional_eq_ok {α : Type} {s : Slots} {name : String} {decode : Json → Decoded α} {a : α}
    (h : s.optional name decode = .ok (some a)) :
    ∃ j, s.get name = .given j ∧ j ≠ .null ∧ decode j = .ok a := by
  rw [optional] at h
  split at h
  · cases h
  · rename_i j hvalue hj
    obtain ⟨b, hb, heq⟩ := map_eq_ok h
    exact ⟨j, hj, hvalue, Option.some.inj heq ▸ hb⟩
  · cases h

/-! ## What is given is a part -/

/-- What is given stands in a list. -/
def Slots.Within (s : Slots) (js : List Json) : Prop := ∀ entry ∈ s, ∀ j, entry.2 = .given j → j ∈ js

theorem Slots.Within.get {s : Slots} {js : List Json} (h : s.Within js) {name : String} {j : Json}
    (hj : s.get name = .given j) : j ∈ js := by
  rw [Slots.get] at hj
  cases hget : Assoc.get? name s with
  | none =>
      rw [hget] at hj
      cases hj
  | some slot =>
      rw [hget] at hj
      exact h _ (Assoc.mem_of_get? hget) j hj

theorem slotOf_mem {fields : List (String × Json)} {names : List String} {j : Json}
    (hslot : slotOf fields names = .ok (.given j)) : j ∈ fields.map Prod.snd := by
  unfold slotOf at hslot
  split at hslot
  · cases hslot
  · rename_i name other hone
    cases hslot
    have hmem : (name, j) ∈ fields.filter fun p => p.1 ∈ names := by
      rw [hone]
      exact List.mem_singleton.mpr rfl
    exact List.mem_map_of_mem (List.mem_of_mem_filter hmem)
  · cases hslot

theorem objectSlots_within {fields : List (String × Json)} {layout : List (List String)} {s : Slots}
    (hs : objectSlots fields layout = .ok s) : s.Within (fields.map Prod.snd) := by
  induction layout generalizing s with
  | nil =>
      cases hs
      exact fun _ hentry => absurd hentry List.not_mem_nil
  | cons names rest ih =>
      rw [objectSlots] at hs
      obtain ⟨slot, hslot, hs⟩ := bind_eq_ok hs
      obtain ⟨others, hothers, hs⟩ := bind_eq_ok hs
      cases hs
      refine List.forall_mem_cons.mpr ⟨?_, ih hothers⟩
      rintro j rfl
      exact slotOf_mem hslot

theorem arraySlots_within {items : List Json} {layout : List (List String)} {s : Slots}
    (hs : arraySlots items layout = .ok s) : s.Within items := by
  induction layout generalizing items s with
  | nil =>
      cases items with
      | nil =>
          cases hs
          exact fun _ hentry => absurd hentry List.not_mem_nil
      | cons j rest => cases hs
  | cons names rest ih =>
      cases items with
      | nil =>
          rw [arraySlots] at hs
          obtain ⟨others, hothers, hs⟩ := bind_eq_ok hs
          cases hs
          exact List.forall_mem_cons.mpr ⟨nofun, ih hothers⟩
      | cons j items =>
          rw [arraySlots] at hs
          obtain ⟨others, hothers, hs⟩ := bind_eq_ok hs
          cases hs
          refine List.forall_mem_cons.mpr ⟨?_, fun entry hentry j' hj' => ?_⟩
          · rintro j' hj'
            cases hj'
            exact List.mem_cons_self
          · exact List.mem_cons_of_mem j (ih hothers entry hentry j' hj')

/-- What is given for the fields of a record stands right inside the value that it is read from. -/
theorem slots_within {j : Json} {layout : List (List String)} {s : Slots}
    (hs : slots layout j = .ok s) : s.Within j.members := by
  cases j with
  | object fields => exact objectSlots_within hs
  | array items => exact arraySlots_within hs
  | _ => cases hs

/-! ## Choices and lists -/

theorem decodeTag_mem {α : Type} {choices : List (String × α)} {j : Json} {a : α}
    (h : decodeTag choices j = .ok a) : ∃ name, (name, a) ∈ choices := by
  cases j with
  | string name =>
      rw [decodeTag] at h
      split at h
      · rename_i b hb
        cases h
        exact ⟨name, Assoc.mem_of_get? hb⟩
      · cases h
  | number n =>
      rw [decodeTag] at h
      split at h
      · rename_i p hp
        cases h
        obtain ⟨place, -, hplace⟩ := Option.bind_eq_some_iff.mp hp
        exact ⟨p.1, List.mem_of_getElem? hplace⟩
      · cases h
  | _ => cases h

theorem decodeString_eq_ok {j : Json} {text : String} (h : decodeString j = .ok text) :
    j = .string text := by
  cases j with
  | string s =>
      cases h
      rfl
  | _ => cases h

theorem decodeArray_eq_ok {α : Type} {decode : Json → Decoded α} {j : Json} {list : List α}
    (h : decodeArray decode j = .ok list) : ∃ items, j = .array items ∧ items.mapM decode = .ok list := by
  cases j with
  | array items => exact ⟨items, rfl, h⟩
  | _ => cases h

/-- A list that is written item by item is read item by item. -/
theorem decodeArray_map {α β : Type} {decode : Json → Decoded β} {encode : α → Json} {f : α → β}
    {list : List α} (h : ∀ a ∈ list, decode (encode a) = .ok (f a)) :
    decodeArray decode (.array (list.map encode)) = .ok (list.map f) := by
  rw [decodeArray, List.mapM_map]
  exact mapM_eq_map h

theorem decodeArray_encode {α : Type} {decode : Json → Decoded α} {encode : α → Json} {list : List α}
    (h : ∀ a ∈ list, decode (encode a) = .ok a) :
    decodeArray decode (.array (list.map encode)) = .ok list := by
  have hread := decodeArray_map (f := id) h
  rwa [List.map_id] at hread

end RowPipeline.Json
