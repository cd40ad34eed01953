import Mathlib.Data.List.Nodup
import RowPipeline.Record

/-!
# Laws of ordered records

What a record answers after it was changed, and where a name ends up. Later modules read records
through these laws alone.
-/

namespace RowPipeline

namespace Assoc

variable {α : Type}

theorem get?_insert (entries : List (String × α)) (name key : String) (value : α) :
    get? key (insert name value entries) = if key = name then some value else get? key entries := by
  induction entries with
  | nil => simp [insert, get?, eq_comm]
  | cons head rest ih =>
      obtain ⟨k, v⟩ := head
      by_cases hk : k = name
      · subst hk
        by_cases hkey : key = k
        · simp [insert, get?, hkey]
        · simp [insert, get?, hkey, Ne.symm hkey]
      · simp only [insert, hk, if_false, get?, ih]
        by_cases hkey : k = key
        · subst hkey
          simp [hk]
        · simp [hkey]

/-- Dropping a name leaves the others alone. -/
theorem get?_erase_of_ne {entries : List (String × α)} {name key : String} (h : name ≠ key) :
    get? key (erase name entries) = get? key entries := by
  induction entries with
  | nil => rfl
  | cons head rest ih =>
      obtain ⟨k, v⟩ := head
      by_cases hk : k = name
      · subst hk
        rw [erase, if_pos rfl, get?, if_neg h]
      · rw [erase, if_neg hk, get?, get?, ih]

/-- A name has a value exactly if it is listed. -/
theorem get?_isSome (entries : List (String × α)) (name : String) :
    (get? name entries).isSome = true ↔ name ∈ entries.map Prod.fst := by
  induction entries with
  | nil => simp [get?]
  | cons head rest ih =>
      obtain ⟨k, v⟩ := head
      by_cases hk : k = name
      · simp [get?, hk]
      · simp [get?, hk, ih, Ne.symm hk]

theorem get?_eq_none (entries : List (String × α)) (name : String) :
    get? name entries = none ↔ name ∉ entries.map Prod.fst := by
  rw [← get?_isSome, Option.not_isSome_iff_eq_none]

/-- Where each name comes once, a name that is dropped is gone. -/
theorem get?_erase {entries : List (String × α)} (nodup : (entries.map Prod.fst).Nodup)
    (name key : String) :
    get? key (erase name entries) = if key = name then none else get? key entries := by
  by_cases hkey : key = name
  · subst hkey
    rw [if_pos rfl]
    induction entries with
    | nil => rfl
    | cons head rest ih =>
        obtain ⟨k, v⟩ := head
        rw [List.map_cons, List.nodup_cons] at nodup
        by_cases hk : k = key
        · subst hk
          rw [erase, if_pos rfl]
          exact (get?_eq_none rest k).mpr nodup.1
        · rw [erase, if_neg hk, get?, if_neg hk, ih nodup.2]
  · rw [if_neg hkey, get?_erase_of_ne (Ne.symm hkey)]

/-- Where each name comes once, the entries whose value passes a test keep it. -/
theorem get?_filter {entries : List (String × α)} (nodup : (entries.map Prod.fst).Nodup)
    (keep : α → Bool) (key : String) :
    get? key (entries.filter fun p => keep p.2) = (get? key entries).filter keep := by
  induction entries with
  | nil => rfl
  | cons head rest ih =>
      obtain ⟨k, v⟩ := head
      rw [List.map_cons, List.nodup_cons] at nodup
      have hrest := ih nodup.2
      by_cases hk : k = key
      · subst hk
        have habsent : get? k rest = none := (get?_eq_none rest k).mpr nodup.1
        cases hkeep : keep v with
        | true => simp [hkeep, get?, Option.filter]
        | false => simp [hkeep, get?, Option.filter, hrest, habsent]
      · cases hkeep : keep v with
        | true => simp [hkeep, get?, hk, hrest]
        | false => simp [hkeep, get?, hk, hrest]

/-- Where each name comes once, the entries of a name are the one that is found. -/
theorem filter_name {entries : List (String × α)} (nodup : (entries.map Prod.fst).Nodup)
    (key : String) (keep : α → Bool) :
    (entries.filter fun p => p.1 = key && keep p.2) =
      (((get? key entries).filter keep).map fun v => (key, v)).toList := by
  induction entries with
  | nil => rfl
  | cons head rest ih =>
      obtain ⟨k, v⟩ := head
      rw [List.map_cons, List.nodup_cons] at nodup
      have hrest := ih nodup.2
      by_cases hk : k = key
      · subst hk
        rw [(get?_eq_none rest k).mpr nodup.1] at hrest
        cases hkeep : keep v <;> simp [hkeep, get?, Option.filter, hrest]
      · simp [hk, get?, hrest]

/-- A value that is found stands in the list under its name. -/
theorem mem_of_get? {entries : List (String × α)} {name : String} {value : α}
    (h : get? name entries = some value) : (name, value) ∈ entries := by
  induction entries with
  | nil => simp [get?] at h
  | cons head rest ih =>
      obtain ⟨k, v⟩ := head
      by_cases hk : k = name
      · simp only [get?, hk, if_true, Option.some.injEq] at h
        simp [hk, h]
      · simp only [get?, hk, if_false] at h
        exact List.mem_cons_of_mem _ (ih h)

/-- Where each name comes once, what stands in the list is found. -/
theorem get?_of_mem {entries : List (String × α)} (nodup : (entries.map Prod.fst).Nodup)
    {name : String} {value : α} (h : (name, value) ∈ entries) : get? name entries = some value := by
  induction entries with
  | nil => simp at h
  | cons head rest ih =>
      obtain ⟨k, v⟩ := head
      rw [List.map_cons, List.nodup_cons] at nodup
      rcases List.mem_cons.mp h with heq | hrest
      · cases heq
        simp [get?]
      · have hk : k ≠ name := by
          rintro rfl
          exact nodup.1 (List.mem_map.mpr ⟨_, hrest, rfl⟩)
        simp only [get?, hk, if_false]
        exact ih nodup.2 hrest

/-- Where each name comes once, lists have the same entries if they have the same values. -/
theorem perm_iff_get? {entries others : List (String × α)} (nodup : (entries.map Prod.fst).Nodup)
    (nodup' : (others.map Prod.fst).Nodup) :
    entries.Perm others ↔ ∀ name, get? name entries = get? name others := by
  have hfound : ∀ {entries : List (String × α)}, (entries.map Prod.fst).Nodup →
      ∀ f : String × α, f ∈ entries ↔ get? f.1 entries = some f.2 :=
    fun nodup _ => ⟨fun hf => get?_of_mem nodup hf, mem_of_get?⟩
  rw [List.perm_ext_iff_of_nodup (List.Nodup.of_map _ nodup) (List.Nodup.of_map _ nodup')]
  constructor
  · intro h name
    refine Option.ext fun a => ?_
    rw [← hfound nodup (name, a), ← hfound nodup' (name, a), h]
  · intro h f
    rw [hfound nodup, hfound nodup', h]

/-- What is found is the first entry of that name. -/
theorem get?_eq_filter (name : String) (entries : List (String × α)) :
    get? name entries = (entries.filter fun f => f.1 = name).head?.map Prod.snd := by
  induction entries with
  | nil => rfl
  | cons head rest ih =>
      obtain ⟨k, v⟩ := head
      by_cases hk : k = name
      · simp [get?, hk]
      · simpa [get?, hk] using ih

theorem get?_map {β : Type} (f : α → β) (name : String) (entries : List (String × α)) :
    get? name (entries.map fun p => (p.1, f p.2)) = (get? name entries).map f := by
  induction entries with
  | nil => rfl
  | cons head rest ih =>
      obtain ⟨k, v⟩ := head
      rw [List.map_cons, get?, get?]
      split
      · rfl
      · exact ih

theorem insert_of_not_mem {entries : List (String × α)} {name : String} (value : α)
    (h : name ∉ entries.map Prod.fst) : insert name value entries = entries ++ [(name, value)] := by
  induction entries with
  | nil => rfl
  | cons head rest ih =>
      obtain ⟨k, v⟩ := head
      simp only [List.map_cons, List.mem_cons, not_or] at h
      simp [insert, Ne.symm h.1, ih h.2]

/-- Entering a name that is listed moves nothing. -/
theorem keys_insert_of_mem {entries : List (String × α)} {name : String} (value : α)
    (h : name ∈ entries.map Prod.fst) :
    (insert name value entries).map Prod.fst = entries.map Prod.fst := by
  induction entries with
  | nil => simp at h
  | cons head rest ih =>
      obtain ⟨k, v⟩ := head
      by_cases hk : k = name
      · simp [insert, hk]
      · have hrest : name ∈ rest.map Prod.fst := by
          rcases List.mem_cons.mp h with heq | hrest
          · exact absurd heq.symm hk
          · exact hrest
        simp [insert, hk, ih hrest]

/-- Entering a value that is there changes nothing. -/
theorem insert_of_get? {key : String} {value : α} {entries : List (String × α)}
    (h : get? key entries = some value) : insert key value entries = entries := by
  induction entries with
  | nil => cases h
  | cons head rest ih =>
      obtain ⟨k, v⟩ := head
      rw [get?] at h
      rw [insert]
      by_cases hk : k = key
      · rw [if_pos hk] at h ⊢
        rw [Option.some.inj h]
      · rw [if_neg hk] at h ⊢
        rw [ih h]

/-- The values of a function for some names, looked up. -/
theorem get?_image (f : String → Option α) (names : List String) (key : String) :
    get? key (names.filterMap fun name => (f name).map fun a => (name, a)) =
      if key ∈ names then f key else none := by
  induction names with
  | nil => rfl
  | cons name rest ih =>
      cases hf : f name with
      | none =>
          rw [List.filterMap_cons_none (by simp [hf]), ih]
          by_cases hk : key = name
          · simp [hk, hf]
          · simp [hk]
      | some a =>
          rw [List.filterMap_cons_some (b := (name, a)) (by simp [hf]), get?, ih]
          by_cases hk : key = name
          · simp [hk, hf]
          · simp [hk, Ne.symm hk]

theorem keys_image_sublist (f : String → Option α) (names : List String) :
    ((names.filterMap fun name => (f name).map fun a => (name, a)).map Prod.fst).Sublist names := by
  induction names with
  | nil => exact .slnil
  | cons name rest ih =>
      cases hf : f name with
      | none =>
          rw [List.filterMap_cons_none (by simp [hf])]
          exact ih.cons name
      | some a =>
          rw [List.filterMap_cons_some (b := (name, a)) (by simp [hf])]
          exact ih.cons_cons name

end Assoc

namespace Record

variable {α β : Type}

@[simp]
theorem get?_empty (name : String) : (empty : Record α).get? name = none := rfl

@[simp]
theorem keys_empty : (empty : Record α).keys = [] := rfl

theorem get?_insert (r : Record α) (name key : String) (value : α) :
    (r.insert name value).get? key = if key = name then some value else r.get? key :=
  Assoc.get?_insert r.entries name key value

@[simp]
theorem get?_insert_self (r : Record α) (name : String) (value : α) :
    (r.insert name value).get? name = some value := by
  rw [get?_insert, if_pos rfl]

theorem get?_insert_of_ne (r : Record α) {name key : String} (value : α) (h : key ≠ name) :
    (r.insert name value).get? key = r.get? key := by
  rw [get?_insert, if_neg h]

theorem contains_iff_mem_keys (r : Record α) (name : String) :
    r.contains name = true ↔ name ∈ r.keys :=
  Assoc.get?_isSome r.entries name

theorem get?_eq_none_iff (r : Record α) (name : String) :
    r.get? name = none ↔ name ∉ r.keys :=
  Assoc.get?_eq_none r.entries name

/-- A name with a value is a key. -/
theorem mem_keys_of_get? {r : Record α} {name : String} {value : α}
    (h : r.get? name = some value) : name ∈ r.keys := by
  rw [← contains_iff_mem_keys, contains, h]
  rfl

/-- A new name goes to the end. -/
theorem keys_insert_of_not_mem (r : Record α) {name : String} (value : α) (h : name ∉ r.keys) :
    (r.insert name value).keys = r.keys ++ [name] := by
  simp only [keys, insert] at h ⊢
  rw [Assoc.insert_of_not_mem value h]
  simp

theorem keys_insert_of_mem (r : Record α) {name : String} (value : α) (h : name ∈ r.keys) :
    (r.insert name value).keys = r.keys :=
  Assoc.keys_insert_of_mem value h

theorem mem_keys_insert (r : Record α) (name key : String) (value : α) :
    key ∈ (r.insert name value).keys ↔ key = name ∨ key ∈ r.keys := by
  rw [← contains_iff_mem_keys, ← contains_iff_mem_keys, contains, get?_insert]
  by_cases h : key = name
  · simp [h]
  · simp [h, contains]

@[simp]
theorem length_keys (r : Record α) : r.keys.length = r.size := List.length_map _

/-- What a record still answers after a name was dropped, it answered before. -/
theorem get?_of_get?_erase {r : Record α} {name key : String} {value : α}
    (h : (r.erase name).get? key = some value) : r.get? key = some value :=
  Assoc.get?_of_mem r.nodup
    ((Assoc.erase_sublist name r.entries).subset (Assoc.mem_of_get? h))

theorem get?_erase (r : Record α) (name key : String) :
    (r.erase name).get? key = if key = name then none else r.get? key :=
  Assoc.get?_erase r.nodup name key

theorem get?_filter (r : Record α) (keep : α → Bool) (key : String) :
    (r.filter keep).get? key = (r.get? key).filter keep :=
  Assoc.get?_filter r.nodup keep key

/-- Entering the values of a function for some names. -/
theorem get?_insertAll_image (f : String → Option α) (names : List String) (r : Record α)
    (key : String) :
    (r.insertAll (names.filterMap fun name => (f name).map fun a => (name, a))).get? key =
      if key ∈ names then (f key).or (r.get? key) else r.get? key := by
  induction names generalizing r with
  | nil => simp [insertAll]
  | cons name rest ih =>
      cases hf : f name with
      | none =>
          rw [List.filterMap_cons_none (by simp [hf]), ih]
          by_cases hk : key = name
          · simp [hk, hf]
          · simp [hk]
      | some a =>
          have step : r.insertAll ((name :: rest).filterMap fun name =>
                (f name).map fun a => (name, a)) =
              (r.insert name a).insertAll
                (rest.filterMap fun name => (f name).map fun a => (name, a)) := by
            simp [insertAll, hf]
          rw [step, ih, get?_insert]
          by_cases hk : key = name
          · simp [hk, hf]
          · simp [hk]

/-- Names that are not entered keep their values. -/
theorem get?_insertAll_of_not_mem (r : Record α) {pairs : List (String × α)} {name : String}
    (h : name ∉ pairs.map Prod.fst) : (r.insertAll pairs).get? name = r.get? name := by
  induction pairs generalizing r with
  | nil => rfl
  | cons head rest ih =>
      rw [List.map_cons, List.mem_cons, not_or] at h
      have step : r.insertAll (head :: rest) = (r.insert head.1 head.2).insertAll rest := rfl
      rw [step, ih _ h.2, get?_insert_of_ne _ _ h.1]

/-- Of pairs with different names each is found. -/
theorem get?_insertAll_of_mem (r : Record α) {pairs : List (String × α)}
    (nodup : (pairs.map Prod.fst).Nodup) {name : String} {value : α} (h : (name, value) ∈ pairs) :
    (r.insertAll pairs).get? name = some value := by
  induction pairs generalizing r with
  | nil => cases h
  | cons head rest ih =>
      rw [List.map_cons, List.nodup_cons] at nodup
      have step : r.insertAll (head :: rest) = (r.insert head.1 head.2).insertAll rest := rfl
      rw [step]
      rcases List.mem_cons.mp h with rfl | h
      · rw [get?_insertAll_of_not_mem _ nodup.1, get?_insert_self]
      · exact ih _ nodup.2 h

/-- Entering values that are there changes nothing. -/
theorem insertAll_of_get? {r : Record α} {pairs : List (String × α)}
    (h : ∀ entry ∈ pairs, r.get? entry.1 = some entry.2) : r.insertAll pairs = r := by
  induction pairs with
  | nil => rfl
  | cons head rest ih =>
      have hhead : r.insert head.1 head.2 = r := by
        rw [insert]
        congr 1
        exact Assoc.insert_of_get? (h head List.mem_cons_self)
      have step : r.insertAll (head :: rest) = (r.insert head.1 head.2).insertAll rest := rfl
      rw [step, hhead, ih fun entry hentry => h entry (List.mem_cons_of_mem _ hentry)]

/-- A record made of the values of a function answers as the function, at the names it was made
from. -/
theorem get?_ofList_image (f : String → Option α) (names : List String) (key : String) :
    (ofList (names.filterMap fun name => (f name).map fun a => (name, a))).get? key =
      if key ∈ names then f key else none := by
  have h := get?_insertAll_image f names (empty : Record α) key
  simp only [get?_empty, Option.or_none] at h
  exact h

/-- Pairs with new, different names go to the end as they are. -/
theorem entries_insertAll_of_nodup (r : Record α) (pairs : List (String × α))
    (nodup : (r.keys ++ pairs.map Prod.fst).Nodup) :
    (r.insertAll pairs).entries = r.entries ++ pairs := by
  induction pairs generalizing r with
  | nil => simp [insertAll]
  | cons head rest ih =>
      have hnew : head.1 ∉ r.keys := by
        intro hmem
        rw [List.nodup_append] at nodup
        exact nodup.2.2 _ hmem _ (by simp) rfl
      have hkeys := r.keys_insert_of_not_mem head.2 hnew
      have hentries : (r.insert head.1 head.2).entries = r.entries ++ [head] :=
        Assoc.insert_of_not_mem head.2 hnew
      have step : r.insertAll (head :: rest) = (r.insert head.1 head.2).insertAll rest := rfl
      rw [step, ih _ (by simpa [hkeys] using nodup), hentries]
      simp

theorem entries_ofList_of_nodup (pairs : List (String × α))
    (nodup : (pairs.map Prod.fst).Nodup) : (ofList pairs).entries = pairs :=
  entries_insertAll_of_nodup empty pairs (by simpa using nodup)

theorem keys_ofList_of_nodup (pairs : List (String × α)) (nodup : (pairs.map Prod.fst).Nodup) :
    (ofList pairs).keys = pairs.map Prod.fst := by
  rw [keys, entries_ofList_of_nodup pairs nodup]

theorem get?_ofList_of_mem {pairs : List (String × α)} (nodup : (pairs.map Prod.fst).Nodup)
    {name : String} {value : α} (h : (name, value) ∈ pairs) :
    (ofList pairs).get? name = some value := by
  rw [get?, entries_ofList_of_nodup pairs nodup]
  exact Assoc.get?_of_mem nodup h

end Record

end RowPipeline
