/-!
# Ordered records

A record maps names to values and keeps the order in which the names first came. Nested objects are
plain association lists; `Record` adds that no name comes twice.
-/

namespace RowPipeline

namespace Assoc

variable {α : Type}

/-- The value of the first entry with this name. -/
def get? (name : String) : List (String × α) → Option α
  | [] => none
  | (k, v) :: rest => if k = name then some v else get? name rest

/-- Replace the value in place, or append a new entry. -/
def insert (name : String) (value : α) : List (String × α) → List (String × α)
  | [] => [(name, value)]
  | (k, v) :: rest => if k = name then (k, value) :: rest else (k, v) :: insert name value rest

/-- Drop the entry with this name; the later ones move up. -/
def erase (name : String) : List (String × α) → List (String × α)
  | [] => []
  | (k, v) :: rest => if k = name then rest else (k, v) :: erase name rest

/-- Each name once, with its last value at its first place. -/
def merge (entries : List (String × α)) : List (String × α) :=
  entries.foldl (fun merged p => insert p.1 p.2 merged) []

theorem mem_keys_insert {name : String} {value : α} {entries : List (String × α)} {key : String}
    (h : key ∈ (insert name value entries).map Prod.fst) :
    key = name ∨ key ∈ entries.map Prod.fst := by
  induction entries with
  | nil => simpa [insert] using h
  | cons head rest ih =>
      obtain ⟨k, v⟩ := head
      by_cases hk : k = name
      · right
        simpa [insert, hk] using h
      · simp only [insert, hk, if_false, List.map_cons, List.mem_cons] at h ⊢
        rcases h with h | h
        · exact .inr (.inl h)
        · rcases ih h with h | h
          · exact .inl h
          · exact .inr (.inr h)

theorem nodup_keys_insert {name : String} {value : α} {entries : List (String × α)}
    (h : (entries.map Prod.fst).Nodup) : ((insert name value entries).map Prod.fst).Nodup := by
  induction entries with
  | nil => simp [insert]
  | cons head rest ih =>
      obtain ⟨k, v⟩ := head
      rw [List.map_cons, List.nodup_cons] at h
      by_cases hk : k = name
      · simpa [insert, hk] using h
      · simp only [insert, hk, if_false, List.map_cons, List.nodup_cons]
        refine ⟨fun hm => ?_, ih h.2⟩
        rcases mem_keys_insert hm with hm | hm
        · exact hk hm
        · exact h.1 hm

theorem erase_sublist (name : String) (entries : List (String × α)) :
    (erase name entries).Sublist entries := by
  induction entries with
  | nil => exact .slnil
  | cons head rest ih =>
      obtain ⟨k, v⟩ := head
      by_cases hk : k = name
      · simp [erase, hk]
      · simpa [erase, hk] using ih

end Assoc

/-- Named values in order, each name once. -/
structure Record (α : Type) where
  entries : List (String × α)
  nodup : (entries.map Prod.fst).Nodup
deriving DecidableEq

namespace Record

variable {α β : Type}

def empty : Record α := ⟨[], .nil⟩

instance : EmptyCollection (Record α) := ⟨empty⟩

instance : Inhabited (Record α) := ⟨empty⟩

def get? (r : Record α) (name : String) : Option α := Assoc.get? name r.entries

def contains (r : Record α) (name : String) : Bool := (r.get? name).isSome

/-- Replace the value of a name in place, or append the name. -/
def insert (r : Record α) (name : String) (value : α) : Record α :=
  ⟨Assoc.insert name value r.entries, Assoc.nodup_keys_insert r.nodup⟩

/-- Drop a name; the order of the others stays. -/
def erase (r : Record α) (name : String) : Record α :=
  ⟨Assoc.erase name r.entries,
    ((Assoc.erase_sublist name r.entries).map Prod.fst).nodup r.nodup⟩

def keys (r : Record α) : List String := r.entries.map Prod.fst

def values (r : Record α) : List α := r.entries.map Prod.snd

def size (r : Record α) : Nat := r.entries.length

def isEmpty (r : Record α) : Bool := r.entries.isEmpty

/-- Enter the pairs one after the other; of a repeated name the last value stays, at the first
place. -/
def ofList (pairs : List (String × α)) : Record α :=
  pairs.foldl (fun r p => r.insert p.1 p.2) empty

def map (f : α → β) (r : Record α) : Record β :=
  ⟨r.entries.map fun p => (p.1, f p.2), by
    have := r.nodup
    simpa [List.map_map, Function.comp_def] using this⟩

/-- The entries whose value passes a test. -/
def filter (keep : α → Bool) (r : Record α) : Record α :=
  ⟨r.entries.filter fun p => keep p.2,
    (List.filter_sublist.map Prod.fst).nodup r.nodup⟩

/-- Enter the pairs of a second record into the first. -/
def insertAll (r : Record α) (pairs : List (String × α)) : Record α :=
  pairs.foldl (fun r p => r.insert p.1 p.2) r

end Record

end RowPipeline
