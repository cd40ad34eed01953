import Mathlib.Data.List.Basic
import Mathlib.Tactic.ByContra
import RowPipeline.Parameter.Substitution
import RowPipeline.Proofs.Outcomes
import RowPipeline.Proofs.Placeholders
import RowPipeline.Proofs.Record

/-!
# Places in settings

A place in a JSON value is reached by names and numbers. Dropping closed conditions and putting in
parameters rewrite a value place by place. Away from filters, gates and expressions a string that stands
at a place afterwards stood there before, unless a string at that place or around it refers to a
parameter that has a value.
-/

namespace RowPipeline

namespace Json

/-- A move into a value: to a field of an object or an item of an array. -/
inductive Move where
  | field (key : String)
  | item (index : Nat)
deriving DecidableEq

def move? : Json → Move → Option Json
  | j, .field key => j.field? key
  | .array items, .item index => items[index]?
  | _, .item _ => none

/-- What stands at a place. -/
def at? (j : Json) : List Move → Option Json
  | [] => some j
  | m :: rest => (j.move? m).bind fun inner => inner.at? rest

theorem at?_field {j inner : Json} {key : String} {rest : List Move}
    (h : j.field? key = some inner) : j.at? (.field key :: rest) = inner.at? rest := by
  rw [at?, show j.move? (.field key) = _ from h, Option.bind_some]

theorem at?_item {items : List Json} {index : Nat} {item : Json} {rest : List Move}
    (h : items[index]? = some item) : (array items).at? (.item index :: rest) = item.at? rest := by
  rw [at?, show (array items).move? (.item index) = _ from h, Option.bind_some]

/-- A move that does not lead into a filter, a gate or an expression. -/
def Move.Plain : Move → Prop
  | .field key => key ∉ filterKeys ∧ key ≠ gateKey ∧ key ≠ expressionKey
  | .item _ => True

end Json

open Json

/-! ## Putting in parameters -/

/-- A text that refers to a parameter with a value. -/
def Mentions (params : Parameters) (text : String) : Prop :=
  ∃ name ∈ Piece.names text, (params.get? name).isSome = true

section Substitution

variable {params : Parameters}

/-- Where nothing is put in, a text stays as it is. -/
theorem fill_of_none {replace : String → Option String} {text : String}
    (h : ∀ name ∈ Piece.names text, replace name = none) : Piece.fill replace text = text := by
  refine String.toList_inj.mp ?_
  rw [Piece.fill_eq]
  exact Piece.fillChars_dead fun name source hmem => h name (Piece.mem_names.mpr ⟨source, hmem⟩)

theorem substituteString_of_not_mentions {text : String} (h : ¬ Mentions params text) :
    substituteString params text = .string text := by
  have hnone : ∀ name ∈ Piece.names text, params.get? name = none := by
    intro name hname
    by_contra hsome
    exact h ⟨name, hname, Option.isSome_iff_ne_none.mpr hsome⟩
  rw [substituteString]
  split
  · rename_i name source hscan
    rw [hnone name (Piece.mem_names_of_scan hscan)]
  · rw [fill_of_none]
    intro name hname
    rw [hnone name hname]
    rfl

theorem substituteItems_eq_map (items : List Json) :
    substituteItems params items = items.map (substituteValue params) := by
  induction items with
  | nil => rw [substituteItems, List.map_nil]
  | cons j rest ih => rw [substituteItems, ih, List.map_cons]

theorem get?_substituteFields {key : String} (gate : key ≠ gateKey) (expression : key ≠ expressionKey)
    (fields : List (String × Json)) :
    Assoc.get? key (substituteFields params fields) =
      (Assoc.get? key fields).map (substituteValue params) := by
  induction fields with
  | nil => rw [substituteFields, Assoc.get?, Option.map_none]
  | cons head rest ih =>
      obtain ⟨k, j⟩ := head
      by_cases hk : k = key
      · subst hk
        cases j with
        | string text => simp [substituteFields, Assoc.get?, gate, expression]
        | _ => simp [substituteFields, Assoc.get?, gate]
      · cases j with
        | string text => simpa [substituteFields, Assoc.get?, hk] using ih
        | _ => simpa [substituteFields, Assoc.get?, hk] using ih

/-- A string is rewritten as a whole; any other value is rewritten place by place. -/
theorem move?_substituteValue {m : Move} (plain : m.Plain) {j : Json}
    (other : ∀ text, j ≠ .string text) :
    (substituteValue params j).move? m = (j.move? m).map (substituteValue params) := by
  cases m with
  | field key =>
      cases j with
      | object fields =>
          rw [substituteValue]
          exact get?_substituteFields plain.2.1 plain.2.2 fields
      | string text => exact absurd rfl (other text)
      | array items =>
          rw [substituteValue]
          rfl
      | _ => rfl
  | item index =>
      cases j with
      | object fields =>
          rw [substituteValue]
          rfl
      | string text => exact absurd rfl (other text)
      | array items =>
          rw [substituteValue, move?, substituteItems_eq_map, List.getElem?_map]
          rfl
      | _ => rfl

/-- A string at a place was there before, unless a string there or around mentions a parameter. -/
theorem at?_substituteValue {places : List Move} (plain : ∀ m ∈ places, m.Plain) {j : Json}
    {text : String} (h : (substituteValue params j).at? places = some (.string text)) :
    j.at? places = some (.string text) ∨
      ∃ front rest outer, places = front ++ rest ∧ j.at? front = some (.string outer) ∧
        Mentions params outer := by
  induction places generalizing j with
  | nil =>
      have hvalue : substituteValue params j = .string text := Option.some.inj h
      cases j with
      | string outer =>
          -- a text that mentions no parameter stays as it was
          by_cases hmentions : Mentions params outer
          · exact .inr ⟨[], [], outer, rfl, rfl, hmentions⟩
          · rw [substituteValue, substituteString_of_not_mentions hmentions] at hvalue
            exact .inl (congrArg some hvalue)
      | array items =>
          rw [substituteValue] at hvalue
          cases hvalue
      | object fields =>
          rw [substituteValue] at hvalue
          cases hvalue
      | _ => cases hvalue
  | cons m rest ih =>
      -- the value of a parameter may be entered, but then the string around mentions it
      by_cases hstring : ∃ outer, j = .string outer
      · obtain ⟨outer, rfl⟩ := hstring
        by_cases hmentions : Mentions params outer
        · exact .inr ⟨[], m :: rest, outer, rfl, rfl, hmentions⟩
        · rw [substituteValue, substituteString_of_not_mentions hmentions] at h
          cases m <;> cases h
      · rw [at?, move?_substituteValue (plain m List.mem_cons_self)
          (fun outer heq => hstring ⟨outer, heq⟩)] at h
        cases hmove : j.move? m with
        | none =>
            rw [hmove] at h
            cases h
        | some inner =>
            rw [hmove, Option.map_some, Option.bind_some] at h
            rcases ih (fun m hm => plain m (List.mem_cons_of_mem _ hm)) h with
              h | ⟨front, back, outer, hrest, hfront, hmentions⟩
            · left
              rw [at?, hmove]
              exact h
            · right
              refine ⟨m :: front, back, outer, ?_, ?_, hmentions⟩
              · rw [hrest]
                rfl
              · rw [at?, hmove]
                exact hfront

/-- A string that mentions no parameter stays at its place. -/
theorem at?_substituteValue_string {places : List Move} (plain : ∀ m ∈ places, m.Plain) {j : Json}
    {text : String} (h : j.at? places = some (.string text)) (unmentioned : ¬ Mentions params text) :
    (substituteValue params j).at? places = some (.string text) := by
  induction places generalizing j with
  | nil =>
      obtain rfl := Option.some.inj h
      rw [substituteValue, substituteString_of_not_mentions unmentioned]
      rfl
  | cons m rest ih =>
      rw [at?] at h
      obtain ⟨inner, hmove, hrest⟩ := Option.bind_eq_some_iff.mp h
      have hother : ∀ outer, j ≠ .string outer := by
        rintro outer rfl
        cases m <;> cases hmove
      rw [at?, move?_substituteValue (plain m List.mem_cons_self) hother, hmove]
      exact ih (fun m hm => plain m (List.mem_cons_of_mem _ hm)) hrest

end Substitution

/-! ## Dropping closed conditions -/

section Filters

variable {params : Parameters} {path : String}

theorem get?_applyFilterChange {key : String} (fields : List (String × Json))
    {change : String × Option Json} (other : change.1 ≠ key) :
    Assoc.get? key (applyFilterChange fields change) = Assoc.get? key fields := by
  obtain ⟨name, value⟩ := change
  cases value with
  | some j => rw [applyFilterChange, Assoc.get?_insert, if_neg (Ne.symm other)]
  | none => rw [applyFilterChange, Assoc.get?_erase_of_ne other]

theorem get?_applyFilterChanges {key : String} (fields : List (String × Json))
    {changes : List (String × Option Json)} (other : ∀ change ∈ changes, change.1 ≠ key) :
    Assoc.get? key (changes.foldl applyFilterChange fields) = Assoc.get? key fields := by
  induction changes generalizing fields with
  | nil => rfl
  | cons change rest ih =>
      rw [List.foldl_cons, ih _ fun c hc => other c (List.mem_cons_of_mem _ hc)]
      exact get?_applyFilterChange fields (other change List.mem_cons_self)

/-- What a filter leads to is a change under its own key. -/
theorem filterChange_keys {key : String} {fields : List (String × Json)}
    {changes : List (String × Option Json)}
    (h : filterChange params path key fields = .ok changes) : ∀ change ∈ changes, change.1 = key := by
  unfold filterChange at h
  split at h
  · cases h
    intro change hchange
    cases hchange
  · split at h
    · cases h
    · cases h
      intro change hchange
      cases hchange
    · split at h
      · cases h
        intro change hchange
        rw [List.mem_singleton.mp hchange]
      · cases h
        intro change hchange
        cases hchange

/-- Dropping the closed conditions of a value, whatever its path, leads to another. -/
def Resolves (params : Parameters) (j j' : Json) : Prop :=
  ∃ path, resolveFilters params path j = .ok j'

theorem Resolves.string_iff {j j' : Json} (h : Resolves params j j') {text : String} :
    j' = .string text ↔ j = .string text := by
  obtain ⟨path, h⟩ := h
  cases j with
  | object fields =>
      rw [resolveFilters] at h
      obtain ⟨changes, -, h⟩ := bind_eq_ok h
      obtain ⟨inner, -, h⟩ := bind_eq_ok h
      cases h
      simp
  | array items =>
      rw [resolveFilters] at h
      obtain ⟨items', -, h⟩ := bind_eq_ok h
      cases h
      simp
  | _ =>
      unfold resolveFilters at h
      cases h
      rfl

theorem get?_resolveFiltersInFields {key : String} (plain : (Move.field key).Plain)
    {fields fields' : List (String × Json)}
    (h : resolveFiltersInFields params path fields = .ok fields') :
    Option.Rel (Resolves params) (Assoc.get? key fields) (Assoc.get? key fields') := by
  induction fields generalizing fields' with
  | nil =>
      rw [resolveFiltersInFields] at h
      cases h
      exact .none
  | cons head rest ih =>
      obtain ⟨k, j⟩ := head
      rw [resolveFiltersInFields] at h
      by_cases hk : k = key
      · subst hk
        have hinside : ¬ (decide (k ∈ filterKeys) || decide (k = gateKey)) = true := by
          simpa using ⟨plain.1, plain.2.1⟩
        rw [if_neg hinside] at h
        obtain ⟨first, hfirst, h⟩ := bind_eq_ok h
        obtain ⟨others, -, h⟩ := bind_eq_ok h
        cases h
        rw [Assoc.get?, Assoc.get?, if_pos rfl, if_pos rfl]
        exact .some ⟨_, hfirst⟩
      · have hothers : ∃ first others, resolveFiltersInFields params path rest = .ok others ∧
            fields' = (k, first) :: others := by
          split at h
          · obtain ⟨first, -, h⟩ := bind_eq_ok h
            obtain ⟨others, hothers, h⟩ := bind_eq_ok h
            cases h
            exact ⟨_, others, hothers, rfl⟩
          · obtain ⟨first, -, h⟩ := bind_eq_ok h
            obtain ⟨others, hothers, h⟩ := bind_eq_ok h
            cases h
            exact ⟨_, others, hothers, rfl⟩
        obtain ⟨first, others, hothers, rfl⟩ := hothers
        rw [Assoc.get?, Assoc.get?, if_neg hk, if_neg hk]
        exact ih hothers

theorem getElem?_resolveFiltersInItems {items items' : List Json} {start : Nat}
    (h : resolveFiltersInItems params path start items = .ok items') (index : Nat) :
    Option.Rel (Resolves params) items[index]? items'[index]? := by
  induction items generalizing items' start index with
  | nil =>
      rw [resolveFiltersInItems] at h
      cases h
      exact .none
  | cons head rest ih =>
      rw [resolveFiltersInItems] at h
      obtain ⟨first, hfirst, h⟩ := bind_eq_ok h
      obtain ⟨others, hothers, h⟩ := bind_eq_ok h
      cases h
      cases index with
      | zero => exact .some ⟨_, hfirst⟩
      | succ index => exact ih hothers index

theorem Resolves.move? {j j' : Json} (h : Resolves params j j') {m : Move} (plain : m.Plain) :
    Option.Rel (Resolves params) (j.move? m) (j'.move? m) := by
  obtain ⟨path, h⟩ := h
  cases j with
  | object fields =>
      rw [resolveFilters] at h
      obtain ⟨changes, hchanges, h⟩ := bind_eq_ok h
      obtain ⟨inner, hinner, h⟩ := bind_eq_ok h
      cases h
      cases m with
      | item index => exact .none
      | field key =>
          -- the changes are all made under keys of filters, and this is none
          have hsame : Assoc.get? key (changes.flatten.foldl applyFilterChange inner) =
              Assoc.get? key inner := by
            refine get?_applyFilterChanges inner ?_
            intro change hchange
            obtain ⟨list, hlist, hchange⟩ := List.mem_flatten.mp hchange
            obtain ⟨k, hk, hfilter⟩ := mem_of_mapM hchanges hlist
            rw [filterChange_keys hfilter change hchange]
            rintro rfl
            exact plain.1 hk
          change Option.Rel _ (Assoc.get? key fields) (Assoc.get? key _)
          rw [hsame]
          exact get?_resolveFiltersInFields plain hinner
  | array items =>
      rw [resolveFilters] at h
      obtain ⟨items', hitems, h⟩ := bind_eq_ok h
      cases h
      cases m with
      | field key => exact .none
      | item index => exact getElem?_resolveFiltersInItems hitems index
  | _ =>
      unfold resolveFilters at h
      cases h
      cases m <;> exact .none

/-- The strings at the places of a value stay, and there are no new ones. -/
theorem Resolves.at?_iff {places : List Move} (plain : ∀ m ∈ places, m.Plain) {j j' : Json}
    (h : Resolves params j j') {text : String} :
    j'.at? places = some (.string text) ↔ j.at? places = some (.string text) := by
  induction places generalizing j j' with
  | nil => exact Option.some_inj.trans (h.string_iff.trans Option.some_inj.symm)
  | cons m rest ih =>
      have hmove := h.move? (plain m List.mem_cons_self)
      rw [at?, at?]
      generalize j.move? m = inner at hmove
      generalize j'.move? m = inner' at hmove
      cases hmove with
      | none => rfl
      | some hinner => exact ih (fun m hm => plain m (List.mem_cons_of_mem _ hm)) hinner

end Filters

end RowPipeline
