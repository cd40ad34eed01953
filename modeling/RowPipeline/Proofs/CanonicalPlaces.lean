import RowPipeline.Proofs.NumberTexts
import RowPipeline.Proofs.Places
import RowPipeline.Proofs.SortKeys

/-!
# Places in canonical texts

Two values with one canonical text have the same canonical text at every place. The fields of an object
are told by their names, because sorting them leaves fields of one name in their order; the items of an
array are told by their numbers. So the strings that stand at the places of a value are told as well.
-/

namespace RowPipeline

namespace Json

theorem renderNumber_ne_nil (n : JsonNumber) : n.render.toList ≠ [] := by
  cases n with
  | int i => exact Decimal.toString_int_ne_nil i.toInt
  | big n => exact (Decimal.digits_toString n.toNat).nonempty
  | float x =>
      rw [JsonNumber.render]
      split
      · rename_i hfinite
        exact Decimal.write_ne_nil hfinite
      · simp

theorem canonical_ne_nil (j : Json) : j.canonical.toList ≠ [] := by
  cases j with
  | null => simp [canonical, render]
  | bool b => cases b <;> simp [canonical, render]
  | number n => exact renderNumber_ne_nil n
  | string s => exact renderString_ne_nil s
  | array items => simp [canonical]
  | object fields => simp [canonical]

/-! ## Kinds of values -/

/-- The character with which the text of a string, an array or an object begins. -/
def opening? : Json → Option Char
  | .string _ => some '"'
  | .array _ => some '['
  | .object _ => some '\x7b'
  | _ => none

theorem opening?_eq (j : Json) :
    j.opening? = j.canonical.toList.head?.filter (· ∈ ['"', '[', '\x7b']) := by
  cases j with
  | null => rfl
  | bool b => cases b <;> rfl
  | number n =>
      have hplain := plain_renderNumber n
      have htext : (number n).canonical = n.render := rfl
      rw [htext]
      generalize n.render.toList = text at hplain
      cases text with
      | nil => rfl
      | cons c rest =>
          rw [List.all_cons, Bool.and_eq_true] at hplain
          have hc := hplain.1
          simp only [List.mem_cons, List.not_mem_nil, or_false, not_or, decide_eq_true_eq] at hc
          simp [opening?, Option.filter, hc]
  | string s => simp [opening?, canonical, render, renderString, Option.filter]
  | array items => simp [opening?, canonical, Option.filter]
  | object fields => simp [opening?, canonical, Option.filter]

/-- The canonical text tells whether a value is an object or an array. -/
theorem opening?_told {j j' : Json} (h : j.canonical = j'.canonical) : j.opening? = j'.opening? := by
  rw [opening?_eq, opening?_eq, h]

/-- A string is told by its canonical text. -/
theorem string_told {s : String} {j : Json} (h : (string s).canonical = j.canonical) :
    j = .string s := by
  have hopening := opening?_told h
  cases j with
  | string t => rw [renderString_injective h]
  | _ => cases hopening

/-! ## Fields and items -/

/-- The fields of an object as its canonical text shows them. -/
def sortedFields (fields : List (String × Json)) : List (String × String) :=
  sortBy (fun a b => compare a.1 b.1) (fields.map fun f => (f.1, f.2.canonical))

def fieldText (f : String × String) : String := renderString f.1 ++ ":" ++ f.2

theorem canonical_object (fields : List (String × Json)) :
    (Json.object fields).canonical =
      "\x7b" ++ ",".intercalate ((sortedFields fields).map fieldText) ++ "\x7d" := by
  have hfields : canonicalFields fields = fields.map fun f => (f.1, f.2.canonical) := by
    induction fields with
    | nil => rfl
    | cons f rest ih => rw [canonicalFields, ih, List.map_cons]
  rw [canonical, hfields]
  rfl

/-- A field is told by its text: the name reads back, and the value is what is behind it. -/
theorem fieldText_injective : Function.Injective fieldText := by
  intro f f' h
  have hform : ∀ f : String × String,
      (fieldText f).toList.tail = (renderString f.1).toList.tail ++ ':' :: f.2.toList := by
    intro f
    rw [fieldText, String.toList_append, String.toList_append,
      List.append_assoc, List.tail_append_of_ne_nil (renderString_ne_nil f.1)]
    rfl
  have htails := congrArg (fun text : String => text.toList.tail) h
  rw [hform, hform] at htails
  have hread := readString_renderString f.1 (':' :: f.2.toList)
    (Nat.lt_succ_of_le (Nat.le_max_left _ f'.1.toList.length))
  rw [htails, readString_renderString f'.1 (':' :: f'.2.toList)
    (Nat.lt_succ_of_le (Nat.le_max_right f.1.toList.length _))] at hread
  simp only [Except.ok.injEq, Prod.mk.injEq, List.cons.injEq, true_and] at hread
  exact Prod.ext hread.1.symm (String.toList_inj.mp hread.2).symm

theorem items_told {items items' : List Json}
    (h : (Json.array items).canonical = (Json.array items').canonical) :
    items.map canonical = items'.map canonical := by
  rw [canonical_array, canonical_array, String.append_left_inj, String.append_right_inj] at h
  have htexts : ∀ items : List Json, ∀ t ∈ items.map canonical,
      Passes 0 t.toList ∧ t.toList ≠ [] := by
    intro items t ht
    obtain ⟨j, -, rfl⟩ := List.mem_map.mp ht
    exact ⟨passes_canonical j, canonical_ne_nil j⟩
  exact intercalate_told (htexts items) (htexts items') h

theorem sortedFields_told {fields fields' : List (String × Json)}
    (h : (Json.object fields).canonical = (Json.object fields').canonical) :
    sortedFields fields = sortedFields fields' := by
  rw [canonical_object, canonical_object, String.append_left_inj, String.append_right_inj] at h
  have htexts : ∀ fields : List (String × Json), ∀ t ∈ (sortedFields fields).map fieldText,
      Passes 0 t.toList ∧ t.toList ≠ [] := by
    intro fields t ht
    obtain ⟨f, hf, rfl⟩ := List.mem_map.mp ht
    rw [sortedFields, mem_sortBy] at hf
    obtain ⟨field, -, rfl⟩ := List.mem_map.mp hf
    rw [fieldText, String.toList_append, String.toList_append]
    refine ⟨?_, by simp⟩
    exact ((passes_renderString field.1).append (Passes.plain (by decide))).append
      (passes_canonical field.2)
  exact List.map_injective_iff.mpr fieldText_injective
    (intercalate_told (htexts fields) (htexts fields') h)

/-- Sorting leaves fields of one name in their order. -/
theorem filter_sortedFields (key : String) (fields : List (String × Json)) :
    (sortedFields fields).filter (fun f => f.1 = key) =
      (fields.map fun f => (f.1, f.2.canonical)).filter fun f => f.1 = key := by
  have hcompares : ComparesOn (· ∈ fields.map fun f => (f.1, f.2.canonical))
      fun a b : String × String => compare a.1 b.1 :=
    @ComparesOn.of_transCmp _ _ _ (inferInstanceAs (Std.TransCmp (compareOn Prod.fst)))
  have hsorted : StableSort (fun a b : String × String => compare a.1 b.1 = .lt)
      (fields.map fun f => (f.1, f.2.canonical)) (sortedFields fields) :=
    stableSort_sortBy (hcompares.weakOrderOn fun _ _ _ _ => Iff.rfl) fun _ _ _ _ => Iff.rfl
  refine hsorted.filter_eq fun b _ c _ hb hc hbefore => ?_
  rw [of_decide_eq_true hb, of_decide_eq_true hc, Std.ReflOrd.compare_self] at hbefore
  cases hbefore

/-- The canonical text of an object tells those of its fields. -/
theorem get?_told {fields fields' : List (String × Json)}
    (h : (Json.object fields).canonical = (Json.object fields').canonical) (key : String) :
    (Assoc.get? key fields).map canonical = (Assoc.get? key fields').map canonical := by
  rw [← Assoc.get?_map, ← Assoc.get?_map, Assoc.get?_eq_filter, Assoc.get?_eq_filter,
    ← filter_sortedFields, ← filter_sortedFields, sortedFields_told h]

/-! ## Places -/

theorem move?_told {j j' : Json} (h : j.canonical = j'.canonical) (m : Move) :
    (j.move? m).map canonical = (j'.move? m).map canonical := by
  have hopening := opening?_told h
  cases j with
  | object fields =>
      cases j' with
      | object fields' =>
          cases m with
          | field key => exact get?_told h key
          | item index => rfl
      | _ => cases hopening
  | array items =>
      cases j' with
      | array items' =>
          cases m with
          | field key => rfl
          | item index =>
              change items[index]?.map canonical = items'[index]?.map canonical
              rw [← List.getElem?_map, ← List.getElem?_map, items_told h]
      | _ => cases hopening
  | _ => cases j' <;> cases hopening <;> cases m <;> rfl

/-- Values with one canonical text have it in common at every place. -/
theorem at?_told {j j' : Json} (h : j.canonical = j'.canonical) (places : List Move) :
    (j.at? places).map canonical = (j'.at? places).map canonical := by
  induction places generalizing j j' with
  | nil => exact congrArg some h
  | cons m rest ih =>
      have hmove := move?_told h m
      rw [at?, at?]
      cases hinner : j.move? m with
      | none =>
          rw [hinner, Option.map_none] at hmove
          rw [Option.map_eq_none_iff.mp hmove.symm]
      | some inner =>
          rw [hinner, Option.map_some] at hmove
          obtain ⟨inner', hinner', hsame⟩ := Option.map_eq_some_iff.mp hmove.symm
          rw [hinner']
          exact ih hsame.symm

/-- The strings at the places of a value are told by its canonical text. -/
theorem string_at?_told {j j' : Json} (h : j.canonical = j'.canonical) {places : List Move}
    {text : String} (hat : j.at? places = some (.string text)) :
    j'.at? places = some (.string text) := by
  have hplace := at?_told h places
  rw [hat, Option.map_some] at hplace
  obtain ⟨found, hfound, hsame⟩ := Option.map_eq_some_iff.mp hplace.symm
  rw [hfound, string_told hsame.symm]

end Json

end RowPipeline
