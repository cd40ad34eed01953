import RowPipeline.Proofs.CanonicalPlaces
import RowPipeline.Proofs.RowIdentity

/-!
# Canonical texts and equality

Without doubles, values have one canonical text exactly if they are equal but for the order of the names of
their objects. A canonical text has no line break in it, so the lines of a row set are told apart, and what
its fingerprint is taken of stands for the rows.
-/

namespace RowPipeline

namespace Json

/-! ## Values without doubles -/

mutual

/-- A value without doubles. Its objects have each name once, and an integer is unsigned only past the
signed range, as in every value that is read. -/
def Exact : Json → Prop
  | .number (.big n) => 2 ^ 63 ≤ n.toNat
  | .number (.float _) => False
  | .array items => ExactItems items
  | .object fields => (fields.map Prod.fst).Nodup ∧ ExactFields fields
  | .null | .bool _ | .number (.int _) | .string _ => True

def ExactItems : List Json → Prop
  | [] => True
  | j :: rest => j.Exact ∧ ExactItems rest

def ExactFields : List (String × Json) → Prop
  | [] => True
  | f :: rest => f.2.Exact ∧ ExactFields rest

end

theorem exactFields_iff (fields : List (String × Json)) :
    ExactFields fields ↔ ∀ f ∈ fields, f.2.Exact := by
  induction fields with
  | nil => simp [ExactFields]
  | cons f rest ih => simp [ExactFields, ih]

/-! ## Kinds of values -/

/-- A character for each kind of value. -/
def mark : Json → Char
  | .null => 'n'
  | .bool _ => 't'
  | .number _ => '0'
  | .string _ => '"'
  | .array _ => '['
  | .object _ => '\x7b'

/-- The kind of value that a text with this first character stands for. -/
def markOf (c : Char) : Char :=
  if isNumberChar c then '0' else if c = 'f' then 't' else c

theorem numberChars_render {n : JsonNumber} (h : (number n).Exact) :
    ∀ c ∈ n.render.toList, isNumberChar c = true := by
  cases n with
  | int i => exact numberChars_int i.toInt
  | big n => exact numberChars_nat n.toNat
  | float x => exact h.elim

theorem mark_eq {j : Json} (h : j.Exact) : j.canonical.toList.head?.map markOf = some j.mark := by
  cases j with
  | null => rfl
  | bool b => cases b <;> rfl
  | number n =>
      have htext : (number n).canonical = n.render := rfl
      rw [htext]
      cases hrender : n.render.toList with
      | nil => exact absurd hrender (renderNumber_ne_nil n)
      | cons c rest =>
          have hc := numberChars_render h c (by rw [hrender]; exact List.mem_cons_self)
          simp [mark, markOf, hc]
  | string s => simp [mark, markOf, canonical, render, renderString, isNumberChar, Text.isAsciiDigit]
  | array items => simp [mark, markOf, canonical, isNumberChar, Text.isAsciiDigit]
  | object fields => simp [mark, markOf, canonical, isNumberChar, Text.isAsciiDigit]

theorem mark_told {a b : Json} (ha : a.Exact) (hb : b.Exact) (h : a.canonical = b.canonical) :
    a.mark = b.mark := by
  have hmarks := mark_eq ha
  rw [h, mark_eq hb] at hmarks
  exact (Option.some.inj hmarks).symm

theorem toInt_lt_big {i : Int64} {n : UInt64} (hn : 2 ^ 63 ≤ n.toNat) : i.toInt ≠ n.toNat := by
  have hi := i.toInt_lt
  omega

/-- Without doubles, a number is told by its text. -/
theorem render_eq_iff {n m : JsonNumber} (hn : (number n).Exact) (hm : (number m).Exact) :
    n.render = m.render ↔ n.same m = true := by
  cases n with
  | float x => exact hn.elim
  | int i =>
      cases m with
      | float x => exact hm.elim
      | int k =>
          show toString i.toInt = toString k.toInt ↔ (i == k) = true
          rw [beq_iff_eq, ← Int64.toInt_inj]
          exact ⟨Decimal.toString_int_injective, congrArg toString⟩
      | big k =>
          show toString i.toInt = toString (k.toNat : Int) ↔ false = true
          exact ⟨fun h => absurd (Decimal.toString_int_injective h) (toInt_lt_big hm), nofun⟩
  | big k =>
      cases m with
      | float x => exact hm.elim
      | int i =>
          show toString (k.toNat : Int) = toString i.toInt ↔ false = true
          exact ⟨fun h => absurd (Decimal.toString_int_injective h).symm (toInt_lt_big hn), nofun⟩
      | big l =>
          show toString k.toNat = toString l.toNat ↔ (k == l) = true
          rw [beq_iff_eq, ← UInt64.toNat_inj]
          exact ⟨toString_injective, congrArg toString⟩

/-! ## Arrays and objects -/

theorem array_canonical_iff (as bs : List Json) :
    (array as).canonical = (array bs).canonical ↔ as.map canonical = bs.map canonical := by
  refine ⟨items_told, fun h => ?_⟩
  rw [canonical_array, canonical_array, h]

/-- Whether each field of the first list is in the second, as far as the canonical texts tell. -/
def Finds (other fields : List (String × Json)) : Prop :=
  ∀ f ∈ fields, (Assoc.get? f.1 other).map canonical = some f.2.canonical

theorem names_subset_of_finds {fields other : List (String × Json)} (h : Finds other fields) :
    fields.map Prod.fst ⊆ other.map Prod.fst := by
  intro name hname
  obtain ⟨f, hf, rfl⟩ := List.mem_map.mp hname
  rw [← Assoc.get?_isSome, ← Option.isSome_map (f := canonical), h f hf]
  rfl

/-- The canonical texts of objects are the same if there are as many fields, and each of one is found in the
other. -/
theorem object_canonical_iff {as bs : List (String × Json)} (ha : (as.map Prod.fst).Nodup)
    (hb : (bs.map Prod.fst).Nodup) :
    (object as).canonical = (object bs).canonical ↔ as.length = bs.length ∧ Finds bs as := by
  constructor
  · intro h
    have hsorted := congrArg List.length (sortedFields_told h)
    have hlength : ∀ fields : List (String × Json), (sortedFields fields).length = fields.length := by
      intro fields
      rw [sortedFields, (sortBy_perm _ _).length_eq, List.length_map]
    refine ⟨by rwa [hlength, hlength] at hsorted, fun f hf => ?_⟩
    rw [← get?_told h, Assoc.get?_of_mem ha hf]
    rfl
  · rintro ⟨hlength, hfinds⟩
    have hnames : ∀ fields : List (String × Json),
        ((fields.map fun f => (f.1, f.2.canonical)).map Prod.fst) = fields.map Prod.fst := by
      intro fields
      rw [List.map_map]
      rfl
    have hsame : (as.map Prod.fst).Perm (bs.map Prod.fst) :=
      (List.subperm_of_subset ha (names_subset_of_finds hfinds)).perm_of_length_le (by simp [hlength])
    have hperm : (as.map fun f => (f.1, f.2.canonical)).Perm (bs.map fun f => (f.1, f.2.canonical)) := by
      rw [Assoc.perm_iff_get? (by rwa [hnames]) (by rwa [hnames])]
      intro name
      rw [Assoc.get?_map, Assoc.get?_map]
      cases hfound : Assoc.get? name as with
      | some a => exact (hfinds _ (Assoc.mem_of_get? hfound)).symm
      | none =>
          have hmissing : Assoc.get? name bs = none := by
            rw [Assoc.get?_eq_none] at hfound ⊢
            exact fun hmem => hfound (hsame.mem_iff.mpr hmem)
          rw [hmissing]
    rw [canonical_object, canonical_object, sortedFields, sortedFields,
      (sortBy_names_eq_iff (by rwa [hnames])).mpr hperm]

theorem mark_of_same {a b : Json} (h : a.same b = true) : a.mark = b.mark := by
  cases a <;> cases b <;> first | rfl | cases h

/-! ## Canonical texts -/

mutual

/-- Values have one canonical text if they are equal, the order of names left out. -/
theorem canonical_eq_iff (a : Json) (ha : a.Exact) {b : Json} (hb : b.Exact) :
    a.canonical = b.canonical ↔ a.same b = true := by
  by_cases hmark : a.mark = b.mark
  · cases a with
    | null =>
        cases b with
        | null => exact iff_of_true rfl rfl
        | _ => simp [mark] at hmark
    | bool x =>
        cases b with
        | bool y => cases x <;> cases y <;> simp [same, canonical, render]
        | _ => simp [mark] at hmark
    | number n =>
        cases b with
        | number m => exact render_eq_iff ha hb
        | _ => simp [mark] at hmark
    | string s =>
        cases b with
        | string t =>
            show renderString s = renderString t ↔ (s == t) = true
            rw [renderString_injective.eq_iff, beq_iff_eq]
        | _ => simp [mark] at hmark
    | array as =>
        cases b with
        | array bs => exact (array_canonical_iff as bs).trans (items_canonical_iff as ha hb)
        | _ => simp [mark] at hmark
    | object as =>
        cases b with
        | object bs =>
            rw [object_canonical_iff ha.1 hb.1, fields_canonical_iff as ha.2 hb.2, same,
              Bool.and_eq_true_iff, beq_iff_eq]
        | _ => simp [mark] at hmark
  · exact iff_of_false (fun h => hmark (mark_told ha hb h)) fun h => hmark (mark_of_same h)

theorem items_canonical_iff (as : List Json) (ha : ExactItems as) {bs : List Json} (hb : ExactItems bs) :
    as.map canonical = bs.map canonical ↔ sameItems as bs = true := by
  cases as with
  | nil => cases bs <;> simp [sameItems]
  | cons a as =>
      cases bs with
      | nil => simp [sameItems]
      | cons b bs =>
          rw [List.map_cons, List.map_cons, List.cons.injEq, sameItems, Bool.and_eq_true_iff,
            canonical_eq_iff a ha.1 hb.1, items_canonical_iff as ha.2 hb.2]

theorem fields_canonical_iff (as : List (String × Json)) (ha : ExactFields as)
    {other : List (String × Json)} (hother : ExactFields other) :
    Finds other as ↔ sameFields as other = true := by
  cases as with
  | nil => simp [sameFields, Finds]
  | cons f as =>
      obtain ⟨name, a⟩ := f
      rw [Finds, List.forall_mem_cons, sameFields, Bool.and_eq_true_iff]
      refine and_congr ?_ (fields_canonical_iff as ha.2 hother)
      cases hfound : Assoc.get? name other with
      | none => simp
      | some b =>
          have hb : b.Exact := (exactFields_iff other).mp hother _ (Assoc.mem_of_get? hfound)
          rw [Option.map_some, Option.some.injEq, eq_comm]
          exact canonical_eq_iff a ha.1 hb

end

/-! ## Line breaks -/

theorem line_break_not_mem_escapedChar (c : Char) : '\n' ∉ escapedChar c := by
  have hwritten := escapedChar_written c
  generalize escapedChar c = text at hwritten ⊢
  cases hwritten with
  | letter _ hd =>
      simp only [List.mem_cons, List.not_mem_nil, or_false, not_or]
      refine ⟨by decide, ?_⟩
      rintro rfl
      cases hd
  | digits hcontrol =>
      have hdigits : ∀ n < 0x10, '\n' ≠ Nat.digitChar n := by decide
      simp [hdigits (c.toNat / 16) (by omega), hdigits (c.toNat % 16) (by omega)]
  | plain _ _ hprinted =>
      simp only [List.mem_singleton]
      rintro rfl
      exact absurd hprinted (by decide)

theorem line_break_not_mem_renderString (s : String) : '\n' ∉ (renderString s).toList := by
  simp [renderString, line_break_not_mem_escapedChar]

theorem line_break_not_mem_number (n : JsonNumber) : '\n' ∉ n.render.toList := by
  have hchars : ∀ {cs : List Char}, (∀ c ∈ cs, isNumberChar c = true) → '\n' ∉ cs :=
    fun h hmem => absurd (h _ hmem) (by decide)
  cases n with
  | int i => exact hchars (numberChars_int i.toInt)
  | big n => exact hchars (numberChars_nat n.toNat)
  | float x =>
      rw [JsonNumber.render]
      split
      · rename_i hx
        exact hchars (numberChars_write hx)
      · decide

theorem line_break_not_mem_intercalate {texts : List String} (h : ∀ t ∈ texts, '\n' ∉ t.toList) :
    '\n' ∉ (",".intercalate texts).toList := by
  cases texts with
  | nil => simp
  | cons t rest =>
      rw [List.forall_mem_cons] at h
      rw [toList_intercalate_cons, List.mem_append, List.mem_flatMap, not_or]
      refine ⟨h.1, ?_⟩
      rintro ⟨u, hu, hmem⟩
      rcases List.mem_cons.mp hmem with hcomma | hmem
      · exact absurd hcomma (by decide)
      · exact h.2 u hu hmem

mutual

/-- A canonical text is a single line. -/
theorem line_break_not_mem_canonical (j : Json) : '\n' ∉ j.canonical.toList := by
  cases j with
  | null => decide
  | bool b => cases b <;> decide
  | number n => exact line_break_not_mem_number n
  | string s => exact line_break_not_mem_renderString s
  | array items =>
      rw [canonical_array]
      simp only [String.toList_append, List.mem_append, not_or]
      exact ⟨⟨by decide, line_break_not_mem_intercalate (line_break_not_mem_items items)⟩, by decide⟩
  | object fields =>
      have hfields : ∀ t ∈ (sortedFields fields).map fieldText, '\n' ∉ t.toList := by
        intro t ht
        obtain ⟨f, hf, rfl⟩ := List.mem_map.mp ht
        rw [sortedFields, mem_sortBy] at hf
        simp [fieldText, line_break_not_mem_renderString f.1, line_break_not_mem_fields fields f hf]
      rw [canonical_object]
      simp only [String.toList_append, List.mem_append, not_or]
      exact ⟨⟨by decide, line_break_not_mem_intercalate hfields⟩, by decide⟩

theorem line_break_not_mem_items (items : List Json) :
    ∀ t ∈ items.map canonical, '\n' ∉ t.toList := by
  cases items with
  | nil => simp
  | cons item rest =>
      exact List.forall_mem_cons.mpr ⟨line_break_not_mem_canonical item, line_break_not_mem_items rest⟩

theorem line_break_not_mem_fields (fields : List (String × Json)) :
    ∀ f ∈ fields.map fun f => (f.1, f.2.canonical), '\n' ∉ f.2.toList := by
  cases fields with
  | nil => simp
  | cons f rest =>
      exact List.forall_mem_cons.mpr ⟨line_break_not_mem_canonical f.2, line_break_not_mem_fields rest⟩

end

end Json

/-! ## Rows -/

theorem canonicalRows_cons (r : Row) (rows : List Row) :
    (canonicalRows (r :: rows)).toList =
      r.toJson.canonical.toList ++ '\n' :: (canonicalRows rows).toList := by
  simp [canonicalRows]

theorem canonicalRows_told {rows others : List Row} (h : canonicalRows rows = canonicalRows others) :
    rows.map (·.toJson.canonical) = others.map (·.toJson.canonical) := by
  induction rows generalizing others with
  | nil =>
      cases others with
      | nil => rfl
      | cons s others =>
          have htexts := congrArg String.toList h
          rw [canonicalRows_cons] at htexts
          exact absurd htexts.symm (by simp [canonicalRows])
  | cons r rows ih =>
      have htexts := congrArg String.toList h
      cases others with
      | nil =>
          rw [canonicalRows_cons] at htexts
          exact absurd htexts (by simp [canonicalRows])
      | cons s others =>
          rw [canonicalRows_cons, canonicalRows_cons] at htexts
          obtain ⟨hrow, hrows⟩ := split_first (Json.line_break_not_mem_canonical _)
            (Json.line_break_not_mem_canonical _) htexts
          rw [List.map_cons, List.map_cons, String.toList_inj.mp hrow, ih (String.toList_inj.mp hrows)]

/-- The texts of rows are told from what their fingerprint is taken of. -/
theorem canonicalRows_eq_iff (rows others : List Row) :
    canonicalRows rows = canonicalRows others ↔
      rows.map (·.toJson.canonical) = others.map (·.toJson.canonical) := by
  refine ⟨canonicalRows_told, fun h => ?_⟩
  have hlines : ∀ rows : List Row,
      canonicalRows rows = String.join ((rows.map (·.toJson.canonical)).map (· ++ "\n")) := by
    intro rows
    rw [List.map_map]
    rfl
  rw [hlines, hlines, h]

/-! ## Values as JSON -/

namespace Value

theorem exactFields_iff (fields : List (String × Value)) :
    ExactFields fields ↔ ∀ f ∈ fields, f.2.Exact := by
  induction fields with
  | nil => simp [ExactFields]
  | cons f rest ih => simp [ExactFields, ih]

theorem namedOnceFields_iff (fields : List (String × Value)) :
    NamedOnceFields fields ↔ ∀ f ∈ fields, f.2.NamedOnce := by
  induction fields with
  | nil => simp [NamedOnceFields]
  | cons f rest ih => simp [NamedOnceFields, ih]

theorem fieldsToJson_eq_map (fields : List (String × Value)) :
    fieldsToJson fields = fields.map fun f => (f.1, f.2.toJson) := by
  induction fields with
  | nil => rfl
  | cons f rest ih => rw [fieldsToJson, ih, List.map_cons]

theorem names_fieldsToJson (fields : List (String × Value)) :
    (fieldsToJson fields).map Prod.fst = fields.map Prod.fst := by
  rw [fieldsToJson_eq_map, List.map_map]
  rfl

mutual

theorem exact_toJson (v : Value) (h : v.Exact) (named : v.NamedOnce) : v.toJson.Exact := by
  cases v with
  | float x => exact h.elim
  | array items => exact exact_itemsToJson items h named
  | object fields =>
      rw [toJson, Json.Exact, names_fieldsToJson]
      exact ⟨named.1, exact_fieldsToJson fields h named.2⟩
  | _ => trivial

theorem exact_itemsToJson (items : List Value) (h : ExactItems items) (named : NamedOnceItems items) :
    Json.ExactItems (itemsToJson items) := by
  cases items with
  | nil => trivial
  | cons v rest => exact ⟨exact_toJson v h.1 named.1, exact_itemsToJson rest h.2 named.2⟩

theorem exact_fieldsToJson (fields : List (String × Value)) (h : ExactFields fields)
    (named : NamedOnceFields fields) : Json.ExactFields (fieldsToJson fields) := by
  cases fields with
  | nil => trivial
  | cons f rest => exact ⟨exact_toJson f.2 h.1 named.1, exact_fieldsToJson rest h.2 named.2⟩

end

mutual

/-- Without doubles, values are equal exactly if their JSON is. -/
theorem same_toJson (v : Value) (hv : v.Exact) {w : Value} (hw : w.Exact) :
    v.toJson.same w.toJson = v.same w := by
  cases v with
  | float x => exact hv.elim
  | array items =>
      cases w with
      | float y => exact hw.elim
      | array others => exact sameItems_toJson items hv hw
      | _ => rfl
  | object fields =>
      cases w with
      | float y => exact hw.elim
      | object others =>
          rw [toJson, toJson, Json.same, same, sameFields_toJson fields hv hw, fieldsToJson_eq_map,
            fieldsToJson_eq_map, List.length_map, List.length_map]
      | _ => rfl
  | _ =>
      cases w with
      | float y => exact hw.elim
      | _ => rfl

theorem sameItems_toJson (items : List Value) (hv : ExactItems items) {others : List Value}
    (hw : ExactItems others) :
    Json.sameItems (itemsToJson items) (itemsToJson others) = sameItems items others := by
  cases items with
  | nil => cases others <;> rfl
  | cons v rest =>
      cases others with
      | nil => rfl
      | cons w others =>
          rw [itemsToJson, itemsToJson, Json.sameItems, sameItems, same_toJson v hv.1 hw.1,
            sameItems_toJson rest hv.2 hw.2]

theorem sameFields_toJson (fields : List (String × Value)) (hv : ExactFields fields)
    {others : List (String × Value)} (hw : ExactFields others) :
    Json.sameFields (fieldsToJson fields) (fieldsToJson others) = sameFields fields others := by
  cases fields with
  | nil => rfl
  | cons f rest =>
      obtain ⟨name, v⟩ := f
      rw [fieldsToJson, Json.sameFields, sameFields, sameFields_toJson rest hv.2 hw,
        fieldsToJson_eq_map others, Assoc.get?_map]
      cases hfound : Assoc.get? name others with
      | none => rfl
      | some w =>
          have hexact : w.Exact := (exactFields_iff others).mp hw _ (Assoc.mem_of_get? hfound)
          simp only [Option.map_some]
          rw [same_toJson v hv.1 hexact]

end

end Value

/-- Rows with the same columns and the same values in them, whatever the order of the columns. -/
def Row.same (r s : Row) : Bool := (Value.object r.entries).same (.object s.entries)

/-- A row that holds no doubles, inside of its values too, and whose objects have each name once. -/
def Row.Plain (r : Row) : Prop := ∀ v ∈ r.values, v.Exact ∧ v.NamedOnce

theorem Row.Plain.object {r : Row} (h : r.Plain) :
    (Value.object r.entries).Exact ∧ (Value.object r.entries).NamedOnce := by
  have hvalues : ∀ f ∈ r.entries, f.2.Exact ∧ f.2.NamedOnce :=
    fun f hf => h f.2 (List.mem_map_of_mem hf)
  exact ⟨(Value.exactFields_iff r.entries).mpr fun f hf => (hvalues f hf).1,
    r.nodup, (Value.namedOnceFields_iff r.entries).mpr fun f hf => (hvalues f hf).2⟩

theorem Row.Plain.canonical_iff {r s : Row} (hr : r.Plain) (hs : s.Plain) :
    r.toJson.canonical = s.toJson.canonical ↔ r.same s = true := by
  have hexact : ∀ {r : Row}, r.Plain → r.toJson.Exact :=
    fun h => Value.exact_toJson _ h.object.1 h.object.2
  rw [Json.canonical_eq_iff _ (hexact hr) (hexact hs)]
  exact iff_of_eq (congrArg (· = true) (Value.same_toJson _ hr.object.1 hs.object.1))

theorem forall₂_same_iff {rows others : List Row} (hrows : ∀ r ∈ rows, r.Plain)
    (hothers : ∀ r ∈ others, r.Plain) :
    rows.map (·.toJson.canonical) = others.map (·.toJson.canonical) ↔
      List.Forall₂ (fun r s => r.same s = true) rows others := by
  induction rows generalizing others with
  | nil => cases others <;> simp
  | cons r rows ih =>
      cases others with
      | nil => simp
      | cons s others =>
          rw [List.forall_mem_cons] at hrows hothers
          rw [List.map_cons, List.map_cons, List.cons.injEq, List.forall₂_cons,
            hrows.1.canonical_iff hothers.1, ih hrows.2 hothers.2]

/-- Without doubles, canonical texts are the same exactly if the values are equal but for the order of names,
at every level; and what a fingerprint of rows is taken of is the same exactly if there are as many rows and
each is the same as the one in its place, whatever the order of columns and names. -/
theorem canonical_texts_tell_values :
    (∀ a b : Json, a.Exact → b.Exact → (a.canonical = b.canonical ↔ a.same b = true)) ∧
      ∀ rows others : List Row, (∀ r ∈ rows, r.Plain) → (∀ r ∈ others, r.Plain) →
        ((canonicalRows rows).toUTF8 = (canonicalRows others).toUTF8 ↔
          List.Forall₂ (fun r s => r.same s = true) rows others) := by
  refine ⟨fun a b ha hb => Json.canonical_eq_iff a ha hb, fun rows others hrows hothers => ?_⟩
  rw [← forall₂_same_iff hrows hothers, ← canonicalRows_eq_iff]
  exact String.toByteArray_inj

/-- Two rows, and a single one that holds the text between them. -/
def twoLines : List Row := [Record.ofList [("a", .string "1")], Record.ofList [("a", .string "2")]]

def oneLine : List Row := [Record.ofList [("a", .string "1\"\x7d\n\x7b\"a\":\"2")]]

theorem canonical_texts_tell_values_lines :
    let first : Json := .object [("b", .int 1), ("a", .array [.null, .string "\n"])]
    let swapped : Json := .object [("a", .array [.null, .string "\n"]), ("b", .int 1)]
    first.canonical = swapped.canonical ∧
      (canonicalRows twoLines).toUTF8 ≠ (canonicalRows oneLine).toUTF8 := by
  intro first swapped
  have hexact : first.Exact ∧ swapped.Exact := by
    simp [first, swapped, Json.Exact, Json.ExactFields, Json.ExactItems, Json.int]
  have hplain : ∀ text : String, Row.Plain (Record.ofList [("a", .string text)]) := by
    intro text v hv
    obtain rfl : v = .string text := List.mem_singleton.mp hv
    exact ⟨trivial, trivial⟩
  have htwo : ∀ r ∈ twoLines, r.Plain := by simp [twoLines, hplain]
  have hone : ∀ r ∈ oneLine, r.Plain := by simp [oneLine, hplain]
  refine ⟨(canonical_texts_tell_values.1 first swapped hexact.1 hexact.2).mpr rfl, fun h => ?_⟩
  have hsame := (canonical_texts_tell_values.2 twoLines oneLine htwo hone).mp h
  exact absurd hsame.length_eq (by decide)

end RowPipeline
