import RowPipeline.Row
import RowPipeline.Proofs.NumberTexts

/-!
# Composite keys

The text of a value tells where it ends, as long as no character of a number follows it. So a key tells
the value it stands for, in which an integral double is the integer and an infinity is null, and lists of
values are told by their keys, put together with a separator that no number has.
-/

namespace RowPipeline

/-! ## Texts that tell where they end -/

/-- What may follow a text: nothing, or no character of a number. -/
def Apart (rest : List Char) : Prop := ∀ c ∈ rest.head?, Json.isNumberChar c = false

theorem Apart.cons {c : Char} (h : Json.isNumberChar c = false) (rest : List Char) :
    Apart (c :: rest) := by
  intro d hd
  cases hd
  exact h

theorem Apart.nil : Apart [] := nofun

/-- At the head of two equal texts, the text of `a` stands for nothing else with the property, and the
texts are equal behind it. -/
def Told {α : Type} (P : α → Prop) (text : α → List Char) (a : α) : Prop :=
  ∀ b, P b → ∀ as bs, Apart as → Apart bs → text a ++ as = text b ++ bs → a = b ∧ as = bs

section Lists

variable {α : Type} {P : α → Prop} {text : α → List Char} {separator close : Char}

/-- The texts behind the first one of a list, and its end. -/
def tailText (text : α → List Char) (separator close : Char) (xs : List α) : List Char :=
  xs.flatMap (fun x => separator :: text x) ++ [close]

/-- The texts of a list with separators between them, and its end. -/
def listText (text : α → List Char) (separator close : Char) : List α → List Char
  | [] => [close]
  | x :: rest => text x ++ tailText text separator close rest

theorem apart_tailText (hseparator : Json.isNumberChar separator = false)
    (hclose : Json.isNumberChar close = false) (xs : List α) (rest : List Char) :
    Apart (tailText text separator close xs ++ rest) := by
  cases xs with
  | nil => exact .cons hclose _
  | cons x xs => exact .cons hseparator _

/-- What stands behind the first item is told, if every item is. -/
theorem told_tailText (hseparator : Json.isNumberChar separator = false)
    (hclose : Json.isNumberChar close = false) (different : separator ≠ close) {xs ys : List α}
    (hx : ∀ x ∈ xs, Told P text x) (hy : ∀ y ∈ ys, P y) {as bs : List Char}
    (h : tailText text separator close xs ++ as = tailText text separator close ys ++ bs) :
    xs = ys ∧ as = bs := by
  induction xs generalizing ys with
  | nil =>
      cases ys with
      | nil => exact ⟨rfl, (List.cons.inj h).2⟩
      | cons y ys => exact absurd (List.cons.inj h).1.symm different
  | cons x xs ih =>
      cases ys with
      | nil => exact absurd (List.cons.inj h).1 different
      | cons y ys =>
          have hitems : text x ++ (tailText text separator close xs ++ as) =
              text y ++ (tailText text separator close ys ++ bs) := by
            simpa [tailText] using h
          obtain ⟨rfl, hrest⟩ := hx x List.mem_cons_self y (hy y List.mem_cons_self) _ _
            (apart_tailText hseparator hclose xs as) (apart_tailText hseparator hclose ys bs) hitems
          obtain ⟨rfl, hend⟩ := ih (fun z hz => hx z (List.mem_cons_of_mem _ hz))
            (fun z hz => hy z (List.mem_cons_of_mem _ hz)) hrest
          exact ⟨rfl, hend⟩

/-- A list is told, if every item is and none begins as the list ends. -/
theorem told_listText (hseparator : Json.isNumberChar separator = false)
    (hclose : Json.isNumberChar close = false) (different : separator ≠ close)
    (begins : ∀ a, P a → ∃ c cs, text a = c :: cs ∧ c ≠ close) {xs ys : List α}
    (hx : ∀ x ∈ xs, P x ∧ Told P text x) (hy : ∀ y ∈ ys, P y) {as bs : List Char}
    (h : listText text separator close xs ++ as = listText text separator close ys ++ bs) :
    xs = ys ∧ as = bs := by
  cases xs with
  | nil =>
      cases ys with
      | nil => exact ⟨rfl, (List.cons.inj h).2⟩
      | cons y ys =>
          obtain ⟨c, cs, hc, hne⟩ := begins y (hy y List.mem_cons_self)
          rw [listText, listText, hc] at h
          exact absurd (List.cons.inj h).1.symm hne
  | cons x xs =>
      cases ys with
      | nil =>
          obtain ⟨c, cs, hc, hne⟩ := begins x (hx x List.mem_cons_self).1
          rw [listText, listText, hc] at h
          exact absurd (List.cons.inj h).1 hne
      | cons y ys =>
          rw [listText, listText, List.append_assoc, List.append_assoc] at h
          obtain ⟨rfl, hrest⟩ := (hx x List.mem_cons_self).2 y (hy y List.mem_cons_self) _ _
            (apart_tailText hseparator hclose xs as) (apart_tailText hseparator hclose ys bs) h
          obtain ⟨rfl, hend⟩ := told_tailText hseparator hclose different
            (fun z hz => (hx z (List.mem_cons_of_mem _ hz)).2)
            (fun z hz => hy z (List.mem_cons_of_mem _ hz)) hrest
          exact ⟨rfl, hend⟩

/-- Texts put together with a separator are the text of their list but for its end. -/
theorem listText_intercalate (word : α → String) (separator close : Char) (xs : List α) :
    ((String.singleton separator).intercalate (xs.map word)).toList ++ [close] =
      listText (fun x => (word x).toList) separator close xs := by
  induction xs with
  | nil => rfl
  | cons x rest ih =>
      cases rest with
      | nil => simp [listText, tailText]
      | cons y rest =>
          rw [List.map_cons, List.map_cons, String.intercalate_cons_cons, ← List.map_cons,
            String.toList_append, String.toList_append, List.append_assoc, ih]
          simp [listText, tailText]

end Lists

/-- A pair is told, if its parts are and the character between them is none of a number. -/
theorem told_pair {α β : Type} (P : β → Prop) (text : α → List Char) (text' : β → List Char)
    {between : Char} (hbetween : Json.isNumberChar between = false) {p : α × β}
    (h : Told (fun _ => True) text p.1) (h' : Told P text' p.2) :
    Told (fun q : α × β => P q.2) (fun q => text q.1 ++ between :: text' q.2) p := by
  intro q hq as bs has hbs heq
  dsimp only at heq
  rw [List.append_assoc, List.append_assoc] at heq
  obtain ⟨hleft, hrest⟩ := h q.1 trivial _ _ (.cons hbetween _) (.cons hbetween _) heq
  obtain ⟨hright, hend⟩ := h' q.2 hq as bs has hbs (List.cons.inj hrest).2
  exact ⟨Prod.ext hleft hright, hend⟩

/-! ## Keys of values -/

/-- A quoted string is told: reading it gives the string and what is behind it. -/
theorem told_renderString (s : String) :
    Told (fun _ => True) (fun s => (Json.renderString s).toList) s := by
  intro t _ as bs _ _ h
  have htail : (Json.renderString s).toList.tail ++ as = (Json.renderString t).toList.tail ++ bs := by
    have hquote : ∀ s : String, (Json.renderString s).toList =
        '"' :: (Json.renderString s).toList.tail := by
      intro s
      simp [Json.renderString]
    dsimp only at h
    rw [hquote s, hquote t] at h
    exact (List.cons.inj h).2
  have hs := Json.readString_renderString s as
    (Nat.lt_succ_of_le (Nat.le_max_left _ t.toList.length))
  have ht := Json.readString_renderString t bs
    (Nat.lt_succ_of_le (Nat.le_max_right s.toList.length _))
  rw [htail, ht] at hs
  cases hs
  exact ⟨rfl, rfl⟩

/-- A number is told by its characters. -/
theorem told_int (i : Int) : Told (fun _ => True) (fun i : Int => (toString i).toList) i := by
  intro k _ as bs has hbs h
  obtain ⟨htake, hdrop⟩ := Lexer.takeWhile_append_of_stop (Json.numberChars_int i) has
  obtain ⟨htake', hdrop'⟩ := Lexer.takeWhile_append_of_stop (Json.numberChars_int k) hbs
  dsimp only at h
  rw [h] at htake hdrop
  exact ⟨Decimal.toString_int_injective (String.toList_inj.mp (htake.symm.trans htake')),
    hdrop.symm.trans hdrop'⟩

/-- The text of a double is told by its characters. -/
theorem told_double {x : Float} (hx : x.isFinite = true) :
    Told (fun x : Float => x.isFinite = true) (fun x => (Decimal.jsonLayout.write x).toList) x := by
  intro y hy as bs has hbs h
  obtain ⟨htake, hdrop⟩ := Lexer.takeWhile_append_of_stop (Json.numberChars_write hx) has
  obtain ⟨htake', hdrop'⟩ := Lexer.takeWhile_append_of_stop (Json.numberChars_write hy) hbs
  dsimp only at h
  rw [h] at htake hdrop
  exact ⟨Decimal.write_injective hx hy (String.toList_inj.mp (htake.symm.trans htake')),
    hdrop.symm.trans hdrop'⟩

/-- No text of a double is that of an integer, whatever stands behind them. -/
theorem double_ne_int {x : Float} (hx : x.isFinite = true) (i : Int) {as bs : List Char}
    (has : Apart as) (hbs : Apart bs) :
    (Decimal.jsonLayout.write x).toList ++ as ≠ (toString i).toList ++ bs := by
  intro h
  obtain ⟨htake, -⟩ := Lexer.takeWhile_append_of_stop (Json.numberChars_write hx) has
  obtain ⟨htake', -⟩ := Lexer.takeWhile_append_of_stop (Json.numberChars_int i) hbs
  rw [h] at htake
  exact Decimal.write_ne_toString hx i (String.toList_inj.mp (htake.symm.trans htake'))

namespace Value

mutual

/-- A value without doubles, inside of arrays and objects too. -/
def Exact : Value → Prop
  | .float _ => False
  | .array items => ExactItems items
  | .object fields => ExactFields fields
  | .null | .bool _ | .int _ | .string _ => True

def ExactItems : List Value → Prop
  | [] => True
  | v :: rest => v.Exact ∧ ExactItems rest

def ExactFields : List (String × Value) → Prop
  | [] => True
  | f :: rest => f.2.Exact ∧ ExactFields rest

end

/-- The text of a field of an object. -/
def fieldText (f : String × Value) : List Char :=
  (Json.renderString f.1).toList ++ ':' :: f.2.canonicalKey.toList

mutual

/-- A value that is written as it is: no double in it is written as an integer or as null. -/
def Keyed : Value → Prop
  | .float x => x.isFinite = true ∧ Binary64.smallInt64? x = none
  | .array items => KeyedItems items
  | .object fields => KeyedFields fields
  | .null | .bool _ | .int _ | .string _ => True

def KeyedItems : List Value → Prop
  | [] => True
  | v :: rest => v.Keyed ∧ KeyedItems rest

def KeyedFields : List (String × Value) → Prop
  | [] => True
  | f :: rest => f.2.Keyed ∧ KeyedFields rest

end

theorem keyedItems_iff (items : List Value) : KeyedItems items ↔ ∀ v ∈ items, v.Keyed := by
  induction items with
  | nil => simp [KeyedItems]
  | cons v rest ih => simp [KeyedItems, ih]

theorem keyedFields_iff (fields : List (String × Value)) :
    KeyedFields fields ↔ ∀ f ∈ fields, f.2.Keyed := by
  induction fields with
  | nil => simp [KeyedFields]
  | cons f rest ih => simp [KeyedFields, ih]

mutual

theorem Exact.keyed : ∀ {v : Value}, v.Exact → v.Keyed
  | .null, _ | .bool _, _ | .int _, _ | .string _, _ => trivial
  | .array _, h => ExactItems.keyed h
  | .object _, h => ExactFields.keyed h

theorem ExactItems.keyed : ∀ {items : List Value}, ExactItems items → KeyedItems items
  | [], _ => trivial
  | _ :: _, h => ⟨h.1.keyed, ExactItems.keyed h.2⟩

theorem ExactFields.keyed :
    ∀ {fields : List (String × Value)}, ExactFields fields → KeyedFields fields
  | [], _ => trivial
  | _ :: _, h => ⟨h.1.keyed, ExactFields.keyed h.2⟩

end

theorem renderItems_key (items : List Value) :
    Json.renderItems (itemsKeyJson items) = items.map canonicalKey := by
  induction items with
  | nil => rfl
  | cons v rest ih => rw [itemsKeyJson, Json.renderItems, ih, List.map_cons, canonicalKey]

theorem renderFields_key (fields : List (String × Value)) :
    Json.renderFields (fieldsKeyJson fields) =
      fields.map fun f => Json.renderString f.1 ++ ":" ++ f.2.canonicalKey := by
  induction fields with
  | nil => rfl
  | cons f rest ih => rw [fieldsKeyJson, Json.renderFields, ih, List.map_cons, canonicalKey]

theorem canonicalKey_array (items : List Value) : (array items).canonicalKey.toList =
    '[' :: listText (fun v => v.canonicalKey.toList) ',' ']' items := by
  rw [canonicalKey, keyJson, Json.render, renderItems_key, ← listText_intercalate]
  simp

theorem canonicalKey_object (fields : List (String × Value)) : (object fields).canonicalKey.toList =
    '\x7b' :: listText fieldText ',' '\x7d' fields := by
  have htext : fieldText = fun f : String × Value =>
      (Json.renderString f.1 ++ ":" ++ f.2.canonicalKey).toList := by
    funext f
    simp [fieldText]
  rw [canonicalKey, keyJson, Json.render, renderFields_key, htext, ← listText_intercalate]
  simp

theorem canonicalKey_float {x : Float} (h : (float x).Keyed) :
    (float x).canonicalKey = Decimal.jsonLayout.write x := by
  obtain ⟨hfinite, hlarge⟩ := h
  rw [canonicalKey, keyJson, hlarge]
  simp only [Json.ofFloat, hfinite, if_true, Json.render, JsonNumber.render]

/-- The rank of the kind of value whose key a character opens. -/
def openingRank (c : Char) : Nat :=
  if c = 'n' then 0
  else if c = 't' ∨ c = 'f' then 1
  else if Json.isNumberChar c then 2
  else if c = '"' then 3
  else if c = '[' then 4
  else if c = '\x7b' then 5
  else 6

theorem openingRank_number {c : Char} (h : Json.isNumberChar c = true) : openingRank c = 2 := by
  have hletter : ∀ d ∈ ['n', 't', 'f'], c ≠ d := by
    rintro d hd rfl
    revert h
    simp only [List.mem_cons, List.not_mem_nil, or_false] at hd
    rcases hd with rfl | rfl | rfl <;> decide
  simp [openingRank, hletter 'n', hletter 't', hletter 'f', h]

/-- The first character of a key tells the kind of its value. -/
theorem canonicalKey_opens {v : Value} (hv : v.Keyed) :
    ∃ c cs, v.canonicalKey.toList = c :: cs ∧ openingRank c = v.kindRank := by
  cases v with
  | null => exact ⟨_, _, rfl, rfl⟩
  | bool b => cases b <;> exact ⟨_, _, rfl, rfl⟩
  | int i =>
      obtain ⟨c, cs, hcs⟩ := List.exists_cons_of_ne_nil (Decimal.toString_int_ne_nil i.toInt)
      have hnumber := Json.numberChars_int i.toInt c (hcs ▸ List.mem_cons_self)
      exact ⟨c, cs, hcs, openingRank_number hnumber⟩
  | float x =>
      obtain ⟨c, cs, hcs⟩ := List.exists_cons_of_ne_nil (Decimal.write_ne_nil hv.1)
      have hnumber := Json.numberChars_write hv.1 c (hcs ▸ List.mem_cons_self)
      exact ⟨c, cs, (congrArg String.toList (canonicalKey_float hv)).trans hcs,
        openingRank_number hnumber⟩
  | string s =>
      have htext : (string s).canonicalKey.toList =
          '"' :: (s.toList.flatMap Json.escapedChar ++ ['"']) := by
        simp [canonicalKey, keyJson, Json.render, Json.renderString]
      exact ⟨_, _, htext, rfl⟩
  | array items => exact ⟨_, _, canonicalKey_array items, rfl⟩
  | object fields => exact ⟨_, _, canonicalKey_object fields, rfl⟩

/-- No key begins with a bracket that closes. -/
theorem canonicalKey_begins {v : Value} (hv : v.Keyed) :
    ∃ c cs, v.canonicalKey.toList = c :: cs ∧ c ≠ ']' := by
  obtain ⟨c, cs, hcs, hrank⟩ := canonicalKey_opens hv
  refine ⟨c, cs, hcs, ?_⟩
  rintro rfl
  have hclosed : openingRank ']' = 6 := rfl
  rw [hclosed] at hrank
  cases v <;> cases hrank

/-- Keys with the same head are of values of one kind. -/
theorem kindRank_of_key {v w : Value} (hv : v.Keyed) (hw : w.Keyed) {as bs : List Char}
    (h : v.canonicalKey.toList ++ as = w.canonicalKey.toList ++ bs) : v.kindRank = w.kindRank := by
  obtain ⟨c, cs, hcs, hc⟩ := canonicalKey_opens hv
  obtain ⟨d, ds, hds, hd⟩ := canonicalKey_opens hw
  rw [hcs, hds] at h
  rw [← hc, ← hd, (List.cons.inj h).1]

theorem fieldText_begins (f : String × Value) : ∃ c cs, fieldText f = c :: cs ∧ c ≠ '\x7d' := by
  have htext : fieldText f = '"' :: (f.1.toList.flatMap Json.escapedChar ++ ['"'] ++
      ':' :: f.2.canonicalKey.toList) := by
    simp [fieldText, Json.renderString]
  exact ⟨_, _, htext, by decide⟩

theorem told_fieldText {f : String × Value}
    (h : Told Keyed (fun v => v.canonicalKey.toList) f.2) :
    Told (fun f : String × Value => f.2.Keyed) fieldText f :=
  told_pair Keyed (fun s => (Json.renderString s).toList) (fun v => v.canonicalKey.toList)
    (by decide : Json.isNumberChar ':' = false) (told_renderString f.1) h

mutual

/-- The key of a value that is written as it is tells it. -/
theorem told_canonicalKey (v : Value) (hv : v.Keyed) :
    Told Keyed (fun v => v.canonicalKey.toList) v := by
  intro w hw as bs has hbs h
  have hrank := kindRank_of_key hv hw h
  -- of two values of different kinds the texts begin differently
  cases v with
  | null =>
      cases w <;> cases hrank
      exact ⟨rfl, List.append_cancel_left h⟩
  | bool b =>
      cases w <;> cases hrank
      rename_i c
      have hsame : b = c := by
        cases b <;> cases c
        · rfl
        · exact absurd (List.cons.inj h).1 (by decide)
        · exact absurd (List.cons.inj h).1 (by decide)
        · rfl
      subst hsame
      exact ⟨rfl, List.append_cancel_left h⟩
  | int i =>
      cases w <;> cases hrank
      · rename_i k
        obtain ⟨hvalue, hend⟩ := told_int i.toInt k.toInt trivial as bs has hbs h
        exact ⟨congrArg int (Int64.toInt_inj.mp hvalue), hend⟩
      · rename_i x
        dsimp only at h
        rw [canonicalKey_float hw] at h
        exact absurd h.symm (double_ne_int hw.1 i.toInt hbs has)
  | float x =>
      dsimp only at h
      rw [canonicalKey_float hv] at h
      cases w <;> cases hrank
      · rename_i k
        exact absurd h (double_ne_int hv.1 k.toInt has hbs)
      · rename_i y
        rw [canonicalKey_float hw] at h
        obtain ⟨rfl, hend⟩ := told_double hv.1 y hw.1 as bs has hbs h
        exact ⟨rfl, hend⟩
  | string s =>
      cases w <;> cases hrank
      rename_i t
      obtain ⟨rfl, hend⟩ := told_renderString s t trivial as bs has hbs h
      exact ⟨rfl, hend⟩
  | array items =>
      cases w <;> cases hrank
      rename_i others
      dsimp only at h
      rw [canonicalKey_array, canonicalKey_array] at h
      obtain ⟨rfl, hend⟩ := told_listText (by decide) (by decide) (by decide)
        (fun a ha => canonicalKey_begins ha) (told_items items hv)
        ((keyedItems_iff others).mp hw) (List.cons.inj h).2
      exact ⟨rfl, hend⟩
  | object fields =>
      cases w <;> cases hrank
      rename_i others
      dsimp only at h
      rw [canonicalKey_object, canonicalKey_object] at h
      obtain ⟨rfl, hend⟩ := told_listText (by decide) (by decide) (by decide)
        (fun f _ => fieldText_begins f) (told_fields fields hv) ((keyedFields_iff others).mp hw)
        (List.cons.inj h).2
      exact ⟨rfl, hend⟩

theorem told_items (items : List Value) (h : KeyedItems items) :
    ∀ v ∈ items, v.Keyed ∧ Told Keyed (fun v => v.canonicalKey.toList) v := by
  cases items with
  | nil => exact nofun
  | cons v rest =>
      exact List.forall_mem_cons.mpr ⟨⟨h.1, told_canonicalKey v h.1⟩, told_items rest h.2⟩

theorem told_fields (fields : List (String × Value)) (h : KeyedFields fields) :
    ∀ f ∈ fields, f.2.Keyed ∧ Told (fun f : String × Value => f.2.Keyed) fieldText f := by
  cases fields with
  | nil => exact nofun
  | cons f rest =>
      exact List.forall_mem_cons.mpr
        ⟨⟨h.1, told_fieldText (told_canonicalKey f.2 h.1)⟩, told_fields rest h.2⟩

end

/-! ## What a key stands for -/

mutual

/-- The value that a key stands for. -/
def keyForm : Value → Value
  | .float x =>
      match Binary64.smallInt64? x with
      | some i => .int i
      | none => if x.isFinite then .float x else .null
  | .array items => .array (itemsKeyForm items)
  | .object fields => .object (fieldsKeyForm fields)
  | .null => .null
  | .bool b => .bool b
  | .int i => .int i
  | .string s => .string s

def itemsKeyForm : List Value → List Value
  | [] => []
  | v :: rest => v.keyForm :: itemsKeyForm rest

def fieldsKeyForm : List (String × Value) → List (String × Value)
  | [] => []
  | (k, v) :: rest => (k, v.keyForm) :: fieldsKeyForm rest

end

theorem fieldsKeyForm_eq_map (fields : List (String × Value)) :
    fieldsKeyForm fields = fields.map fun f => (f.1, f.2.keyForm) := by
  induction fields with
  | nil => rfl
  | cons f rest ih => rw [fieldsKeyForm, ih, List.map_cons]

theorem names_fieldsKeyForm (fields : List (String × Value)) :
    (fieldsKeyForm fields).map Prod.fst = fields.map Prod.fst := by
  rw [fieldsKeyForm_eq_map, List.map_map]
  rfl

theorem keyForm_float (x : Float) : (float x).keyForm =
    match Binary64.smallInt64? x with
    | some i => .int i
    | none => if x.isFinite then .float x else .null := by
  rw [keyForm]

mutual

theorem keyForm_keyed : ∀ v : Value, v.keyForm.Keyed
  | .null | .bool _ | .int _ | .string _ => trivial
  | .float x => by
      rw [keyForm]
      split
      · trivial
      · rename_i hlarge
        split
        · rename_i hfinite
          exact ⟨hfinite, hlarge⟩
        · trivial
  | .array items => itemsKeyForm_keyed items
  | .object fields => fieldsKeyForm_keyed fields

theorem itemsKeyForm_keyed : ∀ items : List Value, KeyedItems (itemsKeyForm items)
  | [] => trivial
  | v :: rest => ⟨keyForm_keyed v, itemsKeyForm_keyed rest⟩

theorem fieldsKeyForm_keyed : ∀ fields : List (String × Value), KeyedFields (fieldsKeyForm fields)
  | [] => trivial
  | (_, v) :: rest => ⟨keyForm_keyed v, fieldsKeyForm_keyed rest⟩

end

mutual

theorem keyJson_keyForm : ∀ v : Value, v.keyForm.keyJson = v.keyJson
  | .null | .bool _ | .int _ | .string _ => rfl
  | .float x => by
      rw [keyForm]
      cases hx : Binary64.smallInt64? x with
      | some i =>
          rw [keyJson, keyJson, hx]
      | none =>
          by_cases hfinite : x.isFinite = true
          · rw [if_pos hfinite]
          · rw [if_neg hfinite, keyJson, keyJson, hx, Json.ofFloat, if_neg hfinite]
  | .array items => by rw [keyForm, keyJson, keyJson, itemsKeyJson_keyForm items]
  | .object fields => by rw [keyForm, keyJson, keyJson, fieldsKeyJson_keyForm fields]

theorem itemsKeyJson_keyForm :
    ∀ items : List Value, itemsKeyJson (itemsKeyForm items) = itemsKeyJson items
  | [] => rfl
  | v :: rest => by
      rw [itemsKeyForm, itemsKeyJson, itemsKeyJson, keyJson_keyForm v, itemsKeyJson_keyForm rest]

theorem fieldsKeyJson_keyForm :
    ∀ fields : List (String × Value), fieldsKeyJson (fieldsKeyForm fields) = fieldsKeyJson fields
  | [] => rfl
  | (k, v) :: rest => by
      rw [fieldsKeyForm, fieldsKeyJson, fieldsKeyJson, keyJson_keyForm v, fieldsKeyJson_keyForm rest]

end

mutual

theorem Exact.keyForm_eq : ∀ {v : Value}, v.Exact → v.keyForm = v
  | .null, _ | .bool _, _ | .int _, _ | .string _, _ => rfl
  | .array _, h => congrArg array (ExactItems.keyForm_eq h)
  | .object _, h => congrArg object (ExactFields.keyForm_eq h)

theorem ExactItems.keyForm_eq :
    ∀ {items : List Value}, ExactItems items → itemsKeyForm items = items
  | [], _ => rfl
  | _ :: _, h => by rw [itemsKeyForm, h.1.keyForm_eq, ExactItems.keyForm_eq h.2]

theorem ExactFields.keyForm_eq :
    ∀ {fields : List (String × Value)}, ExactFields fields → fieldsKeyForm fields = fields
  | [], _ => rfl
  | (_, _) :: _, h => by rw [fieldsKeyForm, h.1.keyForm_eq, ExactFields.keyForm_eq h.2]

end

@[simp]
theorem canonicalKey_keyForm (v : Value) : v.keyForm.canonicalKey = v.canonicalKey :=
  congrArg Json.render (keyJson_keyForm v)

/-- Values share a key if it stands for the same value. -/
theorem canonicalKey_eq_iff (v w : Value) :
    v.canonicalKey = w.canonicalKey ↔ v.keyForm = w.keyForm := by
  rw [← canonicalKey_keyForm v, ← canonicalKey_keyForm w]
  constructor
  · intro h
    exact (told_canonicalKey _ (keyForm_keyed v) _ (keyForm_keyed w) [] [] .nil .nil
      (congrArg (·.toList ++ []) h)).1
  · exact congrArg canonicalKey

end Value

/-- Lists of values share a composite key if their keys are the same, one by one. -/
theorem compositeKey_eq_iff (vs ws : List Value) :
    compositeKey vs = compositeKey ws ↔ vs.map Value.keyForm = ws.map Value.keyForm := by
  have htext : ∀ vs : List Value, (compositeKey vs).toList ++ [']'] =
      listText (fun v => v.canonicalKey.toList) '\x1f' ']' (vs.map Value.keyForm) := by
    intro vs
    rw [← listText_intercalate, List.map_map]
    simp only [Function.comp_def, Value.canonicalKey_keyForm]
    rfl
  have hkeyed : ∀ vs : List Value, ∀ v ∈ vs.map Value.keyForm, v.Keyed := by
    intro vs v hv
    obtain ⟨w, -, rfl⟩ := List.mem_map.mp hv
    exact Value.keyForm_keyed w
  constructor
  · intro h
    have hlists : (compositeKey vs).toList ++ [']'] ++ [] = (compositeKey ws).toList ++ [']'] ++ [] := by
      rw [h]
    rw [htext, htext] at hlists
    exact (told_listText (by decide) (by decide) (by decide)
      (fun v hv => Value.canonicalKey_begins hv)
      (fun v hv => ⟨hkeyed vs v hv, Value.told_canonicalKey v (hkeyed vs v hv)⟩) (hkeyed ws)
      hlists).1
  · intro h
    have hkeys : ∀ vs : List Value,
        vs.map Value.canonicalKey = (vs.map Value.keyForm).map Value.canonicalKey := by
      intro vs
      simp
    rw [compositeKey, compositeKey, hkeys vs, hkeys ws, h]

/-- Lists of values without doubles are told by their composite keys. -/
theorem compositeKey_injective {vs ws : List Value} (hv : ∀ v ∈ vs, v.Exact) (hw : ∀ w ∈ ws, w.Exact)
    (h : compositeKey vs = compositeKey ws) : vs = ws := by
  have hforms : ∀ {vs : List Value}, (∀ v ∈ vs, v.Exact) → vs.map Value.keyForm = vs := by
    intro vs hexact
    exact (List.map_congr_left fun v hv => (hexact v hv).keyForm_eq).trans (List.map_id _)
  rw [compositeKey_eq_iff, hforms hv, hforms hw] at h
  exact h

theorem compositeKey_eq_iff_of_exact {vs ws : List Value} (hv : ∀ v ∈ vs, v.Exact)
    (hw : ∀ w ∈ ws, w.Exact) : compositeKey vs = compositeKey ws ↔ vs = ws :=
  ⟨compositeKey_injective hv hw, congrArg compositeKey⟩

end RowPipeline
