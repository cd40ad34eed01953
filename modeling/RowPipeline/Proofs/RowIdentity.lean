import RowPipeline.Proofs.KeyEquality
import RowPipeline.Proofs.SortKeys

/-!
# Identities of rows

A quoted text tells where it ends, and so does a quoted name followed by a key. So the identity of a row
tells its columns and what the keys of its values stand for, whatever the order of the columns.
-/

namespace RowPipeline

/-! ## Quoted texts -/

namespace Text

/-- The character that a backslash and a character, other than the letter before a code point, stand for. -/
def unescaped (c : Char) : Char :=
  if c = '0' then '\x00'
  else if c = 't' then '\t'
  else if c = 'r' then '\r'
  else if c = 'n' then '\n'
  else c

theorem quotedChar_cases (c : Char) :
    (quotedChar c = [c] ∧ c ≠ '\\' ∧ c ≠ '"') ∨
      (∃ d, quotedChar c = ['\\', d] ∧ d ≠ 'u' ∧ unescaped d = c) ∨
      quotedChar c = '\\' :: 'u' :: '\x7b' :: (hexDigits c.toNat ++ ['\x7d']) := by
  by_cases hspecial : c ∈ ['\x00', '\t', '\r', '\n', '"', '\\']
  · right
    left
    simp only [List.mem_cons, List.not_mem_nil, or_false] at hspecial
    rcases hspecial with rfl | rfl | rfl | rfl | rfl | rfl <;>
      exact ⟨_, rfl, by decide, by decide⟩
  · simp only [List.mem_cons, List.not_mem_nil, or_false, not_or] at hspecial
    obtain ⟨h0, ht, hr, hn, hquote, hback⟩ := hspecial
    have hplain : quotedChar c = if isGraphemeExtend c || !isPrintable c then
        ['\\', 'u', '\x7b'] ++ hexDigits c.toNat ++ ['\x7d'] else [c] := by
      simp [quotedChar, h0, ht, hr, hn, hquote, hback]
    rw [hplain]
    split
    · exact .inr (.inr rfl)
    · exact .inl ⟨rfl, hback, hquote⟩

theorem digitChar_injective : ∀ n < 16, ∀ m < 16, Nat.digitChar n = Nat.digitChar m → n = m := by
  decide

theorem hexDigits_eq (n : Nat) : hexDigits n =
    (if n < 16 then [] else hexDigits (n / 16)) ++ [Nat.digitChar (n % 16)] := by
  rw [hexDigits, Nat.toDigits_eq_if (by decide)]
  split
  · rename_i hn
    rw [Nat.mod_eq_of_lt hn]
    rfl
  · rfl

theorem hexDigits_injective {n m : Nat} (h : hexDigits n = hexDigits m) : n = m := by
  induction n using Nat.strongRecOn generalizing m with
  | ind n ih =>
      rw [hexDigits_eq n, hexDigits_eq m] at h
      obtain ⟨hfront, hlast⟩ := List.append_inj' h rfl
      have hlast := digitChar_injective _ (Nat.mod_lt n (by decide)) _ (Nat.mod_lt m (by decide))
        (List.cons.inj hlast).1
      split at hfront <;> split at hfront
      · omega
      · exact absurd hfront.symm Nat.toDigits_ne_nil
      · exact absurd hfront Nat.toDigits_ne_nil
      · have hquotient := ih (n / 16) (by omega) hfront
        omega

theorem brace_not_mem_hexDigits (n : Nat) : '\x7d' ∉ hexDigits n := by
  have hdigit : ∀ n < 16, '\x7d' ≠ Nat.digitChar n := by decide
  induction n using Nat.strongRecOn with
  | ind n ih =>
      rw [hexDigits_eq, List.mem_append, List.mem_singleton, not_or]
      refine ⟨?_, hdigit _ (Nat.mod_lt n (by decide))⟩
      split
      · exact List.not_mem_nil
      · exact ih (n / 16) (by omega)

/-- At the head of two equal texts stands the same character. -/
theorem quotedChar_told {c d : Char} {as bs : List Char}
    (h : quotedChar c ++ as = quotedChar d ++ bs) : c = d ∧ as = bs := by
  rcases quotedChar_cases c with ⟨hc, hback, -⟩ | ⟨x, hc, hx, rfl⟩ | hc <;>
    rcases quotedChar_cases d with ⟨hd, hback', -⟩ | ⟨y, hd, hy, rfl⟩ | hd <;> rw [hc, hd] at h
  · exact List.cons.inj h
  · exact absurd (List.cons.inj h).1 hback
  · exact absurd (List.cons.inj h).1 hback
  · exact absurd (List.cons.inj h).1.symm hback'
  · obtain ⟨rfl, hrest⟩ := List.cons.inj (List.cons.inj h).2
    exact ⟨rfl, hrest⟩
  · exact absurd (List.cons.inj (List.cons.inj h).2).1 hx
  · exact absurd (List.cons.inj h).1.symm hback'
  · exact absurd (List.cons.inj (List.cons.inj h).2).1.symm hy
  · simp only [List.cons_append, List.append_assoc, List.cons.injEq, true_and, List.nil_append] at h
    obtain ⟨hdigits, hrest⟩ :=
      split_first (brace_not_mem_hexDigits c.toNat) (brace_not_mem_hexDigits d.toNat) h
    exact ⟨Char.toNat_inj.mp (hexDigits_injective hdigits), hrest⟩

theorem told_quoted (s : String) : Told (fun _ => True) (fun s => (quoted s).toList) s := by
  have hchars : ∀ (cs ds as bs : List Char),
      cs.flatMap quotedChar ++ '"' :: as = ds.flatMap quotedChar ++ '"' :: bs → cs = ds ∧ as = bs := by
    have hquote : ∀ (c : Char) (rest as : List Char), quotedChar c ++ rest ≠ '"' :: as := by
      intro c rest as h
      rcases quotedChar_cases c with ⟨hc, -, hne⟩ | ⟨d, hc, -, -⟩ | hc <;> rw [hc] at h
      · exact hne (List.cons.inj h).1
      · exact absurd (List.cons.inj h).1 (by decide)
      · exact absurd (List.cons.inj h).1 (by decide)
    intro cs
    induction cs with
    | nil =>
        intro ds as bs h
        cases ds with
        | nil => exact ⟨rfl, (List.cons.inj h).2⟩
        | cons d ds =>
            rw [List.flatMap_cons, List.append_assoc] at h
            exact absurd h.symm (hquote d _ as)
    | cons c cs ih =>
        intro ds as bs h
        cases ds with
        | nil =>
            rw [List.flatMap_cons, List.append_assoc] at h
            exact absurd h (hquote c _ bs)
        | cons d ds =>
            rw [List.flatMap_cons, List.flatMap_cons, List.append_assoc, List.append_assoc] at h
            obtain ⟨rfl, hrest⟩ := quotedChar_told h
            obtain ⟨rfl, hend⟩ := ih ds as bs hrest
            exact ⟨rfl, hend⟩
  intro t _ as bs _ _ h
  have htext : ∀ (s : String) (rest : List Char),
      (quoted s).toList ++ rest = '"' :: (s.toList.flatMap quotedChar ++ '"' :: rest) := by
    intro s rest
    simp [quoted]
  dsimp only at h
  rw [htext, htext] at h
  obtain ⟨hsame, hend⟩ := hchars _ _ _ _ (List.cons.inj h).2
  exact ⟨String.toList_inj.mp hsame, hend⟩

end Text

/-! ## Identities -/

namespace Row

/-- Rows with the same columns that hold equal values. -/
def looseEq (r s : Row) : Bool :=
  (r.keys ++ s.keys).all fun c =>
    match r.get? c, s.get? c with
    | some v, some w => v.looseEq w
    | none, none => true
    | _, _ => false

theorem looseEq_iff (r s : Row) : r.looseEq s = true ↔
    ∀ c, Option.Rel (fun v w => v.looseEq w = true) (r.get? c) (s.get? c) := by
  rw [looseEq, List.all_eq_true]
  constructor
  · intro h c
    cases hr : r.get? c with
    | none =>
        cases hs : s.get? c with
        | none => exact .none
        | some w =>
            have hc := h c (List.mem_append_right _ (Record.mem_keys_of_get? hs))
            rw [hr, hs] at hc
            cases hc
    | some v =>
        have hc := h c (List.mem_append_left _ (Record.mem_keys_of_get? hr))
        rw [hr] at hc
        cases hs : s.get? c with
        | none =>
            rw [hs] at hc
            cases hc
        | some w =>
            rw [hs] at hc
            exact .some hc
  · intro h c _
    have hc := h c
    generalize r.get? c = v at hc ⊢
    generalize s.get? c = w at hc ⊢
    cases hc with
    | some heq => exact heq
    | none => rfl

/-- A named value as the identity of a row has it. -/
def columnText (f : String × Value) : String := Text.quoted f.1 ++ "=" ++ f.2.canonicalKey

theorem told_columnText {f : String × Value} (h : f.2.Keyed) :
    Told (fun f : String × Value => f.2.Keyed) (fun f => (columnText f).toList) f := by
  have htext : (fun f => (columnText f).toList) =
      fun f : String × Value => (Text.quoted f.1).toList ++ '=' :: f.2.canonicalKey.toList := by
    funext f
    simp [columnText]
  rw [htext]
  exact told_pair Value.Keyed (fun s => (Text.quoted s).toList) (fun v => v.canonicalKey.toList)
    (by decide : Json.isNumberChar '=' = false) (Text.told_quoted f.1) (Value.told_canonicalKey f.2 h)

theorem columnText_begins (f : String × Value) :
    ∃ c cs, (columnText f).toList = c :: cs ∧ c ≠ ']' := by
  have htext : (columnText f).toList = '"' :: (f.1.toList.flatMap Text.quotedChar ++ ['"'] ++
      '=' :: f.2.canonicalKey.toList) := by
    simp [columnText, Text.quoted]
  exact ⟨_, _, htext, by decide⟩

/-- The columns by name, with what the keys of their values stand for. -/
def sortedColumns (row : Row) : List (String × Value) :=
  sortBy (fun a b => compare a.1 b.1) (Value.fieldsKeyForm row.entries)

theorem identity_text (row : Row) : row.identity.toList ++ [']'] =
    listText (fun f => (columnText f).toList) '\x1f' ']' row.sortedColumns := by
  have hpairs : row.entries.map (fun p => (p.1, p.2.canonicalKey)) =
      (Value.fieldsKeyForm row.entries).map fun p => (p.1, p.2.canonicalKey) := by
    rw [Value.fieldsKeyForm_eq_map, List.map_map]
    simp [Function.comp_def]
  rw [← listText_intercalate, identity, hpairs, sortBy_map, List.map_map]
  rfl

theorem sortedColumns_keyed (row : Row) : ∀ f ∈ row.sortedColumns, f.2.Keyed := by
  intro f hf
  rw [sortedColumns, mem_sortBy] at hf
  exact (Value.keyedFields_iff _).mp (Value.fieldsKeyForm_keyed row.entries) f hf

theorem sortedColumns_eq_iff (r s : Row) : r.sortedColumns = s.sortedColumns ↔
    (Value.fieldsKeyForm r.entries).Perm (Value.fieldsKeyForm s.entries) := by
  refine sortBy_names_eq_iff ?_
  rw [Value.names_fieldsKeyForm]
  exact r.nodup

/-- Rows share an identity if they have the same columns and the values in them share keys. -/
theorem identity_eq_iff (r s : Row) : r.identity = s.identity ↔
    ∀ c, Option.Rel (fun v w => v.canonicalKey = w.canonicalKey) (r.get? c) (s.get? c) := by
  have hcolumns : r.identity = s.identity ↔ r.sortedColumns = s.sortedColumns := by
    constructor
    · intro h
      have htexts : r.identity.toList ++ [']'] ++ [] = s.identity.toList ++ [']'] ++ [] := by rw [h]
      rw [identity_text, identity_text] at htexts
      exact (told_listText (by decide) (by decide) (by decide) (fun f _ => columnText_begins f)
        (fun f hf => ⟨r.sortedColumns_keyed f hf, told_columnText (r.sortedColumns_keyed f hf)⟩)
        s.sortedColumns_keyed htexts).1
    · intro h
      have htexts := (identity_text r).trans ((congrArg _ h).trans (identity_text s).symm)
      exact String.toList_inj.mp (List.append_cancel_right htexts)
  have hget : ∀ (row : Row) c, Assoc.get? c (Value.fieldsKeyForm row.entries) =
      (row.get? c).map Value.keyForm := by
    intro row c
    rw [Value.fieldsKeyForm_eq_map, Assoc.get?_map]
    rfl
  have hnodup : ∀ row : Row, ((Value.fieldsKeyForm row.entries).map Prod.fst).Nodup := by
    intro row
    rw [Value.names_fieldsKeyForm]
    exact row.nodup
  rw [hcolumns, sortedColumns_eq_iff, Assoc.perm_iff_get? (hnodup r) (hnodup s)]
  refine forall_congr' fun c => ?_
  rw [hget, hget]
  cases r.get? c <;> cases s.get? c <;> simp [Value.canonicalKey_eq_iff]

/-! ## Rows without doubles -/

/-- A row without doubles, inside of its values too. -/
def Exact (row : Row) : Prop := ∀ c v, row.get? c = some v → v.Exact

theorem Exact.of_values {row : Row} (h : ∀ v ∈ row.values, v.Exact) : row.Exact := by
  intro c v hv
  exact h v (List.mem_map_of_mem (Assoc.mem_of_get? hv))

/-- Rows without doubles are told by what they answer. -/
theorem identity_eq_iff_get? {r s : Row} (hr : r.Exact) (hs : s.Exact) :
    r.identity = s.identity ↔ ∀ c, r.get? c = s.get? c := by
  rw [identity_eq_iff]
  refine forall_congr' fun c => ?_
  have hv := hr c
  have hw := hs c
  generalize r.get? c = v at hv ⊢
  generalize s.get? c = w at hw ⊢
  cases v with
  | none => cases w <;> simp
  | some v =>
      cases w with
      | none => simp
      | some w =>
          have hvalue := (hv v rfl).keyForm_eq
          have hother := (hw w rfl).keyForm_eq
          simp [Value.canonicalKey_eq_iff, hvalue, hother]

/-- Rows answer alike if they have the same columns and the same values in them. -/
theorem forall_get?_eq_iff (r s : Row) : (∀ c, r.get? c = s.get? c) ↔
    (∀ c, c ∈ r.keys ↔ c ∈ s.keys) ∧ ∀ c ∈ r.keys, r.get? c = s.get? c := by
  constructor
  · intro h
    refine ⟨fun c => ?_, fun c _ => h c⟩
    rw [← Record.contains_iff_mem_keys, ← Record.contains_iff_mem_keys, Record.contains, h c]
    rfl
  · rintro ⟨hnames, hvalues⟩ c
    by_cases hc : c ∈ r.keys
    · exact hvalues c hc
    · have hother : c ∉ s.keys := fun hmem => hc ((hnames c).mpr hmem)
      rw [(Record.get?_eq_none_iff r c).mpr hc, (Record.get?_eq_none_iff s c).mpr hother]

/-- Rows without doubles share an identity exactly if they have the same columns and equal values in them:
if the one is the other with its columns in some order. -/
theorem identity_tells_columns {r s : Row} (hr : r.Exact) (hs : s.Exact) :
    (r.identity = s.identity ↔
        (∀ c, c ∈ r.keys ↔ c ∈ s.keys) ∧ ∀ c ∈ r.keys, r.get? c = s.get? c) ∧
      (r.identity = s.identity ↔ r.entries.Perm s.entries) := by
  have hanswers := identity_eq_iff_get? hr hs
  constructor
  · rw [hanswers, forall_get?_eq_iff]
  · rw [hanswers, Assoc.perm_iff_get? r.nodup s.nodup]
    rfl

/-- Two columns, and a single one whose name is spelt like the first with its value and the second. -/
def twoColumns : Row := Record.ofList [("a", .int 1), ("b", .array [.string "\x1f"])]

def spelledAlike : Row := Record.ofList [("a\"=1\x1f\"b", .array [.string "\x1f"])]

theorem identity_tells_columns_spelled :
    let swapped : Row := Record.ofList [("b", .array [.string "\x1f"]), ("a", .int 1)]
    twoColumns.identity = swapped.identity ∧ twoColumns.identity ≠ spelledAlike.identity := by
  intro swapped
  have hone : (Value.int 1).Exact := trivial
  have hother : (Value.array [.string "\x1f"]).Exact := ⟨trivial, trivial⟩
  have htwo : twoColumns.Exact := Exact.of_values
    (List.forall_mem_cons.mpr ⟨hone, List.forall_mem_singleton.mpr hother⟩)
  have hswapped : swapped.Exact := Exact.of_values
    (List.forall_mem_cons.mpr ⟨hother, List.forall_mem_singleton.mpr hone⟩)
  have halike : spelledAlike.Exact := Exact.of_values (List.forall_mem_singleton.mpr hother)
  constructor
  · exact (identity_tells_columns htwo hswapped).2.mpr (.swap _ _ _)
  · intro h
    have hnames := ((identity_tells_columns htwo halike).1.mp h).1 "a"
    exact absurd (hnames.mp (by decide)) (by decide)

end Row

end RowPipeline
