import RowPipeline.Fingerprint
import RowPipeline.Json.Reader
import RowPipeline.Proofs.Numerals
import RowPipeline.Proofs.Sorting

/-!
# Canonical texts

A canonical text at the head of a longer text can be cut off again: it ends before the first comma or
closing bracket that is not inside of it. So a text put together from canonical texts can be taken
apart, and a key that is the digest of such a text tells every part of it.
-/

namespace RowPipeline

/-- What stands before the first mark in a text is told, and so is what follows it. -/
theorem split_first {c : Char} {as bs xs ys : List Char} (ha : c ∉ as) (hb : c ∉ bs)
    (h : as ++ c :: xs = bs ++ c :: ys) : as = bs ∧ xs = ys := by
  have hcut : ∀ front behind : List Char, c ∉ front →
      (front ++ c :: behind).takeWhile (· ≠ c) = front := by
    intro front behind hfront
    rw [List.takeWhile_append_of_pos, List.takeWhile_cons_of_neg (by simp), List.append_nil]
    intro d hd
    exact decide_eq_true fun heq => hfront (heq ▸ hd)
  have hfront := congrArg (List.takeWhile (· ≠ c)) h
  rw [hcut _ _ ha, hcut _ _ hb] at hfront
  subst hfront
  exact ⟨rfl, (List.cons.inj (List.append_cancel_left h)).2⟩

/-- What follows the last mark is told, and so is what stands before it. -/
theorem split_last {c : Char} {as bs xs ys : List Char} (hx : c ∉ xs) (hy : c ∉ ys)
    (h : as ++ c :: xs = bs ++ c :: ys) : as = bs ∧ xs = ys := by
  have hreversed : xs.reverse ++ c :: as.reverse = ys.reverse ++ c :: bs.reverse := by
    simpa using congrArg List.reverse h
  obtain ⟨hback, hfront⟩ := split_first (by simpa using hx) (by simpa using hy) hreversed
  exact ⟨List.reverse_injective hfront, List.reverse_injective hback⟩

end RowPipeline

namespace RowPipeline.Json

/-! ## Strings -/

/-- The digits of an escaped control character read back. -/
theorem controlDigits : ∀ n < 0x20,
    (if n < 0x10 then ['0'] else []) ++ Nat.toDigits 16 n =
        [Nat.digitChar (n / 16), Nat.digitChar (n % 16)] ∧
      hexValue? ['0', '0', Nat.digitChar (n / 16), Nat.digitChar (n % 16)] = some n := by
  decide

theorem readCodePoint_control {n : Nat} (hn : n < 0x20) (cs : List Char) :
    readCodePoint ('0' :: '0' :: Nat.digitChar (n / 16) :: Nat.digitChar (n % 16) :: cs) =
      .ok (Char.ofNat n, cs) := by
  have hunit : readUnit ('0' :: '0' :: Nat.digitChar (n / 16) :: Nat.digitChar (n % 16) :: cs) =
      .ok (n, cs) := by
    rw [readUnit, (controlDigits n hn).2]
  have hhigh : ¬ 0xd800 ≤ n := by omega
  have hlow : ¬ 0xdc00 ≤ n := by omega
  rw [readCodePoint, hunit]
  simp [Bind.bind, Except.bind, hhigh, hlow, Pure.pure, Except.pure]

/-- How a character is written in a string: by a letter behind a backslash, by its digits, or as it
is. -/
inductive Written (c : Char) : List Char → Prop
  | letter {d : Char} : d ≠ 'u' → simpleEscape? d = some c → Written c ['\\', d]
  | digits : c.toNat < 0x20 → Written c
      ['\\', 'u', '0', '0', Nat.digitChar (c.toNat / 16), Nat.digitChar (c.toNat % 16)]
  | plain : c ≠ '"' → c ≠ '\\' → 0x20 ≤ c.toNat → Written c [c]

theorem escapedChar_written (c : Char) : Written c (escapedChar c) := by
  rw [escapedChar]
  by_cases hquote : c = '"'
  · subst hquote
    exact .letter (by decide) rfl
  by_cases hslash : c = '\\'
  · subst hslash
    exact .letter (by decide) rfl
  by_cases hb : c = '\x08'
  · subst hb
    exact .letter (by decide) rfl
  by_cases hf : c = '\x0c'
  · subst hf
    exact .letter (by decide) rfl
  by_cases hn : c = '\n'
  · subst hn
    exact .letter (by decide) rfl
  by_cases hr : c = '\r'
  · subst hr
    exact .letter (by decide) rfl
  by_cases ht : c = '\t'
  · subst ht
    exact .letter (by decide) rfl
  simp only [beq_iff_eq, hquote, hslash, hb, hf, hn, hr, ht, if_false]
  by_cases hcontrol : c.toNat < 0x20
  · rw [if_pos hcontrol, List.append_assoc, (controlDigits _ hcontrol).1]
    exact .digits hcontrol
  · rw [if_neg hcontrol]
    exact .plain hquote hslash (Nat.le_of_not_lt hcontrol)

/-- A character reads back as it is written. -/
theorem readStringFrom_escapedChar (fuel : Nat) (taken : List Char) (c : Char) (cs : List Char) :
    readStringFrom (fuel + 1) taken (escapedChar c ++ cs) = readStringFrom fuel (c :: taken) cs := by
  have hwritten := escapedChar_written c
  generalize escapedChar c = text at hwritten ⊢
  cases hwritten with
  | letter hd hc =>
      rw [List.cons_append, List.singleton_append, readStringFrom.eq_5 _ _ _ _ hd, hc]
  | digits hcontrol =>
      simp only [List.cons_append, List.nil_append]
      rw [readStringFrom, readCodePoint_control hcontrol, Char.ofNat_toNat]
  | plain hquote hslash hcontrol =>
      rw [List.singleton_append, readStringFrom.eq_6 _ _ _ _ hquote
        (fun _ h _ => hslash h) (fun _ _ h _ => hslash h)]
      simp [hslash, hcontrol]

theorem readStringFrom_escaped (s cs : List Char) (taken : List Char) {fuel : Nat}
    (hfuel : s.length < fuel) :
    readStringFrom fuel taken (s.flatMap escapedChar ++ '"' :: cs) =
      .ok (String.ofList (taken.reverse ++ s), cs) := by
  induction s generalizing fuel taken with
  | nil =>
      obtain ⟨fuel, rfl⟩ : ∃ n, fuel = n + 1 := ⟨fuel - 1, by simp at hfuel; omega⟩
      simp [readStringFrom]
  | cons c rest ih =>
      obtain ⟨fuel, rfl⟩ : ∃ n, fuel = n + 1 := ⟨fuel - 1, by simp at hfuel; omega⟩
      rw [List.flatMap_cons, List.append_assoc, readStringFrom_escapedChar,
        ih _ (by simpa using hfuel)]
      simp

/-- A written string reads back. -/
theorem readString_renderString (s : String) (cs : List Char) {fuel : Nat}
    (hfuel : s.toList.length < fuel) :
    readString fuel ((renderString s).toList.tail ++ cs) = .ok (s, cs) := by
  have hread := readStringFrom_escaped s.toList cs [] hfuel
  simpa [readString, renderString] using hread

theorem renderString_injective : Function.Injective renderString := by
  intro s t h
  have hs := readString_renderString s [] (Nat.lt_succ_of_le (Nat.le_max_left _ t.toList.length))
  have ht := readString_renderString t [] (Nat.lt_succ_of_le (Nat.le_max_right s.toList.length _))
  rw [h, ht] at hs
  simpa using hs.symm

/-! ## Where a value ends -/

/-- Outside of strings, inside of one, or behind a backslash in it. -/
inductive Quoting where
  | outside
  | inside
  | escaped

/-- Where a scan stands: the number of open brackets and the quoting. -/
abbrev Place := Nat × Quoting

/-- Pass a character; none if it ends a value that stands outside of all brackets. -/
def Place.advance : Place → Char → Option Place
  | (depth, .escaped), _ => some (depth, .inside)
  | (depth, .inside), c =>
      some (depth, if c = '"' then .outside else if c = '\\' then .escaped else .inside)
  | (depth, .outside), c =>
      if c = '"' then some (depth, .inside)
      else if c = '[' ∨ c = '\x7b' then some (depth + 1, .outside)
      else if c = ']' ∨ c = '\x7d' then if depth = 0 then none else some (depth - 1, .outside)
      else if c = ',' ∧ depth = 0 then none
      else some (depth, .outside)

/-- Cut a text where the value at its head ends. -/
def cutValue : Place → List Char → List Char × List Char
  | _, [] => ([], [])
  | place, c :: cs =>
      match place.advance c with
      | none => ([], c :: cs)
      | some next => (c :: (cutValue next cs).1, (cutValue next cs).2)

/-- What the scan passes is not cut. -/
theorem cutValue_append {place next : Place} {cs : List Char}
    (h : cs.foldlM Place.advance place = some next) (rest : List Char) :
    cutValue place (cs ++ rest) = (cs ++ (cutValue next rest).1, (cutValue next rest).2) := by
  induction cs generalizing place with
  | nil =>
      cases h
      rfl
  | cons c cs ih =>
      rw [List.foldlM_cons] at h
      obtain ⟨mid, hmid, hrest⟩ := Option.bind_eq_some_iff.mp h
      rw [List.cons_append, cutValue, hmid]
      dsimp only
      rw [ih hrest]
      rfl

/-- A text that the scan passes outside of strings, ending where it began, and so a value may be part
of it; `least` is the number of brackets that have to be open. -/
def Passes (least : Nat) (cs : List Char) : Prop :=
  ∀ depth, least ≤ depth → cs.foldlM Place.advance (depth, .outside) = some (depth, .outside)

namespace Passes

variable {least : Nat} {cs ds : List Char}

theorem nil : Passes least [] := fun _ _ => rfl

theorem append (h : Passes least cs) (h' : Passes least ds) : Passes least (cs ++ ds) := by
  intro depth hdepth
  rw [List.foldlM_append, h depth hdepth]
  exact h' depth hdepth

theorem mono {more : Nat} (h : Passes least cs) (le : least ≤ more) : Passes more cs :=
  fun depth hdepth => h depth (le.trans hdepth)

/-- A comma is passed inside of brackets. -/
theorem comma : Passes 1 [','] := by
  intro depth hdepth
  have hpos : depth ≠ 0 := by omega
  simp [Place.advance, hpos]

/-- Characters that are no commas, quotes and brackets. -/
theorem plain (h : cs.all (· ∉ ['"', '[', ']', '\x7b', '\x7d', ',']) = true) : Passes 0 cs := by
  intro depth _
  induction cs with
  | nil => rfl
  | cons c rest ih =>
      rw [List.all_cons, Bool.and_eq_true] at h
      obtain ⟨hc, hrest⟩ := h
      simp only [List.mem_cons, List.not_mem_nil, or_false, not_or, decide_eq_true_eq] at hc
      obtain ⟨hquote, hopen, hclose, hbrace, hend, hcomma⟩ := hc
      have hstep : Place.advance (depth, .outside) c = some (depth, .outside) := by
        simp [Place.advance, hquote, hopen, hclose, hbrace, hend, hcomma]
      rw [List.foldlM_cons, hstep]
      exact ih hrest

/-- What is passed inside of brackets is passed with them everywhere. -/
theorem bracketed (h : Passes 1 cs) {left right : Char}
    (pair : left = '[' ∧ right = ']' ∨ left = '\x7b' ∧ right = '\x7d') :
    Passes 0 (left :: cs ++ [right]) := by
  intro depth _
  have hopen : Place.advance (depth, .outside) left = some (depth + 1, .outside) := by
    rcases pair with ⟨rfl, -⟩ | ⟨rfl, -⟩ <;> simp [Place.advance]
  have hclose : Place.advance (depth + 1, .outside) right = some (depth, .outside) := by
    rcases pair with ⟨-, rfl⟩ | ⟨-, rfl⟩ <;> simp [Place.advance]
  rw [List.cons_append, List.foldlM_cons, hopen]
  simp only [Option.bind_eq_bind, Option.bind_some]
  rw [List.foldlM_append, h (depth + 1) (by omega)]
  simp [hclose]

/-- Texts with commas between them. -/
theorem intercalate {texts : List String} (h : ∀ t ∈ texts, Passes 0 t.toList) :
    Passes 1 (",".intercalate texts).toList := by
  induction texts with
  | nil => exact nil
  | cons t rest ih =>
      have ht : Passes 1 t.toList := (h t List.mem_cons_self).mono (by omega)
      have hrest := ih fun u hu => h u (List.mem_cons_of_mem _ hu)
      cases rest with
      | nil => simpa using ht
      | cons u rest =>
          rw [String.intercalate_cons_cons, String.toList_append, String.toList_append]
          exact (ht.append comma).append hrest

end Passes

/-- A scan inside of a string stays there over a character as it is written. -/
theorem advance_escapedChar (depth : Nat) (c : Char) :
    (escapedChar c).foldlM Place.advance (depth, .inside) = some (depth, .inside) := by
  have hwritten := escapedChar_written c
  generalize escapedChar c = text at hwritten ⊢
  cases hwritten with
  | letter => simp [Place.advance]
  | digits hcontrol =>
      have hdigits : ∀ n < 0x10, Nat.digitChar n ≠ '"' ∧ Nat.digitChar n ≠ '\\' := by
        decide
      have hfirst := hdigits (c.toNat / 16) (by omega)
      have hsecond := hdigits (c.toNat % 16) (by omega)
      simp [Place.advance, hfirst, hsecond]
  | plain hquote hslash => simp [Place.advance, hquote, hslash]

theorem passes_renderString (s : String) : Passes 0 (renderString s).toList := by
  intro depth _
  have hbody : ∀ cs : List Char,
      (cs.flatMap escapedChar).foldlM Place.advance (depth, .inside) = some (depth, .inside) := by
    intro cs
    induction cs with
    | nil => rfl
    | cons c rest ih =>
        rw [List.flatMap_cons, List.foldlM_append, advance_escapedChar]
        exact ih
  rw [renderString, String.toList_ofList, List.cons_append, List.foldlM_cons]
  have hopen : Place.advance (depth, .outside) '"' = some (depth, .inside) := rfl
  rw [hopen]
  simp only [Option.bind_eq_bind, Option.bind_some]
  rw [List.foldlM_append, hbody]
  simp [Place.advance]

/-! ## Numbers -/

/-- The characters of numbers. -/
def isNumberChar (c : Char) : Bool :=
  Text.isAsciiDigit c || c == '-' || c == '+' || c == '.' || c == 'e'

theorem plain_number {cs : List Char} (h : ∀ c ∈ cs, isNumberChar c = true) :
    cs.all (· ∉ ['"', '[', ']', '\x7b', '\x7d', ',']) = true := by
  rw [List.all_eq_true]
  intro c hc
  rw [decide_eq_true_eq]
  intro hmem
  have hnumber := h c hc
  simp only [List.mem_cons, List.not_mem_nil, or_false] at hmem
  rcases hmem with rfl | rfl | rfl | rfl | rfl | rfl <;> exact absurd hnumber (by decide)

theorem numberChars_digits {cs : List Char} (h : ∀ c ∈ cs, Text.isAsciiDigit c = true) :
    ∀ c ∈ cs, isNumberChar c = true := by
  intro c hc
  simp [isNumberChar, h c hc]

theorem numberChars_nat (n : ℕ) : ∀ c ∈ (toString n).toList, isNumberChar c = true :=
  numberChars_digits (Decimal.digits_toString n).all

theorem numberChars_zeros (n : ℕ) : ∀ c ∈ (Decimal.zeros n).toList, isNumberChar c = true :=
  numberChars_digits (Decimal.zeros_digits n)

theorem numberChars_int (i : Int) : ∀ c ∈ (toString i).toList, isNumberChar c = true := by
  cases i with
  | ofNat n => exact numberChars_nat n
  | negSucc n =>
      have htext : (toString (Int.negSucc n)).toList = '-' :: (toString (n + 1)).toList := by
        rw [Int.toString_eq_repr, Int.repr, String.toList_append]
        rfl
      rw [htext]
      exact List.forall_mem_cons.mpr ⟨by decide, numberChars_nat (n + 1)⟩

theorem numberChars_withPoint {digits : String}
    (h : ∀ c ∈ digits.toList, isNumberChar c = true) (places : ℕ) :
    ∀ c ∈ (Decimal.withPoint digits places).toList, isNumberChar c = true := by
  rw [Decimal.withPoint]
  split
  · simp only [String.toList_append, List.forall_mem_append]
    exact ⟨⟨List.all_eq_true.mp (by decide), numberChars_zeros _⟩, h⟩
  · simp only [String.toList_append, String.toList_ofList, List.forall_mem_append]
    exact ⟨⟨fun c hc => h c (List.mem_of_mem_take hc), List.all_eq_true.mp (by decide)⟩,
      fun c hc => h c (List.mem_of_mem_drop hc)⟩

theorem numberChars_arrange (n : Decimal.Numeral) :
    ∀ c ∈ (Decimal.jsonLayout.arrange n).toList, isNumberChar c = true := by
  have hdigits := numberChars_nat n.digits
  rw [Decimal.Layout.arrange]
  dsimp only
  split
  · split
    · simp only [String.toList_append, List.forall_mem_append]
      exact ⟨⟨hdigits, numberChars_zeros _⟩, List.all_eq_true.mp (by decide)⟩
    · exact numberChars_withPoint hdigits _
  · simp only [String.toList_append, List.forall_mem_append]
    refine ⟨⟨?_, ?_⟩, numberChars_nat _⟩
    · split
      · exact hdigits
      · exact numberChars_withPoint hdigits _
    · split <;> exact List.all_eq_true.mp (by decide)

theorem numberChars_write {x : Float} (hx : x.isFinite = true) :
    ∀ c ∈ (Decimal.jsonLayout.write x).toList, isNumberChar c = true := by
  obtain ⟨d, hd⟩ := Option.isSome_iff_exists.mp (Binary64.decode?_isSome.trans hx)
  rw [Decimal.Layout.write, hd]
  dsimp only
  have hsign : ∀ c ∈ (if d.negative then "-" else "").toList, isNumberChar c = true := by
    cases d.negative <;> exact List.all_eq_true.mp (by decide)
  split
  · simp only [String.toList_append, List.forall_mem_append]
    exact ⟨hsign, List.all_eq_true.mp (by decide)⟩
  · simp only [String.toList_append, List.forall_mem_append]
    exact ⟨hsign, numberChars_arrange _⟩

/-- The text of a number opens no string and no bracket. -/
theorem plain_renderNumber (n : JsonNumber) :
    n.render.toList.all (· ∉ ['"', '[', ']', '\x7b', '\x7d', ',']) = true := by
  cases n with
  | int i => exact plain_number (numberChars_int i.toInt)
  | big n => exact plain_number (numberChars_nat n.toNat)
  | float x =>
      rw [JsonNumber.render]
      split
      · rename_i hx
        exact plain_number (numberChars_write hx)
      · decide

/-! ## Values -/

mutual

/-- A canonical text is passed as a whole. -/
theorem passes_canonical (j : Json) : Passes 0 j.canonical.toList := by
  cases j with
  | null => exact Passes.plain (by decide)
  | bool b => cases b <;> exact Passes.plain (by decide)
  | number n => exact Passes.plain (plain_renderNumber n)
  | string s => exact passes_renderString s
  | array items =>
      have hitems := Passes.intercalate (passes_canonicalItems items)
      rw [canonical, String.toList_append, String.toList_append]
      exact hitems.bracketed (.inl ⟨rfl, rfl⟩)
  | object fields =>
      have hfields : ∀ t ∈ (sortBy (fun a b => compare a.1 b.1) (canonicalFields fields)).map
          (fun f => renderString f.1 ++ ":" ++ f.2), Passes 0 t.toList := by
        intro t ht
        obtain ⟨f, hf, rfl⟩ := List.mem_map.mp ht
        rw [mem_sortBy] at hf
        rw [String.toList_append, String.toList_append]
        exact ((passes_renderString f.1).append (Passes.plain (by decide))).append
          (passes_canonicalFields fields f hf)
      rw [canonical, String.toList_append, String.toList_append]
      exact (Passes.intercalate hfields).bracketed (.inr ⟨rfl, rfl⟩)

theorem passes_canonicalItems (items : List Json) :
    ∀ t ∈ canonicalItems items, Passes 0 t.toList := by
  cases items with
  | nil => simp [canonicalItems]
  | cons item rest =>
      rw [canonicalItems]
      exact List.forall_mem_cons.mpr ⟨passes_canonical item, passes_canonicalItems rest⟩

theorem passes_canonicalFields (fields : List (String × Json)) :
    ∀ f ∈ canonicalFields fields, Passes 0 f.2.toList := by
  cases fields with
  | nil => simp [canonicalFields]
  | cons field rest =>
      rw [canonicalFields]
      exact List.forall_mem_cons.mpr ⟨passes_canonical field.2, passes_canonicalFields rest⟩

end

/-- The end of the text, or what stands behind a value in a text. -/
def Follows (rest : List Char) : Prop :=
  rest = [] ∨ ∃ c cs, rest = c :: cs ∧ c ∈ [',', ']', '\x7d']

theorem follows_comma (cs : List Char) : Follows (',' :: cs) := .inr ⟨',', cs, rfl, by simp⟩

theorem follows_brace (cs : List Char) : Follows ('\x7d' :: cs) := .inr ⟨'\x7d', cs, rfl, by simp⟩

/-- A text at the head of a longer one, passed as a whole, is cut off. -/
theorem cutValue_passes {text rest : List Char} (h : Passes 0 text) (follows : Follows rest) :
    cutValue (0, .outside) (text ++ rest) = (text, rest) := by
  rw [cutValue_append (h 0 le_rfl)]
  rcases follows with rfl | ⟨c, cs, rfl, hc⟩
  · simp [cutValue]
  · simp only [List.mem_cons, List.not_mem_nil, or_false] at hc
    rcases hc with rfl | rfl | rfl <;> simp [cutValue, Place.advance]

/-- So two texts that are equal are equal at their heads, and behind them. -/
theorem Passes.cancel {s t : String} (hs : Passes 0 s.toList) (ht : Passes 0 t.toList)
    {as bs : List Char} (ha : Follows as) (hb : Follows bs) (h : s.toList ++ as = t.toList ++ bs) :
    s = t ∧ as = bs := by
  have hcut := congrArg (cutValue (0, .outside)) h
  rw [cutValue_passes hs ha, cutValue_passes ht hb, Prod.mk.injEq] at hcut
  exact ⟨String.toList_inj.mp hcut.1, hcut.2⟩

theorem canonical_append {a b : Json} {as bs : List Char} (ha : Follows as) (hb : Follows bs)
    (h : a.canonical.toList ++ as = b.canonical.toList ++ bs) : a.canonical = b.canonical ∧ as = bs :=
  (passes_canonical a).cancel (passes_canonical b) ha hb h

/-! ## Lists and numbers in keys -/

theorem toList_intercalate_cons (t : String) (rest : List String) :
    (",".intercalate (t :: rest)).toList =
      t.toList ++ rest.flatMap fun u => ',' :: u.toList := by
  induction rest generalizing t with
  | nil => simp
  | cons u rest ih =>
      rw [String.intercalate_cons_cons, String.toList_append, String.toList_append, ih,
        List.flatMap_cons]
      simp

/-- What follows a text of a list. -/
theorem follows_texts (texts : List String) : Follows (texts.flatMap fun u => ',' :: u.toList) := by
  cases texts with
  | nil => exact .inl rfl
  | cons t rest => exact follows_comma _

/-- The texts behind the first one. -/
theorem texts_tail {as bs : List String} (ha : ∀ t ∈ as, Passes 0 t.toList)
    (hb : ∀ t ∈ bs, Passes 0 t.toList)
    (h : as.flatMap (fun u => ',' :: u.toList) = bs.flatMap fun u => ',' :: u.toList) : as = bs := by
  induction as generalizing bs with
  | nil =>
      cases bs with
      | nil => rfl
      | cons b bs => simp at h
  | cons a as ih =>
      cases bs with
      | nil => simp at h
      | cons b bs =>
          rw [List.flatMap_cons, List.flatMap_cons, List.cons_append, List.cons_append,
            List.cons.injEq] at h
          rw [List.forall_mem_cons] at ha hb
          obtain ⟨rfl, htail⟩ := ha.1.cancel hb.1 (follows_texts as) (follows_texts bs) h.2
          rw [ih ha.2 hb.2 htail]

/-- Texts with commas between them are told apart, if none of them is empty. -/
theorem intercalate_told {as bs : List String} (ha : ∀ t ∈ as, Passes 0 t.toList ∧ t.toList ≠ [])
    (hb : ∀ t ∈ bs, Passes 0 t.toList ∧ t.toList ≠ [])
    (h : ",".intercalate as = ",".intercalate bs) : as = bs := by
  have htext := congrArg String.toList h
  cases as with
  | nil =>
      cases bs with
      | nil => rfl
      | cons b bs =>
          rw [toList_intercalate_cons] at htext
          exact absurd (List.append_eq_nil_iff.mp htext.symm).1 (hb b List.mem_cons_self).2
  | cons a as =>
      cases bs with
      | nil =>
          rw [toList_intercalate_cons] at htext
          exact absurd (List.append_eq_nil_iff.mp htext).1 (ha a List.mem_cons_self).2
      | cons b bs =>
          rw [toList_intercalate_cons, toList_intercalate_cons] at htext
          rw [List.forall_mem_cons] at ha hb
          obtain ⟨rfl, htail⟩ := ha.1.1.cancel hb.1.1 (follows_texts as) (follows_texts bs) htext
          rw [texts_tail (fun t ht => (ha.2 t ht).1) (fun t ht => (hb.2 t ht).1) htail]

theorem renderString_ne_nil (s : String) : (renderString s).toList ≠ [] := by
  simp [renderString]

theorem canonical_array (items : List Json) :
    (Json.array items).canonical = "[" ++ ",".intercalate (items.map canonical) ++ "]" := by
  have hitems : canonicalItems items = items.map canonical := by
    induction items with
    | nil => rfl
    | cons item rest ih => rw [canonicalItems, ih, List.map_cons]
  rw [canonical, hitems]

/-- A list of texts is told by its canonical text. -/
theorem canonical_strings {as bs : List String}
    (h : (Json.array (as.map .string)).canonical = (Json.array (bs.map .string)).canonical) :
    as = bs := by
  have hform : ∀ cs : List String, (cs.map Json.string).map canonical = cs.map renderString := by
    intro cs
    rw [List.map_map]
    rfl
  rw [canonical_array, canonical_array, hform, hform, String.append_left_inj,
    String.append_right_inj] at h
  have htexts : ∀ cs : List String, ∀ t ∈ cs.map renderString,
      Passes 0 t.toList ∧ t.toList ≠ [] := by
    intro cs t ht
    obtain ⟨s, -, rfl⟩ := List.mem_map.mp ht
    exact ⟨passes_renderString s, renderString_ne_nil s⟩
  exact List.map_injective_iff.mpr renderString_injective
    (intercalate_told (htexts as) (htexts bs) h)

theorem toString_injective {n m : ℕ} (h : toString n = toString m) : n = m := by
  have hvalue := congrArg (fun s : String => Decimal.digitsValue s.toList) h
  simpa only [Decimal.digitsValue_toString] using hvalue

theorem canonical_ofNat {n : ℕ} (hn : n < 0x10000000000000000) :
    (Json.ofNat n).canonical = toString n := by
  rw [Json.ofNat]
  split
  · rename_i hsmall
    have hvalue : (Int64.ofNat n).toInt = n := Int64.toInt_ofNat_of_lt hsmall
    show toString (Int64.ofNat n).toInt = toString n
    rw [hvalue]
    rfl
  · show toString n.toUInt64.toNat = toString n
    rw [Nat.toUInt64, UInt64.toNat_ofNat', Nat.mod_eq_of_lt hn]

end RowPipeline.Json
