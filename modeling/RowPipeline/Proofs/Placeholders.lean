import RowPipeline.Proofs.Lexemes

/-!
# Placeholders and lexemes

The scan for placeholders cuts a text without a look at its tokens. No placeholder crosses the border
between two lexemes, so a text is filled lexeme by lexeme.
-/

namespace RowPipeline.Piece

open Lexer

variable {name cs : List Char} {skip n : Nat}

/-! ## The scan -/

theorem referenceAfterDollar?_braced (braced : List Char) :
    referenceAfterDollar? ('\x7b' :: braced) =
      if isName (braced.takeWhile (· != '\x7d')) &&
          (braced.takeWhile (· != '\x7d')).length < braced.length then
        some (braced.takeWhile (· != '\x7d'), (braced.takeWhile (· != '\x7d')).length + 2)
      else none := rfl

theorem referenceAfterDollar?_bare (h : cs.head? ≠ some '\x7b') :
    referenceAfterDollar? cs =
      if isName (cs.takeWhile isNameChar) then
        some (cs.takeWhile isNameChar, (cs.takeWhile isNameChar).length)
      else none := by
  unfold referenceAfterDollar?
  split
  · exact absurd rfl h
  · rfl

theorem referenceAfterDollar?_spec (h : referenceAfterDollar? cs = some (name, n)) :
    isName name = true ∧ n ≤ cs.length := by
  by_cases hbrace : cs.head? = some '\x7b'
  · obtain ⟨braced, rfl⟩ : ∃ braced, cs = '\x7b' :: braced := by
      cases cs with
      | nil => cases hbrace
      | cons c rest => exact ⟨rest, by rw [Option.some.inj hbrace]⟩
    rw [referenceAfterDollar?_braced] at h
    split at h
    · rename_i hname
      obtain ⟨rfl, rfl⟩ := Prod.mk.inj (Option.some.inj h)
      obtain ⟨hname, hlength⟩ := Bool.and_eq_true_iff.1 hname
      have := of_decide_eq_true hlength
      exact ⟨hname, by simp only [List.length_cons]; omega⟩
    · cases h
  · rw [referenceAfterDollar?_bare hbrace] at h
    split at h
    · rename_i hname
      obtain ⟨rfl, rfl⟩ := Prod.mk.inj (Option.some.inj h)
      exact ⟨hname, (List.takeWhile_prefix isNameChar).length_le⟩
    · cases h

theorem scanFrom_drop (skip : Nat) (cs : List Char) : scanFrom skip cs = scanFrom 0 (cs.drop skip) := by
  induction cs generalizing skip with
  | nil => cases skip <;> rfl
  | cons c rest ih =>
      cases skip with
      | zero => rfl
      | succ skip => exact ih skip

theorem scanFrom_char {c : Char} (h : c ≠ '$') (rest : List Char) :
    scanFrom 0 (c :: rest) = .char c :: scanFrom 0 rest := by
  rw [scanFrom, if_neg h]

theorem scanFrom_dollar {rest : List Char} (h : referenceAfterDollar? rest = none) :
    scanFrom 0 ('$' :: rest) = .char '$' :: scanFrom 0 rest := by
  rw [scanFrom, if_pos rfl]
  simp only [h]

theorem scanFrom_name {rest name : List Char} {n : Nat}
    (h : referenceAfterDollar? rest = some (name, n)) :
    scanFrom 0 ('$' :: rest) =
      .reference (String.ofList name) ('$' :: rest.take n) :: scanFrom 0 (rest.drop n) := by
  rw [scanFrom, if_pos rfl]
  simp only [h]
  rw [scanFrom_drop]

/-- The scan of a text goes on behind a character, a dollar sign without a name, or a reference. -/
@[elab_as_elim]
theorem scan_induction {motive : List Char → Prop} (nil : motive [])
    (char : ∀ c rest, c ≠ '$' → motive rest → motive (c :: rest))
    (dollar : ∀ rest, referenceAfterDollar? rest = none → motive rest → motive ('$' :: rest))
    (reference : ∀ rest name n, referenceAfterDollar? rest = some (name, n) → motive (rest.drop n) →
      motive ('$' :: rest)) (cs : List Char) : motive cs := by
  -- the rest behind a reference is shorter, but no part of the list's recursion
  have hall : ∀ n, ∀ cs : List Char, cs.length ≤ n → motive cs := by
    intro n
    induction n with
    | zero =>
        intro cs hcs
        rwa [List.length_eq_zero_iff.mp (Nat.le_zero.mp hcs)]
    | succ n ih =>
        intro cs hcs
        cases cs with
        | nil => exact nil
        | cons c rest =>
            have hrest : rest.length ≤ n := Nat.le_of_succ_le_succ hcs
            by_cases hc : c = '$'
            · subst hc
              cases hreference : referenceAfterDollar? rest with
              | none => exact dollar rest hreference (ih rest hrest)
              | some found =>
                  exact reference rest found.1 found.2 hreference
                    (ih _ (Nat.le_trans (List.drop_sublist _ rest).length_le hrest))
            · exact char c rest hc (ih rest hrest)
  exact hall cs.length cs (Nat.le_refl _)

/-- The pieces make up the text. -/
theorem flatMap_source (skip : Nat) (cs : List Char) :
    (scanFrom skip cs).flatMap source = cs.drop skip := by
  rw [scanFrom_drop]
  induction cs.drop skip using scan_induction with
  | nil => rfl
  | char c rest hc ih =>
      rw [scanFrom_char hc, List.flatMap_cons, ih]
      rfl
  | dollar rest hreference ih =>
      rw [scanFrom_dollar hreference, List.flatMap_cons, ih]
      rfl
  | reference rest name n hreference ih =>
      rw [scanFrom_name hreference, List.flatMap_cons, ih]
      simp [source]

theorem flatMap_scan (text : String) : (scan text).flatMap source = text.toList :=
  flatMap_source 0 text.toList

theorem source_ne_nil (cs : List Char) : ∀ piece ∈ scanFrom 0 cs, piece.source ≠ [] := by
  induction cs using scan_induction with
  | nil => exact nofun
  | char c rest hc ih =>
      rw [scanFrom_char hc]
      exact List.forall_mem_cons.2 ⟨List.cons_ne_nil _ _, ih⟩
  | dollar rest hreference ih =>
      rw [scanFrom_dollar hreference]
      exact List.forall_mem_cons.2 ⟨List.cons_ne_nil _ _, ih⟩
  | reference rest name n hreference ih =>
      rw [scanFrom_name hreference]
      exact List.forall_mem_cons.2 ⟨List.cons_ne_nil _ _, ih⟩

/-- A reference has a name and is spelled out. -/
theorem reference_mem {name : String} {source : List Char}
    (h : Piece.reference name source ∈ scanFrom skip cs) : isName name.toList = true := by
  rw [scanFrom_drop] at h
  generalize cs.drop skip = left at h
  induction left using scan_induction with
  | nil => cases h
  | char c rest hc ih =>
      rw [scanFrom_char hc] at h
      exact ih ((List.mem_cons.1 h).resolve_left nofun)
  | dollar rest hreference ih =>
      rw [scanFrom_dollar hreference] at h
      exact ih ((List.mem_cons.1 h).resolve_left nofun)
  | reference rest found n hreference ih =>
      rw [scanFrom_name hreference] at h
      rcases List.mem_cons.1 h with heq | h
      · obtain ⟨rfl, -⟩ := Piece.reference.inj heq
        rw [String.toList_ofList]
        exact (referenceAfterDollar?_spec hreference).1
      · exact ih h

theorem mem_names {text name : String} :
    name ∈ names text ↔ ∃ source, .reference name source ∈ scan text := by
  unfold names
  rw [List.mem_filterMap]
  constructor
  · rintro ⟨piece, hpiece, hname⟩
    cases piece with
    | char c => cases hname
    | reference name' source =>
        obtain rfl := Option.some.inj hname
        exact ⟨source, hpiece⟩
  · rintro ⟨source, hpiece⟩
    exact ⟨.reference name source, hpiece, rfl⟩

theorem mem_names_of_scan {text name : String} {source : List Char}
    (h : scan text = [.reference name source]) : name ∈ names text := by
  refine mem_names.mpr ⟨source, ?_⟩
  rw [h]
  exact List.mem_singleton.mpr rfl

/-- A text whose dollar signs refer to the same in front of more text is scanned on its own. -/
theorem scanFrom_append {as bs : List Char} (hskip : skip ≤ as.length)
    (h : ∀ before after, as = before ++ '$' :: after →
      referenceAfterDollar? (after ++ bs) = referenceAfterDollar? after) :
    scanFrom skip (as ++ bs) = scanFrom skip as ++ scanFrom 0 bs := by
  induction as generalizing skip with
  | nil =>
      obtain rfl : skip = 0 := Nat.le_zero.1 hskip
      rfl
  | cons a as ih =>
      have htail : ∀ before after, as = before ++ '$' :: after →
          referenceAfterDollar? (after ++ bs) = referenceAfterDollar? after := by
        rintro before after rfl
        exact h (a :: before) after rfl
      cases skip with
      | succ skip => exact ih (Nat.le_of_succ_le_succ hskip) htail
      | zero =>
          rw [List.cons_append, scanFrom, scanFrom]
          split
          · rename_i hdollar
            have hsame := h [] as (by rw [hdollar]; rfl)
            rw [hsame]
            split
            · rename_i name n hreference
              have hn := (referenceAfterDollar?_spec hreference).2
              rw [ih hn htail, List.take_append_of_le_length hn]
              rfl
            · rw [ih (Nat.zero_le _) htail]
              rfl
          · rw [ih (Nat.zero_le _) htail]
            rfl

theorem scanFrom_clean {as : List Char} (clean : '$' ∉ as) (bs : List Char) :
    scanFrom 0 (as ++ bs) = scanFrom 0 as ++ scanFrom 0 bs := by
  refine scanFrom_append (Nat.zero_le _) fun before after hsplit => absurd ?_ clean
  rw [hsplit]
  exact List.mem_append_right before List.mem_cons_self

/-! ## How a reference is spelled -/

theorem isName_chars (h : isName name = true) : ∀ c ∈ name, isNameChar c = true := by
  cases name with
  | nil => cases h
  | cons c rest =>
      obtain ⟨hc, hrest⟩ := Bool.and_eq_true_iff.1 h
      intro d hd
      rcases List.mem_cons.1 hd with rfl | hd
      · simp [isNameChar, hc]
      · exact List.all_eq_true.1 hrest d hd

/-- The longest start with a property is all there is, or something without the property follows. -/
theorem takeWhile_split (p : Char → Bool) (cs : List Char) : cs.takeWhile p = cs ∨
    ∃ d after, p d = false ∧ cs = cs.takeWhile p ++ d :: after := by
  have h := List.takeWhile_append_dropWhile (p := p) (l := cs)
  cases hdrop : cs.dropWhile p with
  | nil =>
      rw [hdrop, List.append_nil] at h
      exact .inl h
  | cons d after =>
      have hd := List.head?_dropWhile_not p cs
      rw [hdrop] at h hd
      exact .inr ⟨d, after, by simpa using hd, h.symm⟩

theorem isName_takeWhile (c : Char) (rest : List Char) :
    isName ((c :: rest).takeWhile isNameChar) = isNameStart c := by
  rw [List.takeWhile_cons]
  cases hstart : isNameStart c with
  | true =>
      rw [if_pos (by simp [isNameChar, hstart]), isName, hstart]
      exact List.all_eq_true.2 (takeWhile_all rest)
  | false =>
      split
      · rw [isName, hstart]
        rfl
      · rfl

/-- A reference takes its name and both braces, or a name that does not go on. -/
theorem referenceAfterDollar?_take (h : referenceAfterDollar? cs = some (name, n)) :
    cs.take n = '\x7b' :: (name ++ ['\x7d']) ∨
      cs.take n = name ∧ ∀ c ∈ (cs.drop n).head?, isNameChar c = false := by
  by_cases hbrace : cs.head? = some '\x7b'
  · obtain ⟨braced, rfl⟩ := List.head?_eq_some_iff.1 hbrace
    rw [referenceAfterDollar?_braced] at h
    split at h
    · rename_i hname
      obtain ⟨rfl, rfl⟩ := Prod.mk.inj (Option.some.inj h)
      refine .inl ?_
      rcases takeWhile_split (· != '\x7d') braced with hall | ⟨d, after, hd, hsplit⟩
      · rw [hall] at hname
        simp at hname
      · obtain rfl : d = '\x7d' := by simpa using hd
        generalize braced.takeWhile (· != '\x7d') = name at hsplit ⊢
        rw [hsplit, List.take_succ_cons, List.take_length_add_append 1]
        rfl
    · cases h
  · rw [referenceAfterDollar?_bare hbrace] at h
    split at h
    · obtain ⟨rfl, rfl⟩ := Prod.mk.inj (Option.some.inj h)
      refine .inr ?_
      rcases takeWhile_split isNameChar cs with hall | ⟨d, after, hd, hsplit⟩
      · simp [hall]
      · generalize cs.takeWhile isNameChar = name at hsplit ⊢
        subst hsplit
        simpa using hd
    · cases h

theorem dollar_not_mem (h : referenceAfterDollar? cs = some (name, n)) : '$' ∉ cs.take n := by
  have hname : '$' ∉ name := fun hmem =>
    absurd (isName_chars (referenceAfterDollar?_spec h).1 '$' hmem) (by decide)
  rcases referenceAfterDollar?_take h with htake | ⟨htake, -⟩
  · simpa [htake] using hname
  · rwa [htake]

/-- Behind a dollar sign every name starts a reference, and so does every name in braces. -/
theorem referenceAfterDollar?_isSome {after : List Char} (hname : isName name = true)
    (h : cs = name ++ after ∨ cs = '\x7b' :: (name ++ '\x7d' :: after)) :
    (referenceAfterDollar? cs).isSome = true := by
  rcases h with rfl | rfl
  · cases name with
    | nil => cases hname
    | cons c name =>
        have hstart : isNameStart c = true := (Bool.and_eq_true_iff.1 hname).1
        have hbrace : (c :: name ++ after).head? ≠ some '\x7b' := by
          rintro heq
          rw [Option.some.inj heq] at hstart
          exact absurd hstart (by decide)
        rw [referenceAfterDollar?_bare hbrace, List.cons_append, isName_takeWhile, hstart]
        rfl
  · have hopen : ∀ c ∈ name, (c != '\x7d') = true := by
      intro c hc
      refine bne_iff_ne.2 ?_
      rintro rfl
      exact absurd (isName_chars hname _ hc) (by decide)
    have htake := (@takeWhile_append_of_stop _ _ ('\x7d' :: after) hopen (by simp)).1
    rw [referenceAfterDollar?_braced, htake, hname]
    simp

/-! ## Borders between lexemes -/

theorem takeWhile_append_of_mem {p : Char → Bool} {q : Char} {as : List Char} (hq : q ∈ as)
    (hp : p q = false) (bs : List Char) : (as ++ bs).takeWhile p = as.takeWhile p := by
  rw [List.takeWhile_append, if_neg]
  intro hall
  have heq := List.IsPrefix.eq_of_length (List.takeWhile_prefix p) hall
  have := takeWhile_all as q (heq ▸ hq)
  rw [hp] at this
  cases this

theorem takeWhile_length_lt {p : Char → Bool} {q : Char} {as : List Char} (hq : q ∈ as)
    (hp : p q = false) : (as.takeWhile p).length < as.length := by
  refine Nat.lt_of_le_of_ne (List.takeWhile_prefix p).length_le fun hall => ?_
  have heq := List.IsPrefix.eq_of_length (List.takeWhile_prefix p) hall
  have := takeWhile_all as q (heq ▸ hq)
  rw [hp] at this
  cases this

theorem takeWhile_of_all {p : Char → Bool} {as : List Char} (h : ∀ c ∈ as, p c = true) :
    as.takeWhile p = as := by
  simpa using (@takeWhile_append_of_stop p as [] h (by simp)).1

/-- A closing brace ends a braced reference. -/
theorem referenceAfterDollar?_closed {as : List Char} (hend : '\x7d' ∈ as) (bs : List Char) :
    referenceAfterDollar? ('\x7b' :: (as ++ bs)) = referenceAfterDollar? ('\x7b' :: as) := by
  have hlength := takeWhile_length_lt (p := (· != '\x7d')) hend rfl
  have hlength' : (as.takeWhile (· != '\x7d')).length < (as ++ bs).length :=
    Nat.lt_of_lt_of_le hlength (by simp)
  rw [referenceAfterDollar?_braced, referenceAfterDollar?_braced, takeWhile_append_of_mem hend rfl,
    decide_eq_true hlength, decide_eq_true hlength']

/-- A character that no name and no brace has cuts a reference off. -/
theorem referenceAfterDollar?_append_of_mem {q : Char} {as : List Char} (hq : q ∈ as)
    (hname : isNameChar q = false) (hopen : q ≠ '\x7b') (bs : List Char) :
    referenceAfterDollar? (as ++ bs) = referenceAfterDollar? as := by
  cases as with
  | nil => cases hq
  | cons a as =>
      by_cases ha : a = '\x7b'
      · subst ha
        have hq' : q ∈ as := (List.mem_cons.1 hq).resolve_left hopen
        rw [List.cons_append]
        by_cases hend : '\x7d' ∈ as
        · exact referenceAfterDollar?_closed hend bs
        · -- the brace stays open up to the character, or is closed too late
          have hopenEnd : ∀ c ∈ as, (c != '\x7d') = true := by
            intro c hc
            have : c ≠ '\x7d' := fun h => hend (h ▸ hc)
            simpa using this
          have hlonger : isName ((as ++ bs).takeWhile (· != '\x7d')) = false := by
            refine Bool.eq_false_iff.2 fun h => ?_
            have hmem : q ∈ (as ++ bs).takeWhile (· != '\x7d') := by
              rw [List.takeWhile_append_of_pos hopenEnd]
              exact List.mem_append_left _ hq'
            have := isName_chars h q hmem
            rw [hname] at this
            cases this
          rw [referenceAfterDollar?_braced, referenceAfterDollar?_braced, hlonger,
            takeWhile_of_all hopenEnd]
          simp
      · have hhead : (a :: as).head? ≠ some '\x7b' := fun h => ha (Option.some.inj h)
        have hhead' : (a :: as ++ bs).head? ≠ some '\x7b' := hhead
        rw [referenceAfterDollar?_bare hhead, referenceAfterDollar?_bare hhead',
          takeWhile_append_of_mem hq hname]

theorem isAscii_of_letter {c : Char} (h : Text.isAsciiLetter c = true) : c.toNat < 0x80 := by
  have hrange : ('a' ≤ c ∧ c ≤ 'z') ∨ ('A' ≤ c ∧ c ≤ 'Z') := by
    simpa [Text.isAsciiLetter] using h
  rcases hrange with ⟨-, hz⟩ | ⟨-, hz⟩
  · exact Nat.lt_of_le_of_lt hz (by decide)
  · exact Nat.lt_of_le_of_lt hz (by decide)

theorem isAlphabetic_of_letter {c : Char} (h : Text.isAsciiLetter c = true) :
    Text.isAlphabetic c = true := by
  simp [Text.isAlphabetic, Text.hasProperty, isAscii_of_letter h, h]

theorem wordChar_of_nameChar {c : Char} (h : isNameChar c = true) : isWordChar c = true := by
  rcases Bool.or_eq_true_iff.1 h with h | h
  · rcases Bool.or_eq_true_iff.1 h with h | h
    · simp [isWordChar, Text.isAlphanumeric, isAlphabetic_of_letter h]
    · simp [isWordChar, h]
  · exact wordChar_of_digit h

theorem dollar_first {as before after : List Char} (clean : '$' ∉ as)
    (h : '$' :: as = before ++ '$' :: after) : after = as := by
  cases before with
  | nil => exact (List.cons.inj h).2.symm
  | cons b before => exact absurd (by rw [(List.cons.inj h).2]; simp) clean

/-- No reference crosses the end of a lexeme. -/
theorem scanFrom_lexeme {token : Token} {source left : List Char} (h : Spells token source left) :
    scanFrom 0 (source ++ left) = scanFrom 0 source ++ scanFrom 0 left := by
  refine scanFrom_append (Nat.zero_le _) fun before after hsplit => ?_
  cases h with
  | @bare name _ nonempty chars stop =>
      have hclean : '$' ∉ name := fun h => absurd (chars _ h) (by decide)
      obtain rfl := dollar_first hclean hsplit
      by_cases hpoint : ∃ q ∈ after, isNameChar q = false
      · obtain ⟨q, hq, hname⟩ := hpoint
        have hopen : q ≠ '\x7b' := by
          rintro rfl
          exact absurd (chars _ hq) (by decide)
        exact referenceAfterDollar?_append_of_mem hq hname hopen left
      · have hall : ∀ c ∈ after, isNameChar c = true := by
          intro c hc
          cases hname : isNameChar c with
          | true => rfl
          | false => exact absurd ⟨c, hc, hname⟩ hpoint
        have hstop : ∀ d ∈ left.head?, isNameChar d = false := fun d hd =>
          Bool.eq_false_iff.2 fun hname => Bool.eq_false_iff.1 (stop d hd) (wordChar_of_nameChar hname)
        have hhead : ∀ bs : List Char, (after ++ bs).head? ≠ some '\x7b' := by
          intro bs hbrace
          cases after with
          | nil => exact nonempty rfl
          | cons a after =>
              have ha := chars a (by simp)
              obtain rfl : a = '\x7b' := by simpa using hbrace
              exact absurd ha (by decide)
        have hwhole := hhead []
        rw [List.append_nil] at hwhole
        rw [referenceAfterDollar?_bare (hhead left), referenceAfterDollar?_bare hwhole,
          (takeWhile_append_of_stop hall hstop).1, takeWhile_of_all hall]
  | @braced name _ nonempty chars =>
      have hclean : '$' ∉ '\x7b' :: (name ++ ['\x7d']) := by
        intro h
        have : '$' ∈ name := by simpa using h
        exact absurd (chars _ this) (by decide)
      obtain rfl := dollar_first hclean hsplit
      exact referenceAfterDollar?_closed (by simp) left
  | @quoted _ body _ quote other mark =>
      have hquote : isNameChar quote = false ∧ quote ≠ '\x7b' ∧ quote ≠ '$' := by
        rcases mark with ⟨-, rfl | rfl⟩ | hback
        · decide
        · decide
        · obtain rfl : quote = Char.ofNat 0x60 := by rw [← hback, Char.ofNat_toNat]
          decide
      have hlast : (before ++ '$' :: after).getLast? = some quote := by
        rw [← hsplit, List.getLast?_concat]
      have hmem : quote ∈ after := by
        cases after with
        | nil =>
            rw [List.getLast?_concat] at hlast
            exact absurd (Option.some.inj hlast).symm hquote.2.2
        | cons a after =>
            have hsame : (before ++ '$' :: a :: after).getLast? = (a :: after).getLast? := by
              rw [List.getLast?_append, List.getLast?_cons_cons, List.getLast?_cons]
              rfl
            exact List.mem_of_getLast? (hsame ▸ hlast)
      exact referenceAfterDollar?_append_of_mem hmem hquote.1 hquote.2.1 left
  | plain other clean unquoted => exact absurd (by rw [hsplit]; simp) clean

theorem scanFrom_reference (h : referenceAfterDollar? cs = some (name, cs.length)) :
    scanFrom 0 ('$' :: cs) = [.reference (String.ofList name) ('$' :: cs)] := by
  rw [scanFrom_name h, List.take_length, List.drop_length]
  rfl

/-- A parameter whose name the scan can read is one reference. -/
theorem scanFrom_param {name : String} {source left : List Char} (hname : isName name.toList = true)
    (h : Spells (.param name) source left) : scanFrom 0 source = [.reference name source] := by
  have hchars := isName_chars hname
  generalize htoken : Token.param name = token at h
  cases h with
  | @bare name' _ nonempty chars stop =>
      obtain rfl := Token.param.inj htoken
      rw [String.toList_ofList] at hname hchars
      refine scanFrom_reference ?_
      have hhead : name'.head? ≠ some '\x7b' := by
        intro hbrace
        exact absurd (hchars _ (List.mem_of_head? hbrace)) (by decide)
      rw [referenceAfterDollar?_bare hhead, takeWhile_of_all hchars, if_pos hname]
  | @braced name' _ nonempty chars =>
      obtain rfl := Token.param.inj htoken
      rw [String.toList_ofList] at hname hchars
      refine scanFrom_reference ?_
      have hopen : ∀ c ∈ name', (c != '\x7d') = true := by
        intro c hc
        have : c ≠ '\x7d' := by
          rintro rfl
          exact absurd (hchars _ hc) (by decide)
        simpa using this
      have htake := (@takeWhile_append_of_stop _ _ ['\x7d'] hopen (by simp)).1
      rw [referenceAfterDollar?_braced, htake, hname]
      simp
  | quoted other mark => exact absurd htoken.symm (other name)
  | plain other clean unquoted => exact absurd htoken.symm (other name)

/-! ## Filling -/

/-- What stands for a piece in the filled text. -/
def filled (replace : String → Option String) : Piece → List Char
  | .char c => [c]
  | .reference name source =>
      match replace name with
      | some s => s.toList
      | none => source

def fillChars (replace : String → Option String) (cs : List Char) : List Char :=
  (scanFrom 0 cs).flatMap (filled replace)

variable {replace : String → Option String}

theorem fill_eq (text : String) :
    (fill replace text).toList = fillChars replace text.toList := by
  rw [fill, String.toList_ofList, fillChars, scan]
  congr 1

theorem fillChars_lexeme {token : Token} {source left : List Char} (h : Spells token source left) :
    fillChars replace (source ++ left) = fillChars replace source ++ fillChars replace left := by
  rw [fillChars, scanFrom_lexeme h, List.flatMap_append]
  rfl

theorem fillChars_clean {as : List Char} (clean : '$' ∉ as) (bs : List Char) :
    fillChars replace (as ++ bs) = as ++ fillChars replace bs := by
  induction as with
  | nil => rfl
  | cons a as ih =>
      have ha : a ≠ '$' := fun h => clean (by simp [h])
      rw [List.cons_append, fillChars, scanFrom, if_neg ha, List.flatMap_cons]
      exact congrArg (a :: ·) (ih fun h => clean (List.mem_cons_of_mem _ h))

/-- A text without a reference to fill stays. -/
theorem fillChars_dead {cs : List Char}
    (h : ∀ name source, .reference name source ∈ scanFrom 0 cs → replace name = none) :
    fillChars replace cs = cs := by
  have hsame : ∀ p ∈ scanFrom 0 cs, filled replace p = p.source := by
    intro p hp
    cases p with
    | char c => rfl
    | reference name source => simp [filled, h name source hp, Piece.source]
  rw [fillChars, List.flatMap_def, List.map_congr_left hsame, ← List.flatMap_def, flatMap_source]
  rfl

end RowPipeline.Piece
