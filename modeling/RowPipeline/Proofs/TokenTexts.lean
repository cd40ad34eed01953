import RowPipeline.Proofs.Spelling
import RowPipeline.Sql.Render

/-!
# Texts of tokens

A text that is put together from words, literals and marks is split into their tokens again, as long
as a blank, a comma or a parenthesis breaks off every word, number and string in it.
-/

namespace RowPipeline

open Lexer Spelling

/-- Whether a text breaks off any lexeme before it. -/
def Breaks (left : List Char) : Prop := ∀ c ∈ left.head?, c ∈ [' ', '(', ')', ',']

/-- A text is split into tokens, in front of every text that breaks it off. -/
def Spelt (text : String) (ts : List Token) : Prop :=
  ∀ ⦃left us⦄, Breaks left → Lexes left us → Lexes (text.toList ++ left) (ts ++ us)

variable {left : List Char} {a b : String} {ts us : List Token} {t : Token}

/-! ## What breaks a lexeme off -/

theorem breaks_cons {c : Char} {rest : List Char} (h : c ∈ [' ', '(', ')', ',']) :
    Breaks (c :: rest) := by
  intro d hd
  obtain rfl : c = d := Option.some.inj hd
  exact h

theorem Breaks.append {cs : List Char} (hcs : Breaks cs) (h : Breaks left) : Breaks (cs ++ left) := by
  cases cs with
  | nil => exact h
  | cons c rest => exact breaks_cons (hcs c rfl)

theorem Breaks.stop (h : Breaks left) : ∀ d more, left = d :: more → continuesName d more = false := by
  rintro d more rfl
  obtain ⟨hword, hpoint⟩ := (forall_mem_of_all (by decide) :
    ∀ c ∈ [' ', '(', ')', ','], isWordChar c = false ∧ c ≠ '.') d (h d rfl)
  exact continuesName_eq_false hword hpoint

theorem Breaks.endsNumber (h : Breaks left) : EndsNumber left := by
  refine ⟨fun d hd => ?_, fun d more hleft => ?_⟩
  · exact (forall_mem_of_all (by decide) :
      ∀ c ∈ [' ', '(', ')', ','], Text.isAsciiDigit c = false) d (h d hd)
  · subst hleft
    exact absurd (h '.' rfl) (by decide)

theorem Breaks.unquoted (h : Breaks left) : left.head? ≠ some '\'' := fun hquote =>
  absurd (h '\'' hquote) (by decide)

/-! ## Putting texts together -/

/-- A text that is split into tokens and breaks off what stands before it. -/
structure Attaches (text : String) (ts : List Token) : Prop where
  spelt : Spelt text ts
  breaks : Breaks text.toList

namespace Spelt

theorem of_text (h : Spelt a ts) (htext : b.toList = a.toList) : Spelt b ts := by
  intro left us hleft next
  rw [htext]
  exact h hleft next

theorem lexes (h : Spelt a ts) : Lexes a.toList ts := by
  have hend := @h [] [] (by simp [Breaks]) (.nil rfl)
  rwa [List.append_nil, List.append_nil] at hend

theorem nil : Spelt "" [] := fun _ _ _ next => next

theorem append (ha : Spelt a ts) (hb : Attaches b us) : Spelt (a ++ b) (ts ++ us) := by
  intro left vs hleft next
  have hrest := hb.spelt hleft next
  rw [String.toList_append, List.append_assoc, List.append_assoc]
  exact ha (hb.breaks.append hleft) hrest

theorem blank (h : Spelt b us) : Attaches (" " ++ b) us where
  spelt := by
    intro left vs hleft next
    rw [String.toList_append, List.append_assoc]
    exact Lexes.of_blanks (forall_mem_of_all (by decide)) (h hleft next)
  breaks := by
    rw [String.toList_append]
    exact breaks_cons (by decide)

/-- Two texts with a blank between. -/
theorem spaced (ha : Spelt a ts) (hb : Spelt b us) : Spelt (a ++ (" " ++ b)) (ts ++ us) :=
  ha.append hb.blank

/-- Nothing has to break off a mark that starts no longer one. -/
theorem mark {c : Char} {sign : String} (h : Spelt a ts) (hsign : sign.toList = [c])
    (hc : c ∈ markChars) (ht : ∀ rest, takeMark? (c :: rest) = some (t, rest)) :
    Spelt (sign ++ a) (t :: ts) := by
  have hblank : Text.isBlank c = false :=
    (forall_mem_of_all (by decide) : ∀ c ∈ markChars, Text.isBlank c = false) c hc
  intro left vs hleft next
  rw [String.toList_append, hsign, List.append_assoc]
  -- the mark is read whatever stands behind it, so the text may follow at once
  exact .cons (by simp [hblank]) (fun _ => takeToken_mark hc (ht _)) (h hleft next)

/-- A mark that breaks off what stands before it. -/
theorem attached {c : Char} {sign : String} (h : Spelt a ts) (hsign : sign.toList = [c])
    (hc : c ∈ ['(', ')', ',']) (ht : ∀ rest, takeMark? (c :: rest) = some (t, rest)) :
    Attaches (sign ++ a) (t :: ts) where
  spelt := by
    have hmark : ∀ c ∈ ['(', ')', ','], c ∈ markChars := forall_mem_of_all (by decide)
    exact h.mark hsign (hmark c hc) ht
  breaks := by
    rw [String.toList_append, hsign]
    exact breaks_cons (List.mem_cons_of_mem _ hc)

theorem opened (h : Spelt a ts) : Attaches ("(" ++ a) (.lparen :: ts) :=
  h.attached rfl (by decide) fun _ => rfl

theorem closed (h : Spelt a ts) : Spelt (a ++ ")") (ts ++ [.rparen]) := by
  have hclose : Attaches (")" ++ "") [.rparen] := nil.attached rfl (by decide) fun _ => rfl
  exact h.append hclose

theorem parens (h : Spelt a ts) : Attaches ("(" ++ (a ++ ")")) (.lparen :: (ts ++ [.rparen])) :=
  h.closed.opened

/-- Texts with blanks between. -/
theorem blanks {texts : List String} {tss : List (List Token)} (h : List.Forall₂ Spelt texts tss) :
    Spelt (" ".intercalate texts) tss.flatten := by
  induction h with
  | nil => exact nil
  | cons hfirst hrest ih =>
      cases hrest with
      | nil => simpa using hfirst
      | cons hnext hmore =>
          rw [String.intercalate_cons_cons, String.append_assoc, List.flatten_cons]
          exact hfirst.spaced ih

/-- Texts with a comma and a blank between. -/
theorem commas {texts : List String} {tss : List (List Token)} (h : List.Forall₂ Spelt texts tss) :
    Spelt (", ".intercalate texts) (separated tss) := by
  induction h with
  | nil => exact nil
  | @cons text ts texts tss hfirst hrest ih =>
      cases hrest with
      | nil =>
          rw [separated, String.intercalate_singleton, List.intercalate_singleton]
          exact hfirst
      | @cons next us texts tss =>
          have hcomma : Attaches ("," ++ (" " ++ ", ".intercalate (next :: texts)))
              (.comma :: separated (us :: tss)) := ih.blank.spelt.attached rfl (by decide) fun _ => rfl
          rw [separated_cons]
          exact (hfirst.append hcomma).of_text (by simp [String.intercalate_cons_cons])

end Spelt

theorem Attaches.of_text (h : Attaches a ts) (htext : b.toList = a.toList) : Attaches b ts where
  spelt := h.spelt.of_text htext
  breaks := by
    rw [htext]
    exact h.breaks

theorem Attaches.append (ha : Attaches a ts) (hb : Attaches b us) : Attaches (a ++ b) (ts ++ us) where
  spelt := ha.spelt.append hb
  breaks := by
    rw [String.toList_append]
    exact ha.breaks.append hb.breaks

theorem Attaches.nil : Attaches "" [] := ⟨.nil, by simp [Breaks]⟩

/-- What stands behind a word, or nothing. -/
def behind (lead : String) : Option String → String
  | some text => lead ++ text
  | none => ""

/-! ## Marks -/

theorem spelt_sign {sign : String} {c : Char} {rest : List Char} (hsign : sign.toList = c :: rest)
    (hc : c ∈ markChars)
    (ht : ∀ left, Breaks left → takeMark? (c :: (rest ++ left)) = some (t, left)) :
    Spelt sign [t] := by
  have hblank : Text.isBlank c = false :=
    (forall_mem_of_all (by decide) : ∀ c ∈ markChars, Text.isBlank c = false) c hc
  intro left us hleft next
  rw [hsign]
  exact .cons (by simp [hblank]) (fun _ => takeToken_mark hc (ht left hleft)) next

/-- No mark goes on over what breaks it off. -/
theorem Breaks.no_mark (h : Breaks left) {d : Char} (hd : d ∉ [' ', '(', ')', ',']) :
    ∀ rest, left = d :: rest → False := by
  rintro rest rfl
  exact hd (h d rfl)

theorem spelt_eq : Spelt "=" [.eq] :=
  spelt_sign rfl (by decide) fun _ hleft => takeMark?_eq (hleft.no_mark (by decide))

theorem spelt_lt : Spelt "<" [.lt] :=
  spelt_sign rfl (by decide) fun _ hleft =>
    takeMark?_lt (hleft.no_mark (by decide)) (hleft.no_mark (by decide))

theorem spelt_gt : Spelt ">" [.gt] :=
  spelt_sign rfl (by decide) fun _ hleft => takeMark?_gt (hleft.no_mark (by decide))

/-! ## Words -/

theorem spelt_name {name : String} (hname : takeName name.toList = (name.toList, []))
    (hhead : name.toList.head?.all (fun c => (Text.isAlphabetic c || c == '_') && !Text.isBlank c)
      = true) (nonempty : name.toList ≠ []) : Spelt name [.ident name] := by
  intro left vs hleft next
  have hword := lexes_word hname hhead nonempty hleft.stop next
  rwa [String.ofList_toList] at hword

/-- Characters of a word before a text belong to the name that the text starts with. -/
theorem takeName_words {word rest name : List Char} (hword : ∀ c ∈ word, isWordChar c = true)
    (h : takeName rest = (name, left)) : takeName (word ++ rest) = (word ++ name, left) := by
  induction word with
  | nil => exact h
  | cons c word ih =>
      have hc : continuesName c (word ++ rest) = true :=
        continuesName_of_wordChar (hword c List.mem_cons_self)
      rw [List.cons_append, takeName, if_pos hc, ih fun d hd => hword d (List.mem_cons_of_mem _ hd)]
      rfl

theorem isName_of_part {cs : List Char} (h : Sql.isIdentifierPart cs = true) :
    Piece.isName cs = true := by
  cases cs with
  | nil => cases h
  | cons c rest =>
      obtain ⟨hc, hrest⟩ := Bool.and_eq_true_iff.1 h
      refine Bool.and_eq_true_iff.2 ⟨hc, List.all_eq_true.2 fun d hd => ?_⟩
      have hd := List.all_eq_true.1 hrest d hd
      rwa [Bool.or_right_comm] at hd

theorem takeName_part {cs : List Char} (h : Sql.isIdentifierPart cs = true) :
    takeName cs = (cs, []) := by
  have hword : ∀ c ∈ cs, isWordChar c = true := fun c hc =>
    Piece.wordChar_of_nameChar (Piece.isName_chars (isName_of_part h) c hc)
  have hend : takeName (cs ++ []) = (cs ++ [], []) := takeName_words hword rfl
  rwa [List.append_nil] at hend

theorem isBlank_of_letter {c : Char} (h : Text.isAsciiLetter c = true) : Text.isBlank c = false := by
  have hascii := Piece.isAscii_of_letter h
  have hlow : 65 ≤ c.toNat := by
    have hrange : ('a' ≤ c ∧ c ≤ 'z') ∨ ('A' ≤ c ∧ c ≤ 'Z') := by
      simpa [Text.isAsciiLetter] using h
    rcases hrange with ⟨ha, -⟩ | ⟨ha, -⟩
    · exact Nat.le_trans (by decide) ha
    · exact ha
  simp [Text.isBlank]
  omega

theorem head_part {cs : List Char} (h : Sql.isIdentifierPart cs = true) :
    ∃ c rest, cs = c :: rest ∧ (Text.isAlphabetic c || c == '_') = true ∧
      Text.isBlank c = false := by
  cases cs with
  | nil => cases h
  | cons c rest =>
      refine ⟨c, rest, rfl, ?_⟩
      rcases Bool.or_eq_true_iff.1 (Bool.and_eq_true_iff.1 h).1 with hletter | hline
      · rw [Piece.isAlphabetic_of_letter hletter]
        exact ⟨rfl, isBlank_of_letter hletter⟩
      · obtain rfl : c = '_' := by simpa using hline
        exact ⟨by decide, by decide⟩

/-- A valid name is a plain one, or two of them with a point between. -/
theorem part_or_pair {name : String} (h : Sql.isValidIdentifier name = true) :
    Sql.isIdentifierPart name.toList = true ∨ ∃ table column, name.toList = table ++ '.' :: column ∧
      Sql.isIdentifierPart table = true ∧ Sql.isIdentifierPart column = true := by
  rw [Sql.isValidIdentifier] at h
  split at h
  · exact .inl h
  · rename_i point column hafter
    obtain ⟨htable, hcolumn⟩ := Bool.and_eq_true_iff.1 h
    obtain rfl : point = '.' := by
      have hpoint := head_dropWhile point (by rw [hafter]; rfl)
      simpa using hpoint
    refine .inr ⟨_, column, ?_, htable, hcolumn⟩
    rw [← hafter, List.takeWhile_append_dropWhile]

/-- A plain name, or two with a point between, is one word. -/
theorem spelt_identifier {name : String} (h : Sql.isValidIdentifier name = true) :
    Spelt name [.ident name] := by
  rcases part_or_pair h with hpart | ⟨table, column, hname, htable, hcolumn⟩
  · obtain ⟨c, rest, hname, hc, hblank⟩ := head_part hpart
    exact spelt_name (takeName_part hpart) (by simp [hname, hc, hblank]) (by simp [hname])
  · obtain ⟨c, rest, htable', hc, hblank⟩ := head_part htable
    -- the point goes on with the name, since another one stands behind it
    have hread : takeName ('.' :: column) = ('.' :: column, []) := by
      obtain ⟨d, more, hcolumn', hd, -⟩ := head_part hcolumn
      have hpoint : continuesName '.' column = true := by simp [continuesName, hcolumn', hd]
      rw [takeName, if_pos hpoint, takeName_part hcolumn]
    have hwords : ∀ c ∈ table, isWordChar c = true := fun c hc =>
      Piece.wordChar_of_nameChar (Piece.isName_chars (isName_of_part htable) c hc)
    refine spelt_name ?_ ?_ (by simp [hname])
    · rw [hname]
      exact takeName_words hwords hread
    · simp [hname, htable', hc, hblank]

theorem spelt_word (word : String) (h : Sql.isValidIdentifier word = true) : Spelt word [.ident word] :=
  spelt_identifier h

/-- A word, a blank, and a text. -/
theorem Spelt.after (h : Spelt b ts) (word : String) (hword : Sql.isValidIdentifier word = true) :
    Spelt (word ++ (" " ++ b)) (.ident word :: ts) := (spelt_word word hword).spaced h

theorem spelt_negated (negated : Bool) (h : Spelt b ts) :
    Spelt (Sql.negation negated ++ b) (Spelling.negation negated ++ ts) := by
  cases negated with
  | false => exact h.of_text (by simp [Sql.negation])
  | true => exact (h.after "NOT" (by decide)).of_text (by simp [Sql.negation])

/-! ## Literals -/

theorem spelt_int {i : Int64} (hi : i ≠ Int64.minValue) :
    Spelt (toString i.toInt) (Value.int i).literalTokens := fun _ _ hleft next =>
  lexes_int hi hleft.endsNumber next

/-- A text without a backslash has its quotes doubled, and nothing else. -/
theorem spelt_quoteString {x : String} (h : '\\' ∉ x.toList) :
    Spelt (Sql.quoteString x) [.string x] := by
  have hquotes : x.toList.flatMap (fun c => if c = '\'' then ['\'', '\''] else [c])
      = escaped x.toList := by
    refine List.flatMap_congr fun c hc => ?_
    have hslash : c ≠ '\\' := by
      rintro rfl
      exact h hc
    simp [hslash]
  intro left us hleft next
  have hstring := lexes_string (s := x.toList) hleft.unquoted next
  rw [String.ofList_toList] at hstring
  simpa [Sql.quoteString, hquotes] using hstring

/-- A value whose SQL literal is read as this value. -/
def Value.Plain : Value → Prop
  | .null | .bool _ => True
  | .int i => i ≠ Int64.minValue
  | .string x => '\\' ∉ x.toList
  | .float _ | .array _ | .object _ => False

theorem spelt_literal {v : Value} (h : v.Plain) : Spelt (Sql.literal .generic v) v.literalTokens := by
  cases v with
  | null => exact spelt_identifier (by decide)
  | bool b => cases b <;> exact spelt_identifier (by decide)
  | int i => exact spelt_int h
  | string x => exact spelt_quoteString h
  | float x | array items | object fields => exact h.elim

theorem spelt_operator (op : BinaryOp) : Spelt (Sql.operatorSymbol op) [op.token] := by
  cases op with
  | or | and => exact spelt_identifier (by decide)
  | eq => exact spelt_eq
  | lt => exact spelt_lt
  | gt => exact spelt_gt
  | notEq | ltEq | gtEq => exact spelt_sign rfl (by decide) fun _ _ => rfl
  | add | sub | mul | div | mod => exact spelt_sign rfl (by decide) fun _ _ => rfl

end RowPipeline
