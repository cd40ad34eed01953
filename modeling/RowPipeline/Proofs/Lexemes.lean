import RowPipeline.Expr.Lexer
import RowPipeline.Parameter.Placeholder
import RowPipeline.Proofs.Outcomes

/-!
# Lexemes

A token is read off its own characters and at most one after them. Another text may follow it as
long as its first character does not run into the last one of the token.
-/

namespace RowPipeline.Lexer

open Text

/-- Whether a character can stand inside a name or a number. -/
def isWordChar (c : Char) : Bool := isAlphanumeric c || c == '_'

/-- Whether `d` can start another lexeme right after one that ends in `last`. -/
def Apart (last d : Char) : Prop :=
  (isWordChar d = true → isWordChar last = false) ∧ (d = '\'' → last ≠ '\'') ∧
    d ∉ ['.', '=', '>', '&', '|', '"']

/-- What may follow a lexeme that ends in `last` in place of `left`: nothing, something with the same
first character, or something apart from the lexeme. -/
def Follows (last : Char) (left left' : List Char) : Prop :=
  ∀ d ∈ left'.head?, (left.head? = some d ∧ d ≠ '.') ∨ Apart last d

/-! ## Characters -/

def digitChars : List Char := ['0', '1', '2', '3', '4', '5', '6', '7', '8', '9']

theorem mem_digitChars {c : Char} (h : isAsciiDigit c = true) : c ∈ digitChars := by
  have hrange : '0' ≤ c ∧ c ≤ '9' := by simpa [isAsciiDigit] using h
  have hlow : 48 ≤ c.toNat := hrange.1
  have hhigh : c.toNat ≤ 57 := hrange.2
  have hall : ∀ n : Fin 10, Char.ofNat (n.val + 48) ∈ digitChars := by decide
  have := hall ⟨c.toNat - 48, by omega⟩
  simpa only [Nat.sub_add_cancel hlow, Char.ofNat_toNat] using this

/-- A property of a few characters is checked on each of them. -/
theorem forall_mem_of_all {P : Char → Prop} [DecidablePred P] {cs : List Char}
    (h : cs.all (fun c => decide (P c)) = true) : ∀ c ∈ cs, P c := by
  simpa using h

theorem digit_forall {P : Char → Prop} [DecidablePred P]
    (h : digitChars.all (fun c => decide (P c)) = true) {c : Char} (hc : isAsciiDigit c = true) :
    P c :=
  forall_mem_of_all h c (mem_digitChars hc)

theorem wordChar_of_digit {c : Char} (h : isAsciiDigit c = true) : isWordChar c = true :=
  @digit_forall (fun c => isWordChar c = true) _ (by decide) c h

theorem wordChar_of_continuesName {c : Char} {rest : List Char} (h : continuesName c rest = true)
    (hpoint : c ≠ '.') : isWordChar c = true := by
  simpa [continuesName, isWordChar, hpoint] using h

theorem continuesName_of_wordChar {c : Char} {rest : List Char} (h : isWordChar c = true) :
    continuesName c rest = true := by
  unfold isWordChar at h
  unfold continuesName
  rw [h, Bool.true_or]

theorem continuesName_eq_false {c : Char} {rest : List Char} (h : isWordChar c = false)
    (hpoint : c ≠ '.') : continuesName c rest = false := by
  unfold isWordChar at h
  unfold continuesName
  rw [h]
  simp [hpoint]

/-! ## Names -/

/-- A point goes on with a name only before a character of it. -/
theorem takeName_after_point {rest left : List Char} (h : continuesName '.' rest = true) :
    takeName rest ≠ ([], left) := by
  cases rest with
  | nil => exact absurd h (by decide)
  | cons d more =>
      have hd : isWordChar d = true := by
        have hword : isWordChar '.' = false := by decide
        unfold isWordChar at hword
        unfold continuesName at h
        rw [hword] at h
        have h' : isAlphabetic d = true ∨ d = '_' := by simpa using h
        unfold isWordChar isAlphanumeric
        rcases h' with h' | h' <;> simp [h']
      rw [takeName, if_pos (continuesName_of_wordChar hd)]
      simp

/-- A name is read again when nothing that goes on with it follows. -/
theorem takeName_append {cs name left left' : List Char} (h : takeName cs = (name, left))
    (stop : ∀ d rest, left' = d :: rest → continuesName d rest = false) :
    cs = name ++ left ∧ takeName (name ++ left') = (name, left') := by
  induction cs generalizing name with
  | nil =>
      obtain ⟨rfl, rfl⟩ : [] = name ∧ [] = left := by simpa [takeName] using h
      refine ⟨rfl, ?_⟩
      cases left' with
      | nil => rfl
      | cons d rest => simp [takeName, stop d rest rfl]
  | cons c rest ih =>
      rw [takeName] at h
      split at h
      · rename_i hcontinues
        cases hrest : takeName rest with
        | mk taken left₂ =>
            rw [hrest] at h
            obtain ⟨rfl, rfl⟩ : c :: taken = name ∧ left₂ = left := by simpa using h
            obtain ⟨rfl, happend⟩ := ih hrest
            refine ⟨rfl, ?_⟩
            -- a point is taken only before a name, which is then taken with it
            have hagain : continuesName c (taken ++ left') = true := by
              cases taken with
              | nil =>
                  by_cases hpoint : c = '.'
                  · exact absurd hrest (takeName_after_point (hpoint ▸ hcontinues))
                  · exact continuesName_of_wordChar (wordChar_of_continuesName hcontinues hpoint)
              | cons d more => simpa [continuesName] using hcontinues
            rw [List.cons_append, takeName, if_pos hagain, happend]
      · obtain ⟨rfl, rfl⟩ : [] = name ∧ c :: rest = left := by simpa using h
        refine ⟨rfl, ?_⟩
        cases left' with
        | nil => rfl
        | cons d rest => simp [takeName, stop d rest rfl]

/-- A name ends where nothing goes on with it. -/
theorem takeName_stop {cs name left : List Char} (h : takeName cs = (name, left)) :
    ∀ d more, left = d :: more → continuesName d more = false := by
  induction cs generalizing name with
  | nil =>
      obtain ⟨rfl, rfl⟩ : [] = name ∧ [] = left := by simpa [takeName] using h
      intro d more hleft
      cases hleft
  | cons c rest ih =>
      rw [takeName] at h
      split at h
      · cases hrest : takeName rest with
        | mk taken left₂ =>
            rw [hrest] at h
            obtain ⟨rfl, rfl⟩ : c :: taken = name ∧ left₂ = left := by simpa using h
            exact ih hrest
      · rename_i hstop
        obtain ⟨rfl, rfl⟩ : [] = name ∧ c :: rest = left := by simpa using h
        rintro d more ⟨⟩
        simpa using hstop

/-- Every character of a name is one of a word or a point. -/
theorem takeName_chars {cs name left : List Char} (h : takeName cs = (name, left)) :
    ∀ c ∈ name, isWordChar c = true ∨ c = '.' := by
  induction cs generalizing name with
  | nil =>
      obtain ⟨rfl, rfl⟩ : [] = name ∧ [] = left := by simpa [takeName] using h
      simp
  | cons c rest ih =>
      rw [takeName] at h
      split at h
      · rename_i hcontinues
        cases hrest : takeName rest with
        | mk taken left₂ =>
            rw [hrest] at h
            obtain ⟨rfl, rfl⟩ : c :: taken = name ∧ left₂ = left := by simpa using h
            intro d hd
            rcases List.mem_cons.1 hd with rfl | hd
            · by_cases hpoint : d = '.'
              · exact .inr hpoint
              · exact .inl (wordChar_of_continuesName hcontinues hpoint)
            · exact ih hrest d hd
      · obtain ⟨rfl, rfl⟩ : [] = name ∧ c :: rest = left := by simpa using h
        simp

/-- A name ends in a character of a word. -/
theorem takeName_last {cs name left : List Char} (h : takeName cs = (name, left))
    (nonempty : name ≠ []) : ∃ body last, name = body ++ [last] ∧ isWordChar last = true := by
  induction cs generalizing name with
  | nil =>
      obtain ⟨rfl, rfl⟩ : [] = name ∧ [] = left := by simpa [takeName] using h
      exact absurd rfl nonempty
  | cons c rest ih =>
      rw [takeName] at h
      split at h
      · rename_i hcontinues
        cases hrest : takeName rest with
        | mk taken left₂ =>
            rw [hrest] at h
            obtain ⟨rfl, rfl⟩ : c :: taken = name ∧ left₂ = left := by simpa using h
            by_cases htaken : taken = []
            · subst htaken
              have hpoint : c ≠ '.' := fun hpoint =>
                takeName_after_point (hpoint ▸ hcontinues) hrest
              exact ⟨[], c, rfl, wordChar_of_continuesName hcontinues hpoint⟩
            · obtain ⟨body, last, rfl, hlast⟩ := ih hrest htaken
              exact ⟨c :: body, last, rfl, hlast⟩
      · obtain ⟨rfl, rfl⟩ : [] = name ∧ c :: rest = left := by simpa using h
        exact absurd rfl nonempty

/-! ## Strings -/

theorem takeString_doubled (quote : Char) (cs : List Char) :
    takeString quote (quote :: quote :: cs)
      = (takeString quote cs).map fun p => (quote :: p.1, p.2) := by
  simp [takeString]

theorem takeString_end {quote : Char} {left : List Char} (h : left.head? ≠ some quote) :
    takeString quote (quote :: left) = .ok ([], left) := by
  cases left with
  | nil => simp [takeString]
  | cons d rest =>
      have hd : d ≠ quote := fun hd => h (by simp [hd])
      simp [takeString, hd]

theorem takeString_escape {quote d e : Char} {cs : List Char} (hquote : quote ≠ '\\')
    (h : escape? d = some e) :
    takeString quote ('\\' :: d :: cs) = (takeString quote cs).map fun p => (e :: p.1, p.2) := by
  simp [takeString, h, Ne.symm hquote]

theorem takeString_plain {quote c d : Char} {cs : List Char} (hquote : c ≠ quote) (hc : c ≠ '\\') :
    takeString quote (c :: d :: cs)
      = (takeString quote (d :: cs)).map fun p => (c :: p.1, p.2) := by
  simp [takeString, hquote, hc]

/-- A string literal is read again when no quote follows its last one. -/
theorem takeString_append {quote : Char} {cs : List Char} (hquote : quote ≠ '\\') :
    ∀ {s left}, takeString quote cs = .ok (s, left) → left.head? ≠ some quote ∧
      ∃ body, cs = body ++ quote :: left ∧ ∀ left' : List Char, left'.head? ≠ some quote →
        takeString quote (body ++ quote :: left') = .ok (s, left') := by
  induction cs using takeString.induct quote with
  | case1 => intro s left h; cases h
  | case2 c hc =>
      intro s left h
      obtain rfl : c = quote := by simpa using hc
      obtain ⟨rfl, rfl⟩ : [] = s ∧ [] = left := by simpa [takeString] using h
      exact ⟨by simp, [], rfl, fun left' => takeString_end⟩
  | case3 c hc =>
      intro s left h
      rw [takeString, if_neg hc] at h
      cases h
  | case4 c d rest hc hd ih =>
      intro s left h
      obtain rfl : c = quote := by simpa using hc
      obtain rfl : d = c := by simpa using hd
      rw [takeString_doubled] at h
      obtain ⟨⟨s', left₂⟩, hrest, hs⟩ := map_eq_ok h
      obtain ⟨rfl, rfl⟩ : d :: s' = s ∧ left₂ = left := by simpa using hs
      obtain ⟨hleft₂, body, rfl, hagain⟩ := ih hrest
      refine ⟨hleft₂, d :: d :: body, rfl, fun left' hleft => ?_⟩
      rw [List.cons_append, List.cons_append, takeString_doubled, hagain left' hleft]
      rfl
  | case5 c d rest hc hd =>
      intro s left h
      obtain rfl : c = quote := by simpa using hc
      rw [takeString, if_pos hc, if_neg hd] at h
      obtain ⟨rfl, rfl⟩ : [] = s ∧ d :: rest = left := by simpa using h
      exact ⟨by simpa using hd, [], rfl, fun left' => takeString_end⟩
  | case6 c d rest hc hslash e he ih =>
      intro s left h
      obtain rfl : c = '\\' := by simpa using hslash
      rw [takeString_escape hquote he] at h
      obtain ⟨⟨s', left₂⟩, hrest, hs⟩ := map_eq_ok h
      obtain ⟨rfl, rfl⟩ : e :: s' = s ∧ left₂ = left := by simpa using hs
      obtain ⟨hleft₂, body, rfl, hagain⟩ := ih hrest
      refine ⟨hleft₂, '\\' :: d :: body, rfl, fun left' hleft => ?_⟩
      rw [List.cons_append, List.cons_append, takeString_escape hquote he, hagain left' hleft]
      rfl
  | case7 c d rest hc hslash he =>
      intro s left h
      obtain rfl : c = '\\' := by simpa using hslash
      simp [takeString, he, Ne.symm hquote] at h
  | case8 c d rest hc hslash ih =>
      intro s left h
      have hc' : c ≠ quote := by simpa using hc
      have hslash' : c ≠ '\\' := by simpa using hslash
      rw [takeString_plain hc' hslash'] at h
      obtain ⟨⟨s', left₂⟩, hrest, hs⟩ := map_eq_ok h
      obtain ⟨rfl, rfl⟩ : c :: s' = s ∧ left₂ = left := by simpa using hs
      obtain ⟨hleft₂, body, hbody, hagain⟩ := ih hrest
      refine ⟨hleft₂, c :: body, by rw [hbody]; rfl, fun left' hleft => ?_⟩
      have hnext := hagain left' hleft
      -- the next character is there, be it the closing quote
      obtain ⟨d', rest', hd'⟩ : ∃ d' rest', body ++ quote :: left' = d' :: rest' := by
        cases body with
        | nil => exact ⟨_, _, rfl⟩
        | cons d' body => exact ⟨_, _, rfl⟩
      rw [List.cons_append, hd', takeString_plain hc' hslash', ← hd', hnext]
      rfl

theorem takeQuotedIdent_append {cs name left : List Char} (h : takeQuotedIdent cs = some (name, left)) :
    ∃ body quote, cs = body ++ quote :: left ∧ quote.toNat = 0x60 ∧ ∀ left',
      takeQuotedIdent (body ++ quote :: left') = some (name, left') := by
  induction cs generalizing name with
  | nil => cases h
  | cons c rest ih =>
      rw [takeQuotedIdent] at h
      split at h
      · rename_i hc
        obtain ⟨rfl, rfl⟩ : [] = name ∧ rest = left := by simpa using h
        exact ⟨[], c, rfl, hc, fun left' => by simp [takeQuotedIdent, hc]⟩
      · rename_i hc
        obtain ⟨⟨name', left₂⟩, hrest, hs⟩ := Option.map_eq_some_iff.1 h
        obtain ⟨rfl, rfl⟩ : c :: name' = name ∧ left₂ = left := by simpa using hs
        obtain ⟨body, quote, rfl, hquote, hagain⟩ := ih hrest
        refine ⟨c :: body, quote, rfl, hquote, fun left' => ?_⟩
        rw [List.cons_append, takeQuotedIdent, if_neg hc, hagain left']
        rfl

/-! ## Numbers -/

theorem takeWhile_append_of_stop {p : Char → Bool} {cs ds : List Char} (h : ∀ c ∈ cs, p c = true)
    (stop : ∀ d ∈ ds.head?, p d = false) :
    (cs ++ ds).takeWhile p = cs ∧ (cs ++ ds).dropWhile p = ds := by
  induction cs with
  | nil =>
      cases ds with
      | nil => simp
      | cons d rest => simp [stop d rfl]
  | cons c rest ih =>
      have hc := h c (by simp)
      have := ih fun d hd => h d (by simp [hd])
      simp [hc, this]

/-- What follows a number: neither a digit nor a point before one. -/
def EndsNumber (left : List Char) : Prop :=
  (∀ d ∈ left.head?, isAsciiDigit d = false) ∧
    ∀ d more, left = '.' :: d :: more → isAsciiDigit d = false

/-- The token of digits without a fraction. -/
def integerToken (whole : List Char) : Token :=
  if Decimal.digitsValue whole < 0x8000000000000000 then
    .integer (Int64.ofNat (Decimal.digitsValue whole))
  else .float (Decimal.nearest (Decimal.digitsValue whole) 0)

theorem takeNumber_integer {whole left : List Char} (h : ∀ c ∈ whole, isAsciiDigit c = true)
    (ends : EndsNumber left) : takeNumber (whole ++ left) = (integerToken whole, left) := by
  obtain ⟨htake, hdrop⟩ := takeWhile_append_of_stop h ends.1
  unfold takeNumber
  simp only [htake, hdrop]
  rw [← integerToken]
  split
  · rename_i d more
    rw [if_neg (by simp [ends.2 d more rfl])]
  · rfl

theorem takeNumber_fraction {whole fraction left : List Char}
    (hwhole : ∀ c ∈ whole, isAsciiDigit c = true) (hfraction : ∀ c ∈ fraction, isAsciiDigit c = true)
    (nonempty : fraction ≠ []) (stop : ∀ d ∈ left.head?, isAsciiDigit d = false) :
    takeNumber (whole ++ '.' :: (fraction ++ left))
      = (.float (Decimal.Parts.value ⟨whole, fraction, 0⟩), left) := by
  have hpoint : ∀ d ∈ ('.' :: (fraction ++ left)).head?, isAsciiDigit d = false := by
    intro d hd
    obtain rfl : '.' = d := by simpa using hd
    rfl
  obtain ⟨htake, hdrop⟩ := takeWhile_append_of_stop hwhole hpoint
  obtain ⟨htake', hdrop'⟩ := takeWhile_append_of_stop hfraction stop
  cases fraction with
  | nil => exact absurd rfl nonempty
  | cons f more =>
      have hf : isAsciiDigit f = true := hfraction f (by simp)
      rw [List.cons_append] at htake hdrop htake' hdrop' ⊢
      unfold takeNumber
      simp only [htake, hdrop, if_pos hf, htake', hdrop']

theorem head_dropWhile {p : Char → Bool} {cs : List Char} :
    ∀ d ∈ (cs.dropWhile p).head?, p d = false := by
  intro d hd
  have := List.head?_dropWhile_not p cs
  rwa [Option.mem_def.1 hd] at this

theorem takeWhile_all {p : Char → Bool} (cs : List Char) : ∀ c ∈ cs.takeWhile p, p c = true :=
  List.all_eq_true.1 List.all_takeWhile

theorem last_of_digits {cs : List Char} (h : ∀ c ∈ cs, isAsciiDigit c = true) (nonempty : cs ≠ []) :
    ∃ body last, cs = body ++ [last] ∧ isAsciiDigit last = true := by
  obtain ⟨body, last, hlast⟩ := (List.eq_nil_or_concat cs).resolve_left nonempty
  rw [List.concat_eq_append] at hlast
  exact ⟨body, last, hlast, h last (by simp [hlast])⟩

/-- A number is read again when it ends where it did. -/
theorem takeNumber_append {c : Char} {rest left : List Char} {token : Token}
    (hc : isAsciiDigit c = true) (h : takeNumber (c :: rest) = (token, left)) :
    ∃ body last, c :: rest = body ++ [last] ++ left ∧ isAsciiDigit last = true ∧
      (∀ d ∈ body, isAsciiDigit d = true ∨ d = '.') ∧ (∀ name, token ≠ .param name) ∧
      (∀ d ∈ left.head?, isAsciiDigit d = false) ∧
      ∀ left', EndsNumber left' → takeNumber (body ++ [last] ++ left') = (token, left') := by
  obtain ⟨whole, hwhole⟩ : ∃ whole, whole = (c :: rest).takeWhile isAsciiDigit := ⟨_, rfl⟩
  obtain ⟨after, hafter⟩ : ∃ after, after = (c :: rest).dropWhile isAsciiDigit := ⟨_, rfl⟩
  have hsplit : c :: rest = whole ++ after := by rw [hwhole, hafter, List.takeWhile_append_dropWhile]
  have hdigits : ∀ d ∈ whole, isAsciiDigit d = true := hwhole ▸ takeWhile_all _
  have hnonempty : whole ≠ [] := by simp [hwhole, hc]
  have hstop : ∀ d ∈ after.head?, isAsciiDigit d = false := hafter ▸ head_dropWhile
  by_cases hfraction : ∃ d more, after = '.' :: d :: more ∧ isAsciiDigit d = true
  · obtain ⟨d, more, hpoint, hd⟩ := hfraction
    obtain ⟨fraction, hf⟩ : ∃ f, f = (d :: more).takeWhile isAsciiDigit := ⟨_, rfl⟩
    obtain ⟨left₂, hleft₂⟩ : ∃ l, l = (d :: more).dropWhile isAsciiDigit := ⟨_, rfl⟩
    have hmore : d :: more = fraction ++ left₂ := by
      rw [hf, hleft₂, List.takeWhile_append_dropWhile]
    have hfdigits : ∀ e ∈ fraction, isAsciiDigit e = true := hf ▸ takeWhile_all _
    have hfnonempty : fraction ≠ [] := by simp [hf, hd]
    have hstop₂ : ∀ e ∈ left₂.head?, isAsciiDigit e = false := hleft₂ ▸ head_dropWhile
    rw [hsplit, hpoint, hmore, takeNumber_fraction hdigits hfdigits hfnonempty hstop₂] at h
    obtain ⟨rfl, rfl⟩ := Prod.mk.inj h
    obtain ⟨body, last, hbody, hlast⟩ := last_of_digits hfdigits hfnonempty
    have hjoin : ∀ l, whole ++ '.' :: (fraction ++ l) = (whole ++ '.' :: body) ++ [last] ++ l := by
      intro l
      simp [hbody]
    have hchars : ∀ d ∈ whole ++ '.' :: body, isAsciiDigit d = true ∨ d = '.' := by
      intro d hd
      rcases List.mem_append.1 hd with hd | hd
      · exact .inl (hdigits d hd)
      · rcases List.mem_cons.1 hd with rfl | hd
        · exact .inr rfl
        · exact .inl (hfdigits d (by simp [hbody, hd]))
    refine ⟨whole ++ '.' :: body, last, ?_, hlast, hchars, by simp, hstop₂, fun left' hleft => ?_⟩
    · rw [hsplit, hpoint, hmore, hjoin]
    · rw [← hjoin, takeNumber_fraction hdigits hfdigits hfnonempty hleft.1]
  · have hends : EndsNumber after := by
      refine ⟨hstop, fun d more hpoint => ?_⟩
      exact Bool.eq_false_iff.2 fun hd => hfraction ⟨d, more, hpoint, hd⟩
    rw [hsplit, takeNumber_integer hdigits hends] at h
    obtain ⟨rfl, rfl⟩ := Prod.mk.inj h
    obtain ⟨body, last, hbody, hlast⟩ := last_of_digits hdigits hnonempty
    refine ⟨body, last, by rw [hsplit, hbody], hlast,
      fun d hd => .inl (hdigits d (by simp [hbody, hd])), ?_, hstop, fun left' hleft => ?_⟩
    · intro name
      unfold integerToken
      split <;> simp
    · rw [← hbody, takeNumber_integer hdigits hleft]

/-- A number is an integer that fits in 63 bits or a double. -/
theorem takeNumber_cases (cs : List Char) :
    (∃ n, n < 0x8000000000000000 ∧ (takeNumber cs).1 = .integer (Int64.ofNat n)) ∨
      ∃ x, (takeNumber cs).1 = .float x := by
  have hwhole : ∀ whole, (∃ n, n < 0x8000000000000000 ∧ integerToken whole = .integer (Int64.ofNat n)) ∨
      ∃ x, integerToken whole = .float x := by
    intro whole
    unfold integerToken
    split
    · rename_i hsize
      exact .inl ⟨_, hsize, rfl⟩
    · exact .inr ⟨_, rfl⟩
  unfold takeNumber
  dsimp only
  split
  · split
    · exact .inr ⟨_, rfl⟩
    · exact hwhole _
  · exact hwhole _

/-! ## Parameters -/

/-- A parameter is read again when it ends where it did: a bare name before something that does not
go on with it, a braced one anywhere. -/
theorem takeParam_append {rest left : List Char} {token : Token}
    (h : takeParam rest = .ok (token, left)) :
    ∃ name, token = .param (String.ofList name) ∧ (∃ cs left₂, takeName cs = (name, left₂)) ∧
      name ≠ [] ∧
      ((rest = '\x7b' :: (name ++ '\x7d' :: left) ∧ ∀ left',
          takeParam ('\x7b' :: (name ++ '\x7d' :: left')) = .ok (token, left')) ∨
        (rest = name ++ left ∧
          (∀ d more, left = d :: more → continuesName d more = false) ∧ ∀ left',
          (∀ d more, left' = d :: more → continuesName d more = false) →
            takeParam (name ++ left') = .ok (token, left'))) := by
  unfold takeParam at h
  split at h
  · rename_i rest
    split at h
    · rename_i c name left₂ hname
      obtain ⟨rfl, rfl⟩ : Token.param (String.ofList (c :: name)) = token ∧ left₂ = left := by
        simpa using h
      have hbrace : ∀ left' d more, '\x7d' :: left' = d :: more → continuesName d more = false := by
        rintro left' d more ⟨⟩
        exact continuesName_eq_false (by decide) (by decide)
      have hsplit := (takeName_append hname (hbrace left₂)).1
      refine ⟨c :: name, rfl, ⟨_, _, hname⟩, by simp, .inl ⟨by rw [hsplit], fun left' => ?_⟩⟩
      have hagain := (takeName_append hname (hbrace left')).2
      simp only [takeParam, hagain]
    · cases h
  · rename_i hopen
    split at h
    · cases h
    · rename_i name left₂ hempty hname
      obtain ⟨rfl, rfl⟩ : Token.param (String.ofList name) = token ∧ left₂ = left := by
        simpa using h
      have hnonempty : name ≠ [] := hempty
      have hsplit := (takeName_append hname (takeName_stop hname)).1
      refine ⟨name, rfl, ⟨_, _, hname⟩, hnonempty, .inr ⟨hsplit, takeName_stop hname,
        fun left' hleft => ?_⟩⟩
      have hagain := (takeName_append hname hleft).2
      cases name with
      | nil => exact absurd rfl hnonempty
      | cons c name =>
          have hc : c ≠ '\x7b' := by
            rintro rfl
            have := takeName_chars hname _ List.mem_cons_self
            exact absurd this (by decide)
          unfold takeParam
          rw [List.cons_append] at hagain ⊢
          split
          · rename_i heq
            exact absurd (List.cons.inj heq).1 hc
          · rw [hagain]

/-! ## Marks -/

def markChars : List Char :=
  ['+', '-', '*', '/', '%', '(', ')', ',', '=', '!', '<', '>', '&', '|']

/-- The second character of a longer mark. -/
def markSeconds : List Char := ['=', '>', '&', '|']

theorem follows_second {left left' : List Char} {d : Char}
    (hfollow : ∀ d ∈ left'.head?, left.head? = some d ∨ d ∉ markSeconds) (hd : d ∈ markSeconds)
    (hleft : ∀ rest, left = d :: rest → False) : ∀ rest, left' = d :: rest → False := by
  rintro rest rfl
  rcases hfollow d rfl with hhead | hno
  · cases left with
    | nil => cases hhead
    | cons e more => exact hleft more (by rw [Option.some.inj hhead])
  · exact hno hd

theorem takeMark?_eq {left : List Char} (h : ∀ rest, left = '=' :: rest → False) :
    takeMark? ('=' :: left) = some (.eq, left) := by
  unfold takeMark?
  split <;> simp_all

theorem takeMark?_bang {left : List Char} (h : ∀ rest, left = '=' :: rest → False) :
    takeMark? ('!' :: left) = some (.bang, left) := by
  unfold takeMark?
  split <;> simp_all

theorem takeMark?_lt {left : List Char} (heq : ∀ rest, left = '=' :: rest → False)
    (hgt : ∀ rest, left = '>' :: rest → False) : takeMark? ('<' :: left) = some (.lt, left) := by
  unfold takeMark?
  split <;> simp_all

theorem takeMark?_gt {left : List Char} (h : ∀ rest, left = '=' :: rest → False) :
    takeMark? ('>' :: left) = some (.gt, left) := by
  unfold takeMark?
  split <;> simp_all

/-- Operators, parentheses and commas. -/
def isMark : Token → Bool
  | .integer _ | .float _ | .string _ | .ident _ | .quotedIdent _ | .param _ | .eof => false
  | _ => true

theorem takeMark?_isMark {cs left : List Char} {token : Token}
    (h : takeMark? cs = some (token, left)) : isMark token = true := by
  unfold takeMark? at h
  split at h
  case h_20 => cases h
  all_goals
    obtain ⟨rfl, -⟩ := Prod.mk.inj (Option.some.inj h)
    rfl

/-- A mark is read again when no longer one arises. -/
theorem takeMark?_append {cs left : List Char} {token : Token}
    (h : takeMark? cs = some (token, left)) :
    ∃ source, cs = source ++ left ∧ source ≠ [] ∧ source ⊆ markChars ∧ ∀ left',
      (∀ d ∈ left'.head?, left.head? = some d ∨ d ∉ markSeconds) →
        takeMark? (source ++ left') = some (token, left') := by
  have heq : '=' ∈ markSeconds := by decide +kernel
  have hgt : '>' ∈ markSeconds := by decide +kernel
  unfold takeMark? at h
  split at h
  case h_20 => cases h
  all_goals
    obtain ⟨rfl, rfl⟩ := Prod.mk.inj (Option.some.inj h)
  case h_16 rest hno =>
    exact ⟨['='], rfl, by simp, by decide +kernel, fun left' hfollow =>
      takeMark?_eq (follows_second hfollow heq hno)⟩
  case h_17 rest hno =>
    exact ⟨['!'], rfl, by simp, by decide +kernel, fun left' hfollow =>
      takeMark?_bang (follows_second hfollow heq hno)⟩
  case h_18 rest hno hno' =>
    exact ⟨['<'], rfl, by simp, by decide +kernel, fun left' hfollow =>
      takeMark?_lt (follows_second hfollow heq hno) (follows_second hfollow hgt hno')⟩
  case h_19 rest hno =>
    exact ⟨['>'], rfl, by simp, by decide +kernel, fun left' hfollow =>
      takeMark?_gt (follows_second hfollow heq hno)⟩
  case h_1 => exact ⟨['=', '='], rfl, by simp, by decide +kernel, fun _ _ => rfl⟩
  case h_2 => exact ⟨['!', '='], rfl, by simp, by decide +kernel, fun _ _ => rfl⟩
  case h_3 => exact ⟨['<', '='], rfl, by simp, by decide +kernel, fun _ _ => rfl⟩
  case h_4 => exact ⟨['<', '>'], rfl, by simp, by decide +kernel, fun _ _ => rfl⟩
  case h_5 => exact ⟨['>', '='], rfl, by simp, by decide +kernel, fun _ _ => rfl⟩
  case h_6 => exact ⟨['&', '&'], rfl, by simp, by decide +kernel, fun _ _ => rfl⟩
  case h_7 => exact ⟨['|', '|'], rfl, by simp, by decide +kernel, fun _ _ => rfl⟩
  case h_8 => exact ⟨['+'], rfl, by simp, by decide +kernel, fun _ _ => rfl⟩
  case h_9 => exact ⟨['-'], rfl, by simp, by decide +kernel, fun _ _ => rfl⟩
  case h_10 => exact ⟨['*'], rfl, by simp, by decide +kernel, fun _ _ => rfl⟩
  case h_11 => exact ⟨['/'], rfl, by simp, by decide +kernel, fun _ _ => rfl⟩
  case h_12 => exact ⟨['%'], rfl, by simp, by decide +kernel, fun _ _ => rfl⟩
  case h_13 => exact ⟨['('], rfl, by simp, by decide +kernel, fun _ _ => rfl⟩
  case h_14 => exact ⟨[')'], rfl, by simp, by decide +kernel, fun _ _ => rfl⟩
  case h_15 => exact ⟨[','], rfl, by simp, by decide +kernel, fun _ _ => rfl⟩

/-! ## Tokens -/

/-- The characters a token is read off when `left` follows: a parameter, bare or in braces, a text
that ends in its quote, or something without a dollar sign. -/
inductive Spells : Token → List Char → List Char → Prop
  | bare {name left : List Char} (nonempty : name ≠ [])
      (chars : ∀ c ∈ name, isWordChar c = true ∨ c = '.')
      (stop : ∀ d ∈ left.head?, isWordChar d = false) :
      Spells (.param (String.ofList name)) ('$' :: name) left
  | braced {name left : List Char} (nonempty : name ≠ [])
      (chars : ∀ c ∈ name, isWordChar c = true ∨ c = '.') :
      Spells (.param (String.ofList name)) ('$' :: '\x7b' :: (name ++ ['\x7d'])) left
  | quoted {token : Token} {body left : List Char} {quote : Char}
      (other : ∀ name, token ≠ .param name)
      (mark : (∃ s, token = .string s) ∧ (quote = '\'' ∨ quote = '"') ∨ quote.toNat = 0x60) :
      Spells token (body ++ [quote]) left
  | plain {token : Token} {source left : List Char} (other : ∀ name, token ≠ .param name)
      (clean : '$' ∉ source) (unquoted : '\'' ∉ source) : Spells token source left

/-- Only a text ends in a quote. -/
theorem Spells.string_of_last {token : Token} {source left : List Char}
    (h : Spells token source left) (hlast : source.getLast? = some '\'') :
    ∃ s, token = .string s := by
  cases h with
  | @bare name _ nonempty chars stop =>
      have hmem : '\'' ∈ name :=
        (List.mem_cons.1 (List.mem_of_getLast? hlast)).resolve_left (by decide)
      exact absurd (chars _ hmem) (by decide)
  | @braced name _ nonempty chars =>
      have hend : ('$' :: '\x7b' :: (name ++ ['\x7d'])).getLast? = some '\x7d' :=
        List.getLast?_concat (l := '$' :: '\x7b' :: name)
      rw [hend] at hlast
      cases hlast
  | quoted other mark =>
      rw [List.getLast?_concat] at hlast
      rcases mark with ⟨hstring, -⟩ | hback
      · exact hstring
      · rw [Option.some.inj hlast] at hback
        exact absurd hback (by decide)
  | plain other clean unquoted => exact absurd (List.mem_of_getLast? hlast) unquoted

theorem wordChar_stop {left : List Char}
    (h : ∀ d more, left = d :: more → continuesName d more = false) :
    ∀ d ∈ left.head?, isWordChar d = false := by
  intro d hd
  cases left with
  | nil => cases hd
  | cons e more =>
      obtain rfl : e = d := Option.some.inj hd
      refine Bool.eq_false_iff.2 fun hword => ?_
      exact absurd ((continuesName_of_wordChar hword).symm.trans (h e more rfl)) (by simp)

/-- Nothing that follows a name in its place goes on with it. -/
theorem Follows.stop {last : Char} {left left' : List Char} (h : Follows last left left')
    (hlast : isWordChar last = true) (stop : ∀ d ∈ left.head?, isWordChar d = false) :
    ∀ d more, left' = d :: more → continuesName d more = false := by
  rintro d more rfl
  rcases h d rfl with ⟨hhead, hpoint⟩ | ⟨hword, -, hmem⟩
  · exact continuesName_eq_false (stop d hhead) hpoint
  · refine continuesName_eq_false (Bool.eq_false_iff.2 fun hd => ?_) fun hd => hmem (by simp [hd])
    rw [hword hd] at hlast
    cases hlast

/-- What follows a quote that ends a text in its place is no such quote. -/
theorem Follows.unquoted {quote : Char} {left left' : List Char} (h : Follows quote left left')
    (hquote : quote = '\'' ∨ quote = '"') (hleft : left.head? ≠ some quote) :
    left'.head? ≠ some quote := by
  intro hhead
  rcases h quote hhead with ⟨hsame, -⟩ | ⟨-, happart, hmem⟩
  · exact hleft hsame
  · rcases hquote with rfl | rfl
    · exact happart rfl rfl
    · exact hmem (by decide)

/-- What follows a digit that ends a number in its place ends the number. -/
theorem Follows.endsNumber {last : Char} {left left' : List Char} (h : Follows last left left')
    (hlast : isAsciiDigit last = true) (stop : ∀ d ∈ left.head?, isAsciiDigit d = false) :
    EndsNumber left' := by
  constructor
  · intro d hd
    rcases h d hd with ⟨hsame, -⟩ | ⟨hword, -, -⟩
    · exact stop d hsame
    · refine Bool.eq_false_iff.2 fun hdigit => ?_
      have hnone := hword (wordChar_of_digit hdigit)
      rw [wordChar_of_digit hlast] at hnone
      cases hnone
  · intro d more hpoint
    rcases h '.' (by simp [hpoint]) with ⟨-, hno⟩ | ⟨-, -, hno⟩
    · exact absurd rfl hno
    · exact absurd (by simp) hno

/-- What follows a mark in its place makes no longer one of it. -/
theorem Follows.noSecond {last : Char} {left left' : List Char} (h : Follows last left left') :
    ∀ d ∈ left'.head?, left.head? = some d ∨ d ∉ markSeconds := by
  have hseconds : ∀ d ∈ markSeconds, d ∈ ['.', '=', '>', '&', '|', '"'] :=
    forall_mem_of_all (by decide)
  intro d hd
  rcases h d hd with ⟨hsame, -⟩ | ⟨-, -, hmem⟩
  · exact .inl hsame
  · exact .inr fun hd => hmem (hseconds d hd)

/-! What a token starts with says which scanner reads it. -/

variable {total : Nat} {c : Char} {rest left : List Char}

theorem takeToken_dollar : takeToken total '$' rest =
    match takeParam rest with
    | .ok found => .ok found
    | .error problem => .error (.syntaxError (total - (rest.length + 1)) problem) := rfl

theorem takeToken_quote {s : List Char} (hc : c = '\'' ∨ c = '"')
    (h : takeString c rest = .ok (s, left)) :
    takeToken total c rest = .ok (.string (String.ofList s), left) := by
  rcases hc with rfl | rfl <;> simp [takeToken, h]

theorem takeToken_back {name : List Char} (hc : c.toNat = 0x60)
    (h : takeQuotedIdent rest = some (name, left)) :
    takeToken total c rest = .ok (.quotedIdent (String.ofList name), left) := by
  have hdollar : c ≠ '$' := by rintro rfl; exact absurd hc (by decide)
  have hquote : c ≠ '\'' := by rintro rfl; exact absurd hc (by decide)
  have hdouble : c ≠ '"' := by rintro rfl; exact absurd hc (by decide)
  simp [takeToken, h, hc, hdollar, hquote, hdouble]

theorem takeToken_digit (hc : isAsciiDigit c = true) :
    takeToken total c rest = .ok (takeNumber (c :: rest)) := by
  obtain ⟨hdollar, hquote, hdouble, hback⟩ := @digit_forall
    (fun c => c ≠ '$' ∧ c ≠ '\'' ∧ c ≠ '"' ∧ c.toNat ≠ 0x60) _ (by decide) c hc
  simp [takeToken, hc, hdollar, hquote, hdouble, hback]

theorem takeToken_name {name : List Char} (hc : (isAlphabetic c || c == '_') = true)
    (h : takeName (c :: rest) = (name, left)) :
    takeToken total c rest = .ok (.ident (String.ofList name), left) := by
  have hdollar : c ≠ '$' := by rintro rfl; exact absurd hc (by decide)
  have hquote : c ≠ '\'' := by rintro rfl; exact absurd hc (by decide)
  have hdouble : c ≠ '"' := by rintro rfl; exact absurd hc (by decide)
  have hback : c.toNat ≠ 0x60 := by
    intro hback
    obtain rfl : c = Char.ofNat 0x60 := by rw [← hback, Char.ofNat_toNat]
    exact absurd hc (by decide)
  have hdigit : isAsciiDigit c = false := Bool.eq_false_iff.2 fun hdigit =>
    @digit_forall (fun c => (isAlphabetic c || c == '_') ≠ true) _ (by decide) c hdigit hc
  simp [takeToken, hdollar, hquote, hdouble, hback, hdigit, hc, h]

theorem takeToken_mark {found : Token × List Char} (hc : c ∈ markChars)
    (h : takeMark? (c :: rest) = some found) : takeToken total c rest = .ok found := by
  obtain ⟨hdollar, hquote, hdouble, hback, hdigit, hletter⟩ : c ≠ '$' ∧ c ≠ '\'' ∧ c ≠ '"' ∧
      c.toNat ≠ 0x60 ∧ isAsciiDigit c = false ∧ (isAlphabetic c || c == '_') = false :=
    (forall_mem_of_all (by decide) : ∀ c ∈ markChars, c ≠ '$' ∧ c ≠ '\'' ∧ c ≠ '"' ∧
      c.toNat ≠ 0x60 ∧ isAsciiDigit c = false ∧ (isAlphabetic c || c == '_') = false) c hc
  simp [takeToken, hdollar, hquote, hdouble, hback, hdigit, hletter, h]

/-- No token starts with a point. -/
theorem takeToken_point : takeToken total '.' rest =
    .error (.syntaxError (total - (rest.length + 1)) (.unexpectedCharacter '.')) := by
  have hmark : takeMark? ('.' :: rest) = none := rfl
  have hletter : isAlphabetic '.' = false := by decide
  simp [takeToken, hmark, hletter, show isAsciiDigit '.' = false from rfl]

theorem cons_of_append {source : List Char} (h : c :: rest = source ++ left) (nonempty : source ≠ []) :
    ∃ tail, source = c :: tail ∧ rest = tail ++ left := by
  cases source with
  | nil => exact absurd rfl nonempty
  | cons d tail =>
      obtain ⟨rfl, rfl⟩ := List.cons.inj h
      exact ⟨tail, rfl, rfl⟩

/-- The scanner that reads a token, with what the token starts with. -/
inductive Scans (c : Char) (rest left : List Char) : Token → Prop
  | param {token : Token} (start : c = '$') (read : takeParam rest = .ok (token, left)) :
      Scans c rest left token
  | string {s : List Char} (start : c = '\'' ∨ c = '"') (read : takeString c rest = .ok (s, left)) :
      Scans c rest left (.string (String.ofList s))
  | quotedIdent {name : List Char} (start : c.toNat = 0x60)
      (read : takeQuotedIdent rest = some (name, left)) :
      Scans c rest left (.quotedIdent (String.ofList name))
  | number {token : Token} (start : isAsciiDigit c = true)
      (read : takeNumber (c :: rest) = (token, left)) : Scans c rest left token
  | name {name : List Char} (start : (isAlphabetic c || c == '_') = true)
      (read : takeName (c :: rest) = (name, left)) : Scans c rest left (.ident (String.ofList name))
  | mark {token : Token} (read : takeMark? (c :: rest) = some (token, left)) : Scans c rest left token

variable {token : Token}

theorem scans_of_takeToken (h : takeToken total c rest = .ok (token, left)) :
    Scans c rest left token := by
  unfold takeToken at h
  split at h
  · rename_i hc
    split at h
    · rename_i hread
      exact .param (by simpa using hc) (hread.trans (congrArg _ (Except.ok.inj h)))
    · cases h
  split at h
  · rename_i hc
    split at h
    · rename_i hread
      obtain ⟨rfl, rfl⟩ := Prod.mk.inj (Except.ok.inj h)
      exact .string (by simpa using hc) hread
    · cases h
    · cases h
  split at h
  · rename_i hc
    split at h
    · rename_i hread
      obtain ⟨rfl, rfl⟩ := Prod.mk.inj (Except.ok.inj h)
      exact .quotedIdent hc hread
    · cases h
  split at h
  · rename_i hc
    exact .number hc (Except.ok.inj h)
  split at h
  · rename_i hc
    obtain ⟨rfl, rfl⟩ := Prod.mk.inj (Except.ok.inj h)
    exact .name hc rfl
  · split at h
    · rename_i hread
      exact .mark (hread.trans (congrArg _ (Except.ok.inj h)))
    · cases h

/-- A token is read off its own characters, and again before anything that follows them in place of
what is left. -/
def ReadOff (c : Char) (rest left : List Char) (token : Token) : Prop :=
  ∃ tail last, rest = tail ++ left ∧ (c :: tail).getLast? = some last ∧
    Spells token (c :: tail) left ∧ ∀ total' left', Follows last left left' →
      takeToken total' c (tail ++ left') = .ok (token, left')

theorem readOff_param (h : takeParam rest = .ok (token, left)) : ReadOff '$' rest left token := by
  obtain ⟨name, rfl, ⟨cs, left₂, hname⟩, hnonempty, hparam⟩ := takeParam_append h
  have hchars := takeName_chars hname
  rcases hparam with ⟨rfl, hread⟩ | ⟨rfl, hstop, hread⟩
  · refine ⟨'\x7b' :: (name ++ ['\x7d']), '\x7d', by simp, ?_, .braced hnonempty hchars,
      fun total' left' _ => ?_⟩
    · exact List.getLast?_concat (l := '$' :: '\x7b' :: name)
    · have htail : '\x7b' :: (name ++ ['\x7d']) ++ left' = '\x7b' :: (name ++ '\x7d' :: left') := by
        simp
      rw [htail, takeToken_dollar, hread left']
  · obtain ⟨body, last, rfl, hlast⟩ := takeName_last hname hnonempty
    refine ⟨body ++ [last], last, rfl, List.getLast?_concat (l := '$' :: body),
      .bare hnonempty hchars (wordChar_stop hstop), fun total' left' hfollow => ?_⟩
    rw [takeToken_dollar, hread left' (hfollow.stop hlast (wordChar_stop hstop))]

theorem readOff_string {s : List Char} (hquote : c = '\'' ∨ c = '"')
    (h : takeString c rest = .ok (s, left)) : ReadOff c rest left (.string (String.ofList s)) := by
  have hslash : c ≠ '\\' := by rcases hquote with rfl | rfl <;> decide
  obtain ⟨hleft, body, rfl, hread⟩ := takeString_append hslash h
  refine ⟨body ++ [c], c, by simp, List.getLast?_concat (l := c :: body), ?_,
    fun total' left' hfollow => ?_⟩
  · exact @Spells.quoted _ (c :: body) _ _ (by simp) (.inl ⟨⟨_, rfl⟩, hquote⟩)
  · rw [List.append_assoc]
    exact takeToken_quote hquote (hread left' (hfollow.unquoted hquote hleft))

theorem readOff_quotedIdent {name : List Char} (hc : c.toNat = 0x60)
    (h : takeQuotedIdent rest = some (name, left)) :
    ReadOff c rest left (.quotedIdent (String.ofList name)) := by
  obtain ⟨body, quote, rfl, hmark, hread⟩ := takeQuotedIdent_append h
  refine ⟨body ++ [quote], quote, by simp, List.getLast?_concat (l := c :: body), ?_,
    fun total' left' _ => ?_⟩
  · exact @Spells.quoted _ (c :: body) _ _ (by simp) (.inr hmark)
  · rw [List.append_assoc]
    exact takeToken_back hc (hread left')

theorem readOff_number (hc : isAsciiDigit c = true) (h : takeNumber (c :: rest) = (token, left)) :
    ReadOff c rest left token := by
  obtain ⟨body, last, hbody, hlast, hchars, hother, hstop, hread⟩ := takeNumber_append hc h
  obtain ⟨tail, htail, rfl⟩ := cons_of_append hbody (by simp)
  have hno : ∀ q, isAsciiDigit q = false → q ≠ '.' → q ∉ c :: tail := by
    intro q hq hpoint hmem
    rw [← htail] at hmem
    rcases List.mem_append.1 hmem with hd | hd
    · rcases hchars q hd with hdigit | hd
      · rw [hq] at hdigit
        cases hdigit
      · exact hpoint hd
    · rw [List.mem_singleton.1 hd, hlast] at hq
      cases hq
  refine ⟨tail, last, rfl, by rw [← htail, List.getLast?_concat],
    .plain hother (hno '$' rfl (by decide)) (hno '\'' rfl (by decide)),
    fun total' left' hfollow => ?_⟩
  rw [takeToken_digit hc, ← List.cons_append, ← htail, hread left' (hfollow.endsNumber hlast hstop)]

theorem readOff_name {name : List Char} (hc : (isAlphabetic c || c == '_') = true)
    (h : takeName (c :: rest) = (name, left)) : ReadOff c rest left (.ident (String.ofList name)) := by
  have hstop := takeName_stop h
  have hword : isWordChar c = true := by
    rcases Bool.or_eq_true_iff.1 hc with hc | hc <;> simp [isWordChar, isAlphanumeric, hc]
  have hnonempty : name ≠ [] := by
    rw [takeName, if_pos (continuesName_of_wordChar hword)] at h
    simp [← (Prod.mk.inj h).1]
  obtain ⟨body, last, hbody, hlast⟩ := takeName_last h hnonempty
  obtain ⟨tail, rfl, rfl⟩ := cons_of_append (takeName_append h hstop).1 hnonempty
  refine ⟨tail, last, rfl, by rw [hbody, List.getLast?_concat], .plain (by simp)
    (fun hdollar => absurd (takeName_chars h _ hdollar) (by decide))
    (fun hquote => absurd (takeName_chars h _ hquote) (by decide)),
    fun total' left' hfollow => ?_⟩
  exact takeToken_name hc (takeName_append h (hfollow.stop hlast (wordChar_stop hstop))).2

theorem readOff_mark (h : takeMark? (c :: rest) = some (token, left)) : ReadOff c rest left token := by
  have hother : ∀ name, token ≠ .param name := by
    rintro name rfl
    cases takeMark?_isMark h
  obtain ⟨source, hsource, hnonempty, hmarks, hread⟩ := takeMark?_append h
  obtain ⟨tail, rfl, rfl⟩ := cons_of_append hsource hnonempty
  obtain ⟨last, hlast⟩ : ∃ last, (c :: tail).getLast? = some last :=
    ⟨_, List.getLast?_eq_some_getLast (by simp)⟩
  refine ⟨tail, last, rfl, hlast, .plain hother
    (fun hdollar => absurd (hmarks hdollar) (by decide +kernel))
    (fun hquote => absurd (hmarks hquote) (by decide +kernel)),
    fun total' left' hfollow => ?_⟩
  exact takeToken_mark (hmarks List.mem_cons_self) (hread left' hfollow.noSecond)

theorem takeToken_spec (h : takeToken total c rest = .ok (token, left)) :
    ReadOff c rest left token := by
  cases scans_of_takeToken h with
  | param start read =>
      subst start
      exact readOff_param read
  | string start read => exact readOff_string start read
  | quotedIdent start read => exact readOff_quotedIdent start read
  | number start read => exact readOff_number start read
  | name start read => exact readOff_name start read
  | mark read => exact readOff_mark read

end RowPipeline.Lexer
