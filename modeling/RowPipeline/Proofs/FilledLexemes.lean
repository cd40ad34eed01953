import RowPipeline.Proofs.Parsing
import RowPipeline.Proofs.Placeholders

/-!
# Lexemes with literals for parameters

When a text is filled, each lexeme gives place to its literal or stays, and nothing runs into what
stands next to it, as long as the lexemes fit the parameters. So the filled text is split into the
filled tokens.
-/

namespace RowPipeline

/-- A token with its spelling, the character right before it, and what follows. -/
structure Lexeme where
  token : Token
  before : Option Char
  source : List Char
  left : List Char

namespace Lexer

/-- The lexemes of the characters left behind `before`. -/
def lexemesFrom (total : Nat) : Nat → Option Char → List Char → List Lexeme
  | 0, _, _ => []
  | fuel + 1, before, cs =>
      match cs.dropWhile Text.isBlank with
      | [] => []
      | c :: rest =>
          match takeToken total c rest with
          | .error _ => []
          | .ok (token, left) =>
              let source := c :: rest.take (rest.length - left.length)
              ⟨token, (cs.takeWhile Text.isBlank).getLast?.or before, source, left⟩ ::
                lexemesFrom total fuel source.getLast? left

/-- The lexemes of a text. -/
def lexemes (text : String) : List Lexeme :=
  lexemesFrom text.toList.length text.toList.length none text.toList

end Lexer

/-- Whether the parameters that the scan for placeholders finds in a lexeme can give place to their
literals: the lexeme is the parameter itself, its literal stands for its value, and the literal does
not run into a word before or after it. -/
def Lexeme.Fits (params : Parameters) (l : Lexeme) : Prop :=
  ∀ name source v s, .reference name source ∈ Piece.scanFrom 0 l.source →
    params.get? name = some v → v.expressionLiteral? = some s →
      l.token = .param name ∧ v.faithful = true ∧
      (∀ b ∈ l.before, ∀ d ∈ s.toList.head?, Lexer.isWordChar d = true → Lexer.isWordChar b = false) ∧
      (v.isWord = true → ∀ d ∈ l.left.head?, Lexer.isWordChar d = false)

def Lexeme.fits (params : Parameters) (l : Lexeme) : Bool :=
  (Piece.scanFrom 0 l.source).all fun
    | .char _ => true
    | .reference name _ =>
        (params.get? name).all fun v => v.expressionLiteral?.all fun s =>
          (match l.token with
            | .param other => other == name
            | _ => false) &&
          v.faithful &&
          l.before.all (fun b => s.toList.head?.all fun d =>
            !(Lexer.isWordChar d && Lexer.isWordChar b)) &&
          (!v.isWord || l.left.head?.all fun d => !Lexer.isWordChar d)

theorem Lexeme.fits_iff {params : Parameters} {l : Lexeme} :
    l.fits params = true ↔ l.Fits params := by
  have htoken : ∀ name, (match l.token with
      | .param other => other == name
      | _ => false) = true ↔ l.token = .param name := by
    intro name
    cases l.token <;> simp
  simp only [fits, List.all_eq_true, Fits]
  constructor
  · intro h name source v s hmem hget hs
    have := h _ hmem
    simp only [hget, hs, Option.all_some, Bool.and_eq_true, htoken] at this
    obtain ⟨⟨⟨htoken, hv⟩, hbefore⟩, hafter⟩ := this
    refine ⟨htoken, hv, fun b hb d hd hword => ?_, fun hword d hd => ?_⟩
    · rw [Option.mem_def.1 hb, Option.all_some, Option.mem_def.1 hd, Option.all_some] at hbefore
      simpa [hword] using hbefore
    · rw [Option.mem_def.1 hd] at hafter
      simpa [hword] using hafter
  · intro h p hmem
    cases p with
    | char c => rfl
    | reference name source =>
        dsimp only
        cases hget : params.get? name with
        | none => rfl
        | some v =>
            rw [Option.all_some]
            cases hs : v.expressionLiteral? with
            | none => rfl
            | some s =>
                obtain ⟨hparam, hv, hbefore, hafter⟩ := h name source v s hmem hget hs
                simp only [Option.all_some, Bool.and_eq_true, htoken]
                refine ⟨⟨⟨hparam, hv⟩, ?_⟩, ?_⟩
                · cases hb : l.before with
                  | none => rfl
                  | some b =>
                      cases hd : s.toList.head? with
                      | none => rfl
                      | some d =>
                          have := hbefore b hb d hd
                          cases hword : Lexer.isWordChar d <;> simp_all
                · cases hd : l.left.head? with
                  | none => simp
                  | some d =>
                      cases hword : v.isWord with
                      | false => rfl
                      | true => simp [hafter hword d hd]

instance (params : Parameters) (l : Lexeme) : Decidable (l.Fits params) :=
  decidable_of_iff _ Lexeme.fits_iff

namespace Lexer

open Text

theorem takeNumber_written (cs : List Char) : (takeNumber cs).1.Written := by
  rcases takeNumber_cases cs with ⟨n, hn, htoken⟩ | ⟨x, hx⟩
  · rw [htoken]
    refine ⟨by simp, fun h => ?_⟩
    have hsize : (Int64.ofNat n).toInt = n := Int64.toInt_ofNat_of_lt hn
    rw [Token.integer.inj h] at hsize
    have hleast : Int64.minValue.toInt = -2 ^ 63 := rfl
    omega
  · rw [hx]
    exact ⟨by simp, by simp⟩

theorem written_of_isMark {token : Token} (h : isMark token = true) : token.Written := by
  constructor
  · rintro rfl
    cases h
  · rintro rfl
    cases h

theorem takeToken_written {total : Nat} {c : Char} {rest left : List Char} {token : Token}
    (h : takeToken total c rest = .ok (token, left)) : token.Written := by
  cases scans_of_takeToken h with
  | param start read =>
      obtain ⟨name, rfl, -⟩ := takeParam_append read
      exact ⟨by simp, by simp⟩
  | number start read =>
      have hnumber := takeNumber_written (c :: rest)
      rwa [read] at hnumber
  | mark read => exact written_of_isMark (takeMark?_isMark read)
  | string | quotedIdent | name => exact ⟨by simp, by simp⟩

/-! ## Where literals start -/

/-- The characters a literal starts with. -/
def literalStarts : List Char := '-' :: '\'' :: 'N' :: 'T' :: 'F' :: digitChars

theorem literalStarts_digits {cs : List Char} (h : Decimal.Digits cs) (bs : List Char) :
    ∃ d more, cs ++ bs = d :: more ∧ d ∈ literalStarts := by
  cases cs with
  | nil => exact absurd rfl h.nonempty
  | cons d more =>
      have hd := mem_digitChars (h.all d (by simp))
      exact ⟨d, more ++ bs, rfl, by simp [literalStarts, hd]⟩

theorem literal_start {v : Value} {s : String} (hv : v.faithful = true)
    (hs : v.expressionLiteral? = some s) : ∃ d more, s.toList = d :: more ∧ d ∈ literalStarts := by
  cases v with
  | null =>
      obtain rfl := Option.some.inj hs
      exact ⟨'N', _, rfl, by decide⟩
  | bool b =>
      obtain rfl := Option.some.inj hs
      cases b with
      | true => exact ⟨'T', _, rfl, by decide⟩
      | false => exact ⟨'F', _, rfl, by decide⟩
  | int i =>
      obtain rfl := Option.some.inj hs
      rw [Int.toString_eq_repr, Int.repr_eq_if]
      split
      · have hdigits := Decimal.digits_toString i.toInt.toNat
        obtain ⟨d, more, hsplit, hd⟩ := literalStarts_digits hdigits []
        exact ⟨d, more, (List.append_nil _).symm.trans hsplit, hd⟩
      · rw [String.toList_append]
        exact ⟨'-', _, rfl, by decide⟩
  | float x =>
      have hx : x.isFinite = true := hv
      rw [Value.expressionLiteral?, if_pos hx] at hs
      obtain rfl := Option.some.inj hs
      rw [← Binary64.decode?_isSome] at hx
      obtain ⟨d, hd⟩ := Option.isSome_iff_exists.1 hx
      obtain ⟨v, whole, fraction, hchars, hwhole, -⟩ := pointed_magnitude d
      have hstart := pointed_write hd
      rw [hchars] at hstart
      cases hneg : d.negative with
      | true =>
          rw [hneg] at hstart
          exact ⟨'-', _, hstart, by decide⟩
      | false =>
          rw [hneg] at hstart
          obtain ⟨c, more, hsplit, hc⟩ := literalStarts_digits hwhole ('.' :: fraction)
          exact ⟨c, more, hstart.trans hsplit, hc⟩
  | string s =>
      obtain rfl := Option.some.inj hs
      rw [String.toList_ofList]
      exact ⟨'\'', _, rfl, by decide⟩
  | array items => cases hv
  | object fields => cases hv

theorem expressionLiteral?_isSome {v : Value} (hv : v.faithful = true) :
    ∃ s, v.expressionLiteral? = some s := by
  cases v with
  | float x =>
      have hx : x.isFinite = true := hv
      rw [Value.expressionLiteral?, if_pos hx]
      exact ⟨_, rfl⟩
  | array items => cases hv
  | object fields => cases hv
  | _ => exact ⟨_, rfl⟩

/-! ## Filling one lexeme after another -/

/-- What stands for a parameter in an expression. -/
def literalOf (params : Parameters) (name : String) : Option String :=
  (params.get? name).bind Value.expressionLiteral?

/-- How the filled characters `cs'` start in place of `cs`, which are split into `ts`: with the same
character, or with a literal apart from what stands before. -/
structure Starts (before : Option Char) (cs cs' : List Char) (ts : List Token) : Prop where
  head : ∀ d ∈ cs'.head?, (cs.head? = some d ∧ d ≠ '.') ∨
    ((∃ t ∈ ts.head?, t.isOperand = true) ∧ d ∈ literalStarts ∧
      (isWordChar d = true → ∀ b ∈ before, isWordChar b = false))
  operand : ∀ d ∈ cs.head?, isAsciiDigit d = true ∨ d = '\'' → ∃ t ∈ ts.head?, t.isOperand = true

variable {params : Parameters} {total : Nat} {c last : Char} {before : Option Char}
  {rest tail left cs' : List Char} {token : Token} {ts ts' : List Token} {name : String} {v : Value}
  {s : String}

theorem point_unread : takeToken total '.' rest ≠ .ok (token, left) := by
  rw [takeToken_point]
  exact nofun

theorem operand_start (h : takeToken total c rest = .ok (token, left))
    (hc : isAsciiDigit c = true ∨ c = '\'') : token.isOperand = true := by
  rcases hc with hdigit | rfl
  · rw [takeToken_digit hdigit] at h
    have hnumber : (takeNumber (c :: rest)).1.isOperand = true := by
      rcases takeNumber_cases (c :: rest) with ⟨n, -, hn⟩ | ⟨x, hx⟩
      · rw [hn]
        rfl
      · rw [hx]
        rfl
    rwa [Except.ok.inj h] at hnumber
  · cases scans_of_takeToken h with
    | string => rfl
    | quotedIdent start => exact absurd start (by decide)
    | name start => exact absurd start (by decide)
    | param start => exact absurd start (by decide)
    | number start => exact absurd start (by decide)
    | mark read => cases read

/-- Behind an operand the filled text starts like the text, with nothing that belongs to it. -/
theorem Starts.after_operand (h : Starts (some last) left cs' ts)
    (hnext : ∀ t ∈ ts.head?, t.isOperand = false) :
    ∀ d ∈ cs'.head?, left.head? = some d ∧ d ≠ '.' ∧ isAsciiDigit d = false ∧ d ≠ '\'' := by
  intro d hd
  rcases h.head d hd with ⟨hsame, hpoint⟩ | ⟨⟨t, ht, hop⟩, -, -⟩
  · have hno : ¬(isAsciiDigit d = true ∨ d = '\'') := by
      intro hd
      obtain ⟨t, ht, hop⟩ := h.operand d hsame hd
      rw [hnext t ht] at hop
      cases hop
    exact ⟨hsame, hpoint, Bool.eq_false_iff.2 fun hd => hno (.inl hd), fun hd => hno (.inr hd)⟩
  · rw [hnext t ht] at hop
    cases hop

theorem Starts.endsLiteral (h : Starts (some last) left cs' ts)
    (hnext : ∀ t ∈ ts.head?, t.isOperand = false)
    (hword : v.isWord = true → ∀ d ∈ left.head?, isWordChar d = false) : EndsLiteral v cs' := by
  have hends : EndsNumber cs' := by
    refine ⟨fun d hd => (h.after_operand hnext d hd).2.2.1, fun d more hpoint => ?_⟩
    exact absurd rfl (h.after_operand hnext '.' (by simp [hpoint])).2.1
  have hstop : v.isWord = true → ∀ d more, cs' = d :: more → continuesName d more = false := by
    rintro hv d more rfl
    obtain ⟨hsame, hpoint, -⟩ := h.after_operand hnext d rfl
    exact continuesName_eq_false (hword hv d hsame) hpoint
  cases v with
  | null => exact hstop rfl
  | bool b => exact hstop rfl
  | int i => exact hends
  | float x => exact hends
  | string s => exact fun hquote => (h.after_operand hnext '\'' hquote).2.2.2 rfl
  | array items => trivial
  | object fields => trivial

/-- A parameter gives place to its literal. -/
theorem lexes_reference (h : takeToken total c (tail ++ left) = .ok (token, left))
    (hspells : Spells token (c :: tail) left) (hfits : Lexeme.Fits params ⟨token, before, c :: tail, left⟩)
    {source : List Char} (hmem : .reference name source ∈ Piece.scanFrom 0 (c :: tail))
    (hget : params.get? name = some v) (hs : v.expressionLiteral? = some s)
    (hnext : token.isOperand = true → ∀ t ∈ ts.head?, t.isOperand = false)
    (hstarts : Starts (some last) left cs' ts) (hlexes : Lexes cs' ts') :
    Lexes (Piece.fillChars (literalOf params) (c :: tail) ++ cs') (token.fill params ++ ts') ∧
      Starts before (c :: (tail ++ left))
        (Piece.fillChars (literalOf params) (c :: tail) ++ cs') (token :: ts) := by
  obtain ⟨rfl, hv, hbefore, hafter⟩ := hfits name source v s hmem hget hs
  have hname := Piece.reference_mem hmem
  have hfill : Piece.fillChars (literalOf params) (c :: tail) = s.toList := by
    rw [Piece.fillChars, Piece.scanFrom_param hname hspells]
    simp [Piece.filled, literalOf, hget, hs]
  have hliteral : Token.fill params (.param name) = v.literalTokens := by
    have : params.literal? name = some v := by
      rw [Parameters.literal?, if_pos hname, hget, Option.filter_some, if_pos hv]
    simp only [Token.fill, this]
  obtain ⟨d, more, hstart, hd⟩ := literal_start hv hs
  rw [hfill, hliteral]
  refine ⟨lexes_literal hv hs (hstarts.endsLiteral (hnext rfl) hafter) hlexes, ⟨?_, ?_⟩⟩
  · intro e he
    obtain rfl : d = e := by simpa [hstart] using he
    exact .inr ⟨⟨_, rfl, rfl⟩, hd, fun hword b hb => hbefore b hb d (by simp [hstart]) hword⟩
  · intro e he hoperand
    obtain rfl : c = e := Option.some.inj he
    exact ⟨_, rfl, operand_start h hoperand⟩

/-- A lexeme without a parameter to fill stays. -/
theorem lexes_kept (hblank : isBlank c = false) (h : takeToken total c (tail ++ left) = .ok (token, left))
    (hspells : Spells token (c :: tail) left) (hlast : (c :: tail).getLast? = some last)
    (hread : ∀ total' left', Follows last left left' →
      takeToken total' c (tail ++ left') = .ok (token, left'))
    (hdead : ∀ name source, .reference name source ∈ Piece.scanFrom 0 (c :: tail) →
      literalOf params name = none)
    (hnext : token.isOperand = true → ∀ t ∈ ts.head?, t.isOperand = false)
    (hstarts : Starts (some last) left cs' ts) (hlexes : Lexes cs' ts') :
    Lexes (Piece.fillChars (literalOf params) (c :: tail) ++ cs') (token.fill params ++ ts') ∧
      Starts before (c :: (tail ++ left))
        (Piece.fillChars (literalOf params) (c :: tail) ++ cs') (token :: ts) := by
  have htoken : token.fill params = [token] := by
    by_cases hparam : ∃ name, token = .param name
    · obtain ⟨name, rfl⟩ := hparam
      have hnone : params.literal? name = none := by
        cases hlit : params.literal? name with
        | none => rfl
        | some v =>
            obtain ⟨hv, hget⟩ := literal?_eq_some hlit
            obtain ⟨s, hs⟩ := expressionLiteral?_isSome hv
            have hname : Piece.isName name.toList = true := by
              rw [Parameters.literal?] at hlit
              split at hlit
              · assumption
              · cases hlit
            have := hdead name (c :: tail) (by rw [Piece.scanFrom_param hname hspells]; simp)
            simp [literalOf, hget, hs] at this
      simp [Token.fill, hnone]
    · exact fill_of_not_param fun name hname => hparam ⟨name, hname⟩
  have hfollows : Follows last left cs' := by
    intro d hd
    rcases hstarts.head d hd with hsame | ⟨⟨t, ht, hop⟩, hstart, hword⟩
    · exact .inl hsame
    · refine .inr ⟨fun hd => hword hd last rfl, fun hquote => ?_, ?_⟩
      · rintro rfl
        obtain ⟨s, rfl⟩ := hspells.string_of_last hlast
        rw [hnext rfl t ht] at hop
        cases hop
      · exact (forall_mem_of_all (by decide) :
          ∀ d ∈ literalStarts, d ∉ ['.', '=', '>', '&', '|', '"']) d hstart
  rw [Piece.fillChars_dead hdead, htoken]
  refine ⟨.cons (by simp [hblank]) (fun total' => hread total' cs' hfollows) hlexes, ⟨?_, ?_⟩⟩
  · intro d hd
    obtain rfl : c = d := Option.some.inj hd
    exact .inl ⟨rfl, fun hpoint => point_unread (hpoint ▸ h)⟩
  · intro d hd hoperand
    obtain rfl : c = d := Option.some.inj hd
    exact ⟨_, rfl, operand_start h hoperand⟩

theorem Lexes.of_blanks {blanks cs : List Char} (hblanks : ∀ c ∈ blanks, isBlank c = true)
    (h : Lexes cs ts) : Lexes (blanks ++ cs) ts := by
  have hskip : (blanks ++ cs).dropWhile isBlank = cs.dropWhile isBlank :=
    List.dropWhile_append_of_pos hblanks
  cases h with
  | nil hblank => exact .nil (hskip.trans hblank)
  | cons skip read next => exact .cons (hskip.trans skip) read next

theorem Starts.of_blanks {blanks cs : List Char} (hblanks : ∀ c ∈ blanks, isBlank c = true)
    (h : Starts (blanks.getLast?.or before) cs cs' ts) :
    Starts before (blanks ++ cs) (blanks ++ cs') ts := by
  cases blanks with
  | nil => exact h
  | cons b more =>
      have hb : isBlank b = true := hblanks b (by simp)
      refine ⟨fun d hd => ?_, fun d hd hstart => ?_⟩
      · obtain rfl : b = d := by simpa using hd
        exact .inl ⟨rfl, by rintro rfl; exact absurd hb (by decide)⟩
      · obtain rfl : b = d := by simpa using hd
        rcases hstart with hdigit | rfl
        · have := @digit_forall (fun c => isBlank c = false) _ (by decide) b hdigit
          rw [hb] at this
          cases this
        · exact absurd hb (by decide)

theorem passes_all {p : Spanned} {ps : List Spanned} (h : Passes (p :: ps) []) :
    (p.token.isOperand = true → ∀ t ∈ (ps.map Spanned.token).head?, t.isOperand = false) ∧
      Passes ps [] := by
  cases h with
  | step apart next =>
      refine ⟨fun hop t ht => ?_, next⟩
      cases ps with
      | nil => cases ht
      | cons q more =>
          obtain rfl : q.token = t := Option.some.inj ht
          exact apart hop q rfl

/-- The filled characters are split into the filled tokens. -/
theorem lexes_filled {fuel : Nat} {cs : List Char} {spanned : List Spanned}
    (hfuel : cs.length ≤ fuel) (h : tokensFrom total fuel cs = .ok spanned)
    (hfits : ∀ l ∈ lexemesFrom total fuel before cs, l.Fits params) (hpass : Passes spanned []) :
    Lexes (Piece.fillChars (literalOf params) cs)
        ((spanned.map Spanned.token).flatMap (Token.fill params)) ∧
      Starts before cs (Piece.fillChars (literalOf params) cs) (spanned.map Spanned.token) := by
  induction fuel generalizing cs before spanned with
  | zero =>
      obtain rfl : cs = [] := List.length_eq_zero_iff.1 (Nat.le_zero.1 hfuel)
      obtain rfl : [] = spanned := Except.ok.inj h
      exact ⟨.nil rfl, by simp [Piece.fillChars, Piece.scanFrom], by simp⟩
  | succ fuel ih =>
      obtain ⟨blanks, hblanks⟩ : ∃ blanks, blanks = cs.takeWhile isBlank := ⟨_, rfl⟩
      have hall : ∀ c ∈ blanks, isBlank c = true := hblanks ▸ takeWhile_all cs
      have hdollar : '$' ∉ blanks := fun hmem => absurd (hall _ hmem) (by decide)
      have hsplit : cs = blanks ++ cs.dropWhile isBlank := by
        rw [hblanks, List.takeWhile_append_dropWhile]
      rw [tokensFrom] at h
      rw [lexemesFrom, ← hblanks] at hfits
      have hhead := @head_dropWhile isBlank cs
      rw [hsplit, Piece.fillChars_clean hdollar]
      generalize cs.dropWhile isBlank = after at *
      subst hsplit
      -- the blanks stay, so the rest is all that matters
      suffices hrest : Lexes (Piece.fillChars (literalOf params) after)
            ((spanned.map Spanned.token).flatMap (Token.fill params)) ∧
          Starts (blanks.getLast?.or before) after (Piece.fillChars (literalOf params) after)
            (spanned.map Spanned.token) from
        ⟨.of_blanks hall hrest.1, .of_blanks hall hrest.2⟩
      cases after with
      | nil =>
          obtain rfl : [] = spanned := Except.ok.inj h
          exact ⟨.nil rfl, by simp [Piece.fillChars, Piece.scanFrom], by simp⟩
      | cons c rest =>
          dsimp only at h hfits
          cases htoken : takeToken total c rest with
          | error e =>
              rw [htoken] at h
              cases h
          | ok found =>
              obtain ⟨token, left⟩ := found
              rw [htoken] at h hfits
              dsimp only at h hfits
              obtain ⟨spanned', hspanned', rfl⟩ := map_eq_ok h
              obtain ⟨tail, last, rfl, hlast, hspells, hread⟩ := takeToken_spec htoken
              have htake : (tail ++ left).take ((tail ++ left).length - left.length) = tail := by
                simp
              rw [htake, hlast] at hfits
              obtain ⟨hnext, hpass'⟩ := passes_all hpass
              have hlength : left.length ≤ fuel := by
                simp only [List.length_append, List.length_cons] at hfuel
                omega
              obtain ⟨hlexes, hstarts⟩ := ih hlength hspanned'
                (fun l hl => hfits l (List.mem_cons_of_mem _ hl)) hpass'
              have hblank : isBlank c = false := hhead c rfl
              rw [← List.cons_append, Piece.fillChars_lexeme hspells]
              by_cases hlive : ∃ name source v s, .reference name source ∈ Piece.scanFrom 0 (c :: tail)
                  ∧ params.get? name = some v ∧ v.expressionLiteral? = some s
              · obtain ⟨name, source, v, s, hmem, hget, hs⟩ := hlive
                exact lexes_reference htoken hspells (hfits _ List.mem_cons_self) hmem hget hs hnext
                  hstarts hlexes
              · refine lexes_kept hblank htoken hspells hlast hread (fun name source hmem => ?_) hnext
                  hstarts hlexes
                cases hget : params.get? name with
                | none => simp [literalOf, hget]
                | some v =>
                    cases hs : v.expressionLiteral? with
                    | none => simp [literalOf, hget, hs]
                    | some s => exact absurd ⟨name, source, v, s, hmem, hget, hs⟩ hlive

/-- What holds of every token that the scanner gives holds of the tokens of a text. -/
theorem tokensFrom_forall {P : Token → Prop}
    (scanned : ∀ {c rest token left}, takeToken total c rest = .ok (token, left) → P token)
    {fuel : Nat} {cs : List Char} {spanned : List Spanned}
    (h : tokensFrom total fuel cs = .ok spanned) : ∀ p ∈ spanned, P p.token := by
  induction fuel generalizing cs spanned with
  | zero =>
      obtain rfl : [] = spanned := Except.ok.inj h
      simp
  | succ fuel ih =>
      rw [tokensFrom] at h
      split at h
      · obtain rfl : [] = spanned := Except.ok.inj h
        simp
      · split at h
        · cases h
        · rename_i token left htoken
          obtain ⟨spanned', hspanned', rfl⟩ := map_eq_ok h
          intro p hp
          rcases List.mem_cons.1 hp with rfl | hp
          · exact scanned htoken
          · exact ih hspanned' p hp

theorem tokensFrom_written {fuel : Nat} {cs : List Char} {spanned : List Spanned}
    (h : tokensFrom total fuel cs = .ok spanned) : ∀ p ∈ spanned, p.token.Written :=
  tokensFrom_forall takeToken_written h

end Lexer

end RowPipeline
