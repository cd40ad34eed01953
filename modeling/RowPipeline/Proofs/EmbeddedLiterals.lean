import Mathlib.Data.List.TakeWhile
import RowPipeline.Proofs.Literals
import RowPipeline.Proofs.Outcomes

/-!
# String literals inside a text

The scanner has no memory: what it reads at a place depends on the characters from there on, and the place
is only counted. So the tokens behind a cut between two lexemes are those of a text of its own, further
back. A string that is written as a literal between two texts is one token, whatever it holds, as long as
no quote stands next to its own.
-/

namespace RowPipeline

/-- A token of a text that stands behind `n` characters. -/
def Spanned.behind (n : Nat) (t : Spanned) : Spanned := ⟨n + t.position, t.token⟩

/-- A problem of a text that stands behind `n` characters. -/
def ExpressionError.behind (n : Nat) : ExpressionError → ExpressionError
  | .syntaxError position problem => .syntaxError (n + position) problem
  | e => e

namespace Lexer

open Text

variable {total fuel : Nat} {c : Char} {cs rest left more : List Char} {ts : List Spanned}

/-! ## Fuel -/

theorem tokensFrom_succ (hfuel : cs.length ≤ fuel) :
    tokensFrom total (fuel + 1) cs = tokensFrom total fuel cs := by
  induction fuel generalizing cs with
  | zero =>
      obtain rfl : cs = [] := List.length_eq_zero_iff.mp (Nat.le_zero.mp hfuel)
      rfl
  | succ fuel ih =>
      rw [tokensFrom, tokensFrom]
      have hsuffix := (List.dropWhile_suffix isBlank (l := cs)).length_le
      cases hskip : cs.dropWhile isBlank with
      | nil => rfl
      | cons c rest =>
          rw [hskip, List.length_cons] at hsuffix
          cases htoken : takeToken total c rest with
          | error e => simp only [htoken]
          | ok found =>
              have hlength := takeToken_length htoken
              simp only [htoken]
              rw [ih (by omega)]

/-- As much fuel as there are characters is enough. -/
theorem tokensFrom_fuel (hfuel : cs.length ≤ fuel) :
    tokensFrom total fuel cs = tokensFrom total cs.length cs := by
  induction hfuel with
  | refl => rfl
  | step hmore ih => exact (tokensFrom_succ hmore).trans ih

/-- The first token of a text, and the tokens of what is left behind it. -/
theorem tokensFrom_token {token : Token} (hskip : cs.dropWhile isBlank = c :: rest)
    (hread : takeToken total c rest = .ok (token, left)) :
    tokensFrom total cs.length cs =
      (tokensFrom total left.length left).map (⟨total - (rest.length + 1), token⟩ :: ·) := by
  have hsuffix := (List.dropWhile_suffix isBlank (l := cs)).length_le
  rw [hskip, List.length_cons] at hsuffix
  have hlength := takeToken_length hread
  rw [← tokensFrom_succ (Nat.le_refl cs.length), tokensFrom, hskip]
  simp only [hread]
  rw [tokensFrom_fuel (by omega)]

/-- Blanks in front are skipped. -/
theorem tokensFrom_blanks (hblank : cs.dropWhile isBlank = []) :
    tokensFrom total (cs ++ more).length (cs ++ more) = tokensFrom total more.length more := by
  have hall : ∀ c ∈ cs, isBlank c = true := List.dropWhile_eq_nil_iff.mp hblank
  have hmore : more.length ≤ (cs ++ more).length := by simp
  rw [← tokensFrom_succ (Nat.le_refl (cs ++ more).length), ← tokensFrom_succ (Nat.le_refl more.length),
    tokensFrom, tokensFrom, List.dropWhile_append_of_pos hall]
  cases hskip : more.dropWhile isBlank with
  | nil => rfl
  | cons c rest =>
      have hsuffix := (List.dropWhile_suffix isBlank (l := more)).length_le
      rw [hskip, List.length_cons] at hsuffix
      cases htoken : takeToken total c rest with
      | error e => simp only [htoken]
      | ok found =>
          have hlength := takeToken_length htoken
          simp only [htoken]
          rw [tokensFrom_fuel (by omega), tokensFrom_fuel (show found.2.length ≤ more.length by omega)]

/-! ## Texts further back -/

/-- An escape that stands for nothing is met inside of the text. -/
theorem badEscape_length {quote e : Char} (h : takeString quote cs = .error (.badEscape e left)) :
    left.length ≤ cs.length := by
  induction cs using takeString.induct quote generalizing left with
  | case1 => cases h
  | case2 c hc =>
      rw [takeString, if_pos hc] at h
      cases h
  | case3 c hc =>
      rw [takeString, if_neg hc] at h
      cases h
  | case4 c d rest hc hd ih =>
      rw [takeString, if_pos hc, if_pos hd] at h
      have := ih (map_eq_error h)
      simp only [List.length_cons]
      omega
  | case5 c d rest hc hd =>
      rw [takeString, if_pos hc, if_neg hd] at h
      cases h
  | case6 c d rest hc hslash e' he ih =>
      rw [takeString, if_neg hc, if_pos hslash, he] at h
      have := ih (map_eq_error h)
      simp only [List.length_cons]
      omega
  | case7 c d rest hc hslash he =>
      rw [takeString, if_neg hc, if_pos hslash, he] at h
      obtain ⟨-, rfl⟩ := StringFault.badEscape.inj (Except.error.inj h)
      simp
  | case8 c d rest hc hslash ih =>
      rw [takeString, if_neg hc, if_neg hslash] at h
      have := ih (map_eq_error h)
      simp only [List.length_cons] at this ⊢
      omega

/-- A token is the same further back, and so is a problem but for its place. -/
theorem takeToken_behind (n : Nat) (h : rest.length < total) :
    takeToken (n + total) c rest = (takeToken total c rest).mapError (.behind n) := by
  have hhere : n + total - (rest.length + 1) = n + (total - (rest.length + 1)) := by omega
  unfold takeToken
  rw [hhere]
  split
  · cases takeParam rest <;> rfl
  split
  · cases hstring : takeString c rest with
    | ok p => rfl
    | error fault =>
        cases fault with
        | unterminated => rfl
        | badEscape e left =>
            have hleft := badEscape_length hstring
            have hplace : n + total - left.length = n + (total - left.length) := by omega
            dsimp only
            rw [hplace]
            rfl
  split
  · cases takeQuotedIdent rest <;> rfl
  split
  · rfl
  split
  · rfl
  · cases takeMark? (c :: rest) <;> rfl

/-- The tokens of a text that stands behind `n` characters. -/
def behind (n : Nat) (found : Except ExpressionError (List Spanned)) :
    Except ExpressionError (List Spanned) :=
  (found.map fun ts => ts.map (Spanned.behind n)).mapError (.behind n)

theorem tokensFrom_behind (n : Nat) (h : cs.length ≤ total) :
    tokensFrom (n + total) fuel cs = behind n (tokensFrom total fuel cs) := by
  induction fuel generalizing cs with
  | zero => rfl
  | succ fuel ih =>
      have hsuffix := (List.dropWhile_suffix isBlank (l := cs)).length_le
      rw [tokensFrom, tokensFrom]
      cases hskip : cs.dropWhile isBlank with
      | nil => rfl
      | cons c rest =>
          rw [hskip, List.length_cons] at hsuffix
          simp only [takeToken_behind n (show rest.length < total by omega)]
          cases htoken : takeToken total c rest with
          | error e => rfl
          | ok found =>
              have hlength := takeToken_length htoken
              have hhere : n + total - (rest.length + 1) = n + (total - (rest.length + 1)) := by omega
              simp only [Except.mapError]
              rw [ih (show found.2.length ≤ total by omega), hhere]
              cases tokensFrom total fuel found.2 <;> rfl

/-! ## Cuts between lexemes -/

/-- No token begins with a point. -/
theorem not_point_of_tokens (hfuel : cs.length ≤ fuel) (h : tokensFrom total fuel cs = .ok ts) :
    cs.head? ≠ some '.' := by
  intro hhead
  obtain ⟨rest, rfl⟩ : ∃ rest, cs = '.' :: rest := ⟨cs.tail, (List.eq_cons_of_mem_head? hhead)⟩
  obtain ⟨fuel, rfl⟩ : ∃ m, fuel = m + 1 := ⟨fuel - 1, by simp at hfuel; omega⟩
  have hblank : isBlank '.' = false := rfl
  simp [tokensFrom, takeToken_point, hblank] at h

/-- Behind a text that is split into tokens comes another one, apart from its last character: its tokens
follow those of the first text. -/
theorem tokensFrom_append (hfuel : cs.length ≤ fuel) (h : tokensFrom total fuel cs = .ok ts)
    (apart : ∀ last ∈ cs.getLast?, ∀ d ∈ more.head?, Apart last d) :
    tokensFrom (total + more.length) (cs ++ more).length (cs ++ more) =
      (tokensFrom (total + more.length) more.length more).map (ts ++ ·) := by
  induction fuel generalizing cs ts with
  | zero =>
      obtain rfl : cs = [] := List.length_eq_zero_iff.mp (Nat.le_zero.mp hfuel)
      obtain rfl : [] = ts := Except.ok.inj h
      rw [List.nil_append]
      cases tokensFrom (total + more.length) more.length more <;> rfl
  | succ fuel ih =>
      rw [tokensFrom] at h
      have hsuffix := (List.dropWhile_suffix isBlank (l := cs)).length_le
      cases hskip : cs.dropWhile isBlank with
      | nil =>
          rw [hskip] at h
          obtain rfl : [] = ts := Except.ok.inj h
          rw [tokensFrom_blanks hskip]
          cases tokensFrom (total + more.length) more.length more <;> rfl
      | cons c rest =>
          rw [hskip] at h hsuffix
          rw [List.length_cons] at hsuffix
          dsimp only at h
          cases htoken : takeToken total c rest with
          | error e => simp [htoken] at h
          | ok found =>
              obtain ⟨token, left⟩ := found
              have hleft := takeToken_length htoken
              rw [htoken] at h
              obtain ⟨ts, hts, rfl⟩ := map_eq_ok h
              obtain ⟨tail, last, rfl, hlast, -, hread⟩ := takeToken_spec htoken
              obtain ⟨blanks, hcs⟩ := List.dropWhile_suffix isBlank (l := cs)
              rw [hskip] at hcs
              have hend : cs.getLast? = left.getLast?.or (some last) := by
                rw [← hcs, ← List.cons_append, List.getLast?_append, List.getLast?_append, hlast]
                cases left.getLast? <;> rfl
              -- what follows the token begins as before, or it is the second text
              have hfollow : Follows last left (left ++ more) := by
                intro d hd
                cases left with
                | nil => exact .inr (apart last hend d hd)
                | cons e left =>
                    obtain rfl : e = d := Option.some.inj hd
                    have hpoint := not_point_of_tokens (show (e :: left).length ≤ fuel by omega) hts
                    exact .inl ⟨rfl, fun hd => hpoint (congrArg some hd)⟩
              have hapart : ∀ last ∈ left.getLast?, ∀ d ∈ more.head?, Apart last d := by
                intro e he
                have he : left.getLast? = some e := he
                exact apart e (hend.trans (by rw [he]; rfl))
              have hskip' : (cs ++ more).dropWhile isBlank = c :: (tail ++ (left ++ more)) := by
                rw [List.dropWhile_append, hskip]
                simp
              have hhere : total + more.length - ((tail ++ (left ++ more)).length + 1) =
                  total - ((tail ++ left).length + 1) := by
                simp only [List.length_append]
                omega
              rw [tokensFrom_token hskip' (hread _ _ hfollow), hhere, ih (by omega) hts hapart]
              cases tokensFrom (total + more.length) more.length more <;> rfl

/-! ## String literals -/

/-- The characters of a string literal: between quotes, its own quotes doubled. -/
def quoted (s : List Char) : List Char := '\'' :: (escaped s ++ ['\''])

theorem expressionLiteral?_string (s : String) :
    (Value.string s).expressionLiteral? = some (String.ofList (quoted s.toList)) := rfl

/-- The literal of a string is one token, and what follows it is read on its own. -/
theorem tokensFrom_quoted (s : List Char) (stop : left.head? ≠ some '\'') :
    tokensFrom total (quoted s ++ left).length (quoted s ++ left) =
      (tokensFrom total left.length left).map
        (⟨total - (quoted s ++ left).length, .string (String.ofList s)⟩ :: ·) := by
  have hcs : quoted s ++ left = '\'' :: (escaped s ++ '\'' :: left) := by simp [quoted]
  have hread : takeToken total '\'' (escaped s ++ '\'' :: left) = .ok (.string (String.ofList s), left) :=
    takeToken_quote (.inl rfl) (takeString_escaped stop s)
  have hskip : (quoted s ++ left).dropWhile isBlank = '\'' :: (escaped s ++ '\'' :: left) := by
    rw [hcs]
    simp [isBlank]
  rw [tokensFrom_token hskip hread, hcs, List.length_cons]

/-- A text that ends in no quote is apart from the literal behind it. -/
theorem apart_quote {last : Char} (h : last ≠ '\'') : Apart last '\'' :=
  ⟨fun hword => absurd hword (by decide), fun _ => h, by decide⟩

/-- A string literal between two texts, none of whose quotes stands next to its own, is one token whatever
it holds: the tokens of the first text come before it, and those of the second follow. -/
theorem string_literal_one_token (s a b : String) {before : List Spanned}
    (ha : tokens a = .ok before) (hopen : a.toList.getLast? ≠ some '\'')
    (hclose : b.toList.head? ≠ some '\'') :
    ∃ literal, (Value.string s).expressionLiteral? = some literal ∧
      tokenize (a ++ literal ++ b) =
        (behind (a ++ literal).toList.length (tokenize b)).map fun after =>
          before ++ ⟨a.toList.length, .string s⟩ :: after := by
  refine ⟨_, expressionLiteral?_string s, ?_⟩
  have hfirst : (a ++ String.ofList (quoted s.toList)).toList = a.toList ++ quoted s.toList := by simp
  have htext : (a ++ String.ofList (quoted s.toList) ++ b).toList =
      a.toList ++ (quoted s.toList ++ b.toList) := by simp
  have htotal : a.toList.length + (quoted s.toList ++ b.toList).length =
      (a.toList ++ quoted s.toList).length + b.toList.length := by
    simp only [List.length_append]
    omega
  have hlength : (a.toList ++ (quoted s.toList ++ b.toList)).length =
      (a.toList ++ quoted s.toList).length + b.toList.length := by
    rw [List.length_append, htotal]
  have hhere : (a.toList ++ quoted s.toList).length + b.toList.length -
      (quoted s.toList ++ b.toList).length = a.toList.length := by omega
  have hapart : ∀ last ∈ a.toList.getLast?, ∀ d ∈ (quoted s.toList ++ b.toList).head?, Apart last d := by
    intro last hlast d hd
    obtain rfl : '\'' = d := Option.some.inj hd
    exact apart_quote fun hquote => hopen (hquote ▸ hlast)
  have hbefore := tokensFrom_append (Nat.le_refl _) ha hapart
  rw [hlength, htotal, tokensFrom_quoted s.toList hclose, hhere, String.ofList_toList,
    tokensFrom_behind (a.toList ++ quoted s.toList).length (Nat.le_refl _)] at hbefore
  rw [tokenize, tokens, htext, hfirst, hlength, hbefore, tokenize, tokens]
  cases tokensFrom b.toList.length b.toList.length b.toList with
  | error e => rfl
  | ok after => simp [behind, Except.map, Except.mapError, Spanned.behind]

/-- A value that is made to end the literal and to go on with a condition of its own stays a string. -/
theorem string_literal_one_token_attack :
    ∃ literal, (Value.string "x' OR '1' = '1").expressionLiteral? = some literal ∧
      tokenize ("name = " ++ literal ++ " AND id = 7") =
        (behind ("name = " ++ literal).toList.length (tokenize " AND id = 7")).map fun after =>
          [⟨0, .ident "name"⟩, ⟨5, .eq⟩] ++ ⟨7, .string "x' OR '1' = '1"⟩ :: after :=
  string_literal_one_token "x' OR '1' = '1" "name = " " AND id = 7" rfl (by decide) (by decide)

end Lexer

end RowPipeline
