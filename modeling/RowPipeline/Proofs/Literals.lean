import RowPipeline.Proofs.Lexemes
import RowPipeline.Proofs.Numerals
import RowPipeline.Parameter.Substitution

/-!
# Literals

A value that is written into an expression is read as the tokens of a literal, as long as what
follows does not run into it. The tokens of a negative number are a sign and its size.
-/

namespace RowPipeline.Value

/-- Whether the literal of a value stands for the value in every place: an array is no operand, the
least integer is read as a double, and a double that is no number is written as a null. -/
def faithful : Value → Bool
  | .null | .bool _ | .string _ => true
  | .int i => i != Int64.minValue
  | .float x => x.isFinite
  | .array _ | .object _ => false

/-- Whether the literal of a value is a word. -/
def isWord : Value → Bool
  | .null | .bool _ => true
  | _ => false

def literalTokens : Value → List Token
  | .null => [.ident "NULL"]
  | .bool b => [.ident (if b then "TRUE" else "FALSE")]
  | .int i => if i < 0 then [.minus, .integer (-i)] else [.integer i]
  | .float x => if Binary64.isNegative x then [.minus, .float (-x)] else [.float x]
  | .string s => [.string s]
  | .array _ | .object _ => []

end RowPipeline.Value

namespace RowPipeline.Lexer

open Text

/-- A text and the tokens it is split into. -/
inductive Lexes : List Char → List Token → Prop
  | nil {cs : List Char} (h : cs.dropWhile isBlank = []) : Lexes cs []
  | cons {cs rest left : List Char} {c : Char} {token : Token} {tokens : List Token}
      (skip : cs.dropWhile isBlank = c :: rest)
      (read : ∀ total, takeToken total c rest = .ok (token, left)) (next : Lexes left tokens) :
      Lexes cs (token :: tokens)

theorem takeToken_length {total : Nat} {c : Char} {rest left : List Char} {token : Token}
    (h : takeToken total c rest = .ok (token, left)) : left.length ≤ rest.length := by
  obtain ⟨tail, last, rfl, -⟩ := takeToken_spec h
  simp

theorem Lexes.tokensFrom {cs : List Char} {ts : List Token} (h : Lexes cs ts) {total fuel : Nat}
    (hfuel : cs.length ≤ fuel) :
    ∃ spanned, tokensFrom total fuel cs = .ok spanned ∧ spanned.map Spanned.token = ts := by
  induction h generalizing fuel with
  | @nil cs hblank =>
      cases fuel with
      | zero => exact ⟨[], rfl, rfl⟩
      | succ fuel => exact ⟨[], by simp [Lexer.tokensFrom, hblank], rfl⟩
  | @cons cs rest left c token tokens skip read next ih =>
      have hlength : rest.length + 1 ≤ cs.length := by
        have := (List.dropWhile_suffix isBlank (l := cs)).length_le
        rwa [skip] at this
      cases fuel with
      | zero => omega
      | succ fuel =>
          have := takeToken_length (read total)
          obtain ⟨spanned, hspanned, hmap⟩ := @ih fuel (by omega)
          refine ⟨⟨total - (rest.length + 1), token⟩ :: spanned, ?_, by simp [hmap]⟩
          rw [Lexer.tokensFrom, skip]
          simp only [read total, hspanned]
          rfl

/-! ## The tokens of literals -/

theorem takeToken_minus {total : Nat} (rest : List Char) :
    takeToken total '-' rest = .ok (.minus, rest) := takeToken_mark (by decide) rfl

/-- What may follow the literal of a value. -/
def EndsLiteral (v : Value) (left : List Char) : Prop :=
  match v with
  | .null | .bool _ => ∀ d more, left = d :: more → continuesName d more = false
  | .int _ | .float _ => EndsNumber left
  | .string _ => left.head? ≠ some '\''
  | .array _ | .object _ => True

theorem lexes_number {cs left : List Char} {token : Token} {ts : List Token}
    (hc : ∀ c ∈ cs.head?, isAsciiDigit c = true) (nonempty : cs ≠ [])
    (h : takeNumber (cs ++ left) = (token, left)) (next : Lexes left ts) :
    Lexes (cs ++ left) (token :: ts) := by
  cases cs with
  | nil => exact absurd rfl nonempty
  | cons c rest =>
      have hdigit := hc c rfl
      have hblank : isBlank c = false := @digit_forall (fun c => isBlank c = false) _ (by decide) c hdigit
      refine @Lexes.cons _ (rest ++ left) _ c _ _ (by simp [hblank]) (fun total => ?_) next
      rw [takeToken_digit hdigit]
      exact congrArg Except.ok h

theorem lexes_minus {cs : List Char} {ts : List Token} (next : Lexes cs ts) :
    Lexes ('-' :: cs) (.minus :: ts) :=
  .cons (by simp [isBlank]) (fun _ => takeToken_minus _) next

theorem lexes_word {name left : List Char} {ts : List Token} (hname : takeName name = (name, []))
    (hc : name.head?.all (fun c => (isAlphabetic c || c == '_') && !isBlank c) = true)
    (nonempty : name ≠ [])
    (stop : ∀ d more, left = d :: more → continuesName d more = false) (next : Lexes left ts) :
    Lexes (name ++ left) (.ident (String.ofList name) :: ts) := by
  cases name with
  | nil => exact absurd rfl nonempty
  | cons c rest =>
      obtain ⟨hletter, hblank⟩ : (isAlphabetic c || c == '_') = true ∧ isBlank c = false := by
        simpa using hc
      have hread : takeName (c :: (rest ++ left)) = (c :: rest, left) := (takeName_append hname stop).2
      exact .cons (by simp [hblank]) (fun total => takeToken_name hletter hread) next

/-- A text with its quotes doubled and its backslashes escaped. -/
def escaped (s : List Char) : List Char :=
  s.flatMap fun c => if c = '\\' then ['\\', '\\'] else if c = '\'' then ['\'', '\''] else [c]

theorem takeString_escaped {left : List Char} (h : left.head? ≠ some '\'') (s : List Char) :
    takeString '\'' (escaped s ++ '\'' :: left) = .ok (s, left) := by
  induction s with
  | nil => exact takeString_end h
  | cons c s ih =>
      have hsplit : escaped (c :: s) ++ '\'' :: left
          = (if c = '\\' then ['\\', '\\'] else if c = '\'' then ['\'', '\''] else [c])
            ++ (escaped s ++ '\'' :: left) := by
        simp [escaped]
      rw [hsplit]
      split
      · rename_i hslash
        rw [List.cons_append, List.cons_append, takeString_escape (by decide) (e := '\\') rfl,
          List.nil_append, ih, hslash]
        rfl
      · rename_i hslash
        split
        · rename_i hquote
          rw [List.cons_append, List.cons_append, takeString_doubled, List.nil_append, ih, hquote]
          rfl
        · rename_i hquote
          obtain ⟨d, more, hnext⟩ : ∃ d more, escaped s ++ '\'' :: left = d :: more := by
            cases escaped s with
            | nil => exact ⟨_, _, rfl⟩
            | cons d more => exact ⟨_, _, rfl⟩
          rw [List.cons_append, List.nil_append, hnext, takeString_plain hquote hslash, ← hnext, ih]
          rfl

theorem lexes_string {s left : List Char} {ts : List Token} (stop : left.head? ≠ some '\'')
    (next : Lexes left ts) :
    Lexes ('\'' :: (escaped s ++ '\'' :: left)) (.string (String.ofList s) :: ts) :=
  .cons (by simp [isBlank]) (fun _ => takeToken_quote (.inl rfl) (takeString_escaped stop s)) next

/-- Digits are read as the integer they stand for. -/
theorem lexes_integer {n : Nat} {left : List Char} {ts : List Token} (hn : n < 0x8000000000000000)
    (stop : EndsNumber left) (next : Lexes left ts) :
    Lexes ((toString n).toList ++ left) (.integer (Int64.ofNat n) :: ts) := by
  have hdigits := Decimal.digits_toString n
  refine lexes_number (fun c hc => hdigits.all c (List.mem_of_head? hc)) hdigits.nonempty ?_ next
  rw [takeNumber_integer hdigits.all stop, integerToken, Decimal.digitsValue_toString, if_pos hn]

/-- A text with a point is read as the double nearest to it. -/
theorem lexes_fixed {cs left : List Char} {v : Rat} {ts : List Token} (h : Decimal.Fixed cs v)
    (stop : EndsNumber left) (next : Lexes left ts) :
    ∃ (digits : Nat) (scale : Int), (digits : Rat) * 10 ^ scale = v ∧
      Lexes (cs ++ left) (.float (Decimal.nearest digits scale) :: ts) := by
  obtain ⟨whole, fraction, rfl, hwhole, hfraction, hvalue⟩ := h
  refine ⟨Decimal.digitsValue (whole ++ fraction), -(fraction.length : Int), hvalue, ?_⟩
  refine lexes_number ?_ (by simp) ?_ next
  · intro c hc
    refine hwhole.all c ?_
    cases whole with
    | nil => exact absurd rfl hwhole.nonempty
    | cons d rest =>
        obtain rfl : d = c := by simpa using hc
        simp
  · rw [List.append_assoc, List.cons_append,
      takeNumber_fraction hwhole.all hfraction.all hfraction.nonempty stop.1]
    simp [Decimal.Parts.value]

/-! ## Doubles -/

theorem decode?_negative {x : Float} {d : Dyadic} (h : Binary64.decode? x = some d) :
    d.negative = Binary64.isNegative x := by
  simp only [Binary64.decode?] at h
  split at h
  · cases h
  · split at h <;> rw [← Option.some.inj h] <;> rfl

/-- The digits of a double without its sign. -/
def magnitude (d : Dyadic) : String :=
  if d.mantissa == 0 then "0" else
    Decimal.plainLayout.arrange (Decimal.shortest Decimal.plainLayout.tie d.mantissa d.exponent)

/-- A text of a number, with a point added if there is none. -/
def pointed (text : String) : String :=
  if text.toList.contains '.' then text else text ++ ".0"

theorem pointed_zero {d : Dyadic} (h : d.mantissa = 0) :
    Decimal.Fixed (pointed (magnitude d)).toList 0 := by
  have hzero : magnitude d = "0" := by simp [magnitude, h]
  rw [hzero]
  exact ⟨['0'], ['0'], rfl, ⟨by simp, forall_mem_of_all (by decide)⟩,
    ⟨by simp, forall_mem_of_all (by decide)⟩,
    by simp [Decimal.digitsValue, Decimal.digitValue]⟩

theorem pointed_positive {d : Dyadic} (h : d.mantissa ≠ 0) :
    Decimal.Fixed (pointed (magnitude d)).toList
      (Decimal.shortest Decimal.plainLayout.tie d.mantissa d.exponent).amount := by
  rw [magnitude, if_neg (by simpa using h)]
  exact Decimal.fixed_plain _

/-- The digits of a double without its sign are read as its size. -/
theorem lexes_magnitude {d : Dyadic} {x : Float} {left : List Char} {ts : List Token}
    (h : Binary64.decode? x = some d) (stop : EndsNumber left) (next : Lexes left ts) :
    Lexes ((pointed (magnitude d)).toList ++ left)
      (.float (if d.negative then -x else x) :: ts) := by
  rcases Nat.eq_zero_or_pos d.mantissa with hm | hpos
  · obtain ⟨digits, scale, hvalue, hlexes⟩ := lexes_fixed (pointed_zero hm) stop next
    obtain ⟨negative, m, e⟩ := d
    obtain rfl : m = 0 := hm
    have hzero : (if negative then -x else x) = 0 := by
      rw [Binary64.eq_zero h]
      cases negative <;> rfl
    have hdigits : digits = 0 := by
      have hpow : (10 : Rat) ^ scale ≠ 0 := zpow_ne_zero _ (by norm_num)
      exact_mod_cast (mul_eq_zero.1 hvalue).resolve_right hpow
    subst hdigits
    dsimp only
    rw [hzero]
    exact hlexes
  · obtain ⟨digits, scale, hvalue, hlexes⟩ := lexes_fixed (pointed_positive hpos.ne') stop next
    obtain ⟨negative, m, e⟩ := d
    obtain ⟨canonical, he, rfl⟩ := Binary64.eq_ofFields h hpos
    have hnear := Decimal.shortest_nears Decimal.plainLayout.tie canonical
    rw [← hvalue] at hnear
    rw [Decimal.nearest_of_nears canonical he hnear] at hlexes
    have hsize : (if negative then -Binary64.ofFields negative m e hpos
        else Binary64.ofFields negative m e hpos) = Binary64.ofFields false m e hpos := by
      cases negative with
      | false => rfl
      | true => exact Binary64.neg_ofFields canonical he
    dsimp only
    rw [hsize]
    exact hlexes

theorem lexes_int {i : Int64} {left : List Char} {ts : List Token} (hi : i ≠ Int64.minValue)
    (stop : EndsNumber left) (next : Lexes left ts) :
    Lexes ((toString i.toInt).toList ++ left) ((Value.int i).literalTokens ++ ts) := by
  have hrange := Int64.toInt_lt i
  have hlow := Int64.le_toInt i
  have hmin : i.toInt ≠ -2 ^ 63 := fun h => hi (Int64.toInt_inj.1 h)
  rw [Int.toString_eq_repr, Int.repr_eq_if]
  by_cases hneg : i < 0
  · have hneg' : i.toInt < 0 := Int64.lt_iff_toInt_lt.1 hneg
    have hsize : Int64.ofNat (-i.toInt).toNat = -i := by
      have hback : -Int64.ofNat (-i.toInt).toNat = i := by
        apply Int64.toInt_inj.1
        rw [Int64.toInt_neg_ofNat_of_le (by omega)]
        omega
      exact Int64.neg_neg.symm.trans (congrArg (- ·) hback)
    rw [if_neg (by omega), String.toList_append, Value.literalTokens, if_pos hneg, ← hsize]
    exact lexes_minus (lexes_integer (by omega) stop next)
  · have hneg' : ¬i.toInt < 0 := fun h => hneg (Int64.lt_iff_toInt_lt.2 h)
    have hsize : Int64.ofNat i.toInt.toNat = i := by
      apply Int64.toInt_inj.1
      rw [Int64.toInt_ofNat_of_lt (by omega)]
      omega
    rw [if_pos (by omega), Value.literalTokens, if_neg hneg]
    have := @lexes_integer i.toInt.toNat _ _ (by omega) stop next
    rw [hsize] at this
    exact this

/-- A double is written as a sign and its size. -/
theorem write_eq {x : Float} {d : Dyadic} (h : Binary64.decode? x = some d) :
    Decimal.plainLayout.write x = (if d.negative then "-" else "") ++ magnitude d := by
  rw [Decimal.Layout.write, h]
  dsimp only
  rw [magnitude]
  split
  · simp [Decimal.plainLayout]
  · rfl

/-- The literal of a double is a sign and a text with a point. -/
theorem pointed_write {x : Float} {d : Dyadic} (h : Binary64.decode? x = some d) :
    (pointed (Decimal.plainLayout.write x)).toList
      = (if d.negative then ['-'] else []) ++ (pointed (magnitude d)).toList := by
  have hwrite := write_eq h
  have hcontains : (Decimal.plainLayout.write x).toList.contains '.'
      = (magnitude d).toList.contains '.' := by
    rw [hwrite]
    split <;> simp
  rw [pointed, pointed, hcontains, hwrite]
  split <;> split <;> simp

theorem pointed_magnitude (d : Dyadic) : ∃ v, Decimal.Fixed (pointed (magnitude d)).toList v := by
  by_cases h : d.mantissa = 0
  · exact ⟨0, pointed_zero h⟩
  · exact ⟨_, pointed_positive h⟩

theorem lexes_float {x : Float} {left : List Char} {ts : List Token} (hx : x.isFinite = true)
    (stop : EndsNumber left) (next : Lexes left ts) :
    Lexes ((pointed (Decimal.plainLayout.write x)).toList ++ left)
      ((Value.float x).literalTokens ++ ts) := by
  rw [← Binary64.decode?_isSome] at hx
  obtain ⟨d, hd⟩ := Option.isSome_iff_exists.1 hx
  have hmagnitude := lexes_magnitude hd stop next
  rw [pointed_write hd, Value.literalTokens, ← decode?_negative hd]
  cases hneg : d.negative with
  | false =>
      rw [hneg] at hmagnitude
      exact hmagnitude
  | true =>
      rw [hneg] at hmagnitude
      exact lexes_minus hmagnitude

/-- A literal is read as its tokens. -/
theorem lexes_literal {v : Value} {s : String} {left : List Char} {ts : List Token}
    (hv : v.faithful = true) (hs : v.expressionLiteral? = some s) (stop : EndsLiteral v left)
    (next : Lexes left ts) : Lexes (s.toList ++ left) (v.literalTokens ++ ts) := by
  cases v with
  | null =>
      obtain rfl := Option.some.inj hs
      exact @lexes_word "NULL".toList _ _ (by decide) (by decide) (by decide) stop next
  | bool b =>
      obtain rfl := Option.some.inj hs
      cases b with
      | true => exact @lexes_word "TRUE".toList _ _ (by decide) (by decide) (by decide) stop next
      | false =>
          exact @lexes_word "FALSE".toList _ _ (by decide) (by decide) (by decide) stop next
  | int i =>
      obtain rfl := Option.some.inj hs
      exact lexes_int (by simpa [Value.faithful] using hv) stop next
  | float x =>
      have hx : x.isFinite = true := hv
      rw [Value.expressionLiteral?, if_pos hx] at hs
      obtain rfl := Option.some.inj hs
      exact lexes_float hx stop next
  | string s =>
      obtain rfl := Option.some.inj hs
      have := lexes_string stop next (s := s.toList)
      simpa [escaped, Value.literalTokens] using this
  | array items => cases hv
  | object fields => cases hv

end RowPipeline.Lexer
