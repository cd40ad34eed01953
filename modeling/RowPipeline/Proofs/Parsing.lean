import RowPipeline.Proofs.Literals
import RowPipeline.Expr.Parser
import RowPipeline.Expr.Eval

/-!
# Parameters and literals in expressions

The tokens of an expression are read the same way when parameters give place to literals. A
parameter is an operand, and after an operand no rule goes on with another one, so wherever a
parameter is read, the literal is read in its place. The two expressions have the same value on every
row.
-/

namespace RowPipeline

/-- Whether a token is a number, a text or a parameter. -/
def Token.isOperand : Token → Bool
  | .integer _ | .float _ | .string _ | .param _ => true
  | _ => false

/-- What is read off a text: no end mark and no number below zero. -/
def Token.Written (t : Token) : Prop := t ≠ .eof ∧ t ≠ .integer Int64.minValue

namespace Parser

/-! ## Expressions with the same value -/

/-- Two expressions with one value under the parameters. Neither is the least integer, the one number
that its literal with a sign is not the opposite of. -/
structure Alike (params : Parameters) (e e' : Expr) : Prop where
  eval : ∀ row window, e'.eval ⟨row, some params, window⟩ = e.eval ⟨row, some params, window⟩
  small : e ≠ .literal (.int Int64.minValue)
  small' : e' ≠ .literal (.int Int64.minValue)

variable {params : Parameters}

theorem eval_negate {e : Expr} (h : e ≠ .literal (.int Int64.minValue)) (s : Scope) :
    (negate e).eval s = (Expr.unary .neg e).eval s := by
  unfold negate
  split
  · rename_i i
    have hi : i ≠ Int64.minValue := fun hi => h (by rw [hi])
    have hexact : ScalarFunction.exactInt64? (-i.toInt) = some (-i) := by
      have hrange := Int64.toInt_lt i
      have hlow := Int64.le_toInt i
      have hmin : i.toInt ≠ -2 ^ 63 := fun h => hi (Int64.toInt_inj.1 h)
      have hleast : Int64.minValue.toInt = -2 ^ 63 := rfl
      have hgreatest : Int64.maxValue.toInt = 2 ^ 63 - 1 := rfl
      rw [ScalarFunction.exactInt64?, if_pos, Int64.ofInt_neg, Int64.ofInt_toInt]
      rw [hleast, hgreatest, Bool.and_eq_true, decide_eq_true_eq, decide_eq_true_eq]
      omega
    simp [Expr.eval, Expr.applyUnary, hexact, bind, Except.bind]
  · rfl
  · rfl

/-- The opposite of any integer but the least one is not the least one either. -/
theorem neg_ne_minValue {i : Int64} (h : i ≠ Int64.minValue) : -i ≠ Int64.minValue := by
  intro hneg
  refine h ?_
  rw [← Int64.neg_neg (a := i), hneg]
  rfl

/-- The opposite of any integer but the least one stays in range. -/
theorem toInt_neg_of_ne {i : Int64} (h : i ≠ Int64.minValue) : (-i).toInt = -i.toInt := by
  have hlow := Int64.le_toInt i
  have hhigh := Int64.toInt_lt i
  have hmin : i.toInt ≠ -2 ^ 63 := fun hi => h (Int64.toInt_inj.1 hi)
  rw [Int64.toInt_neg, Int.bmod_eq_of_le] <;> omega

theorem negate_small {e : Expr} (h : e ≠ .literal (.int Int64.minValue)) :
    negate e ≠ .literal (.int Int64.minValue) := by
  unfold negate
  split
  · rename_i i
    have hi : i ≠ Int64.minValue := fun hi => h (by rw [hi])
    simpa using neg_ne_minValue hi
  · simp
  · simp

theorem Alike.negate {e e' : Expr} (h : Alike params e e') :
    Alike params (negate e) (Parser.negate e') where
  eval row window := by
    rw [eval_negate h.small, eval_negate h.small']
    simp only [Expr.eval, h.eval row window]
  small := negate_small h.small
  small' := negate_small h.small'

theorem alike_self {e : Expr} (h : e ≠ .literal (.int Int64.minValue)) : Alike params e e :=
  ⟨fun _ _ => rfl, h, h⟩

section Congruence

variable {e e' l l' r r' low low' high high' : Expr} {es es' : List Expr}
  {branches branches' : List (Expr × Expr)} {o o' : Option Expr}

/-- Optional expressions with the same value. -/
inductive AlikeOption (params : Parameters) : Option Expr → Option Expr → Prop
  | none : AlikeOption params .none .none
  | some {e e' : Expr} (h : Alike params e e') : AlikeOption params (.some e) (.some e')

abbrev AlikeList (params : Parameters) : List Expr → List Expr → Prop :=
  List.Forall₂ (Alike params)

abbrev AlikeBranches (params : Parameters) : List (Expr × Expr) → List (Expr × Expr) → Prop :=
  List.Forall₂ fun b b' => Alike params b.1 b'.1 ∧ Alike params b.2 b'.2

abbrev AlikeKeys (params : Parameters) : List (OrderKey Expr) → List (OrderKey Expr) → Prop :=
  List.Forall₂ fun k k' => Alike params k.expr k'.expr ∧ k.descending = k'.descending

variable (row : Option Row) (window : Nat → Option Value)

theorem evalList_congr (h : AlikeList params es es') :
    Expr.evalList ⟨row, some params, window⟩ es' = Expr.evalList ⟨row, some params, window⟩ es := by
  induction h with
  | nil => rfl
  | cons hd _ ih => simp only [Expr.evalList, hd.eval, ih]

theorem evalMember_congr (v : Value) (h : AlikeList params es es') :
    Expr.evalMember ⟨row, some params, window⟩ v es'
      = Expr.evalMember ⟨row, some params, window⟩ v es := by
  induction h with
  | nil => rfl
  | cons hd _ ih => simp only [Expr.evalMember, hd.eval, ih]

theorem evalBranches_congr (chosen : Value → Bool) (h : AlikeBranches params branches branches') :
    Expr.evalBranches ⟨row, some params, window⟩ chosen branches'
      = Expr.evalBranches ⟨row, some params, window⟩ chosen branches := by
  induction h with
  | nil => rfl
  | @cons b b' _ _ hd _ ih =>
      obtain ⟨whenExpr, thenExpr⟩ := b
      obtain ⟨whenExpr', thenExpr'⟩ := b'
      simp only [Expr.evalBranches, hd.1.eval, hd.2.eval, ih]

theorem evalOption_congr (h : AlikeOption params o o') :
    Expr.evalOption ⟨row, some params, window⟩ o'
      = Expr.evalOption ⟨row, some params, window⟩ o := by
  cases h with
  | none => rfl
  | some h => exact h.eval row window

theorem Alike.not (h : Alike params e e') : Alike params (.unary .not e) (.unary .not e') :=
  ⟨fun row window => by simp only [Expr.eval, h.eval], by simp, by simp⟩

theorem Alike.binary (op : BinaryOp) (hl : Alike params l l') (hr : Alike params r r') :
    Alike params (.binary op l r) (.binary op l' r') :=
  ⟨fun row window => by cases op <;> simp only [Expr.eval, hl.eval, hr.eval], by simp, by simp⟩

theorem Alike.call (f : ScalarFunction) (h : AlikeList params es es') :
    Alike params (.call f es) (.call f es') :=
  ⟨fun row window => by simp only [Expr.eval, evalList_congr row window h], by simp, by simp⟩

theorem alike_aggregate (f : AggregateFunction) : Alike params (.aggregate f o) (.aggregate f o') :=
  ⟨fun _ _ => rfl, by simp, by simp⟩

theorem alike_window (slot : Nat) (spec spec' : WindowSpec Expr) :
    Alike params (.window slot spec) (.window slot spec') :=
  ⟨fun _ _ => rfl, by simp, by simp⟩

theorem alike_case {subject subject' : Option Expr} (hs : AlikeOption params subject subject')
    (hb : AlikeBranches params branches branches') (ho : AlikeOption params o o') :
    Alike params (.case subject branches o) (.case subject' branches' o') := by
  refine ⟨fun row window => ?_, by simp, by simp⟩
  cases hs with
  | none => simp only [Expr.eval, evalBranches_congr row window _ hb, evalOption_congr row window ho]
  | some h =>
      simp only [Expr.eval, h.eval, evalBranches_congr row window _ hb,
        evalOption_congr row window ho]

theorem Alike.inList (negated : Bool) (h : Alike params e e') (hl : AlikeList params es es') :
    Alike params (.inList e es negated) (.inList e' es' negated) :=
  ⟨fun row window => by simp only [Expr.eval, h.eval, evalMember_congr row window _ hl],
    by simp, by simp⟩

theorem Alike.between (negated : Bool) (h : Alike params e e') (hlow : Alike params low low')
    (hhigh : Alike params high high') :
    Alike params (.between e low high negated) (.between e' low' high' negated) :=
  ⟨fun row window => by simp only [Expr.eval, h.eval, hlow.eval, hhigh.eval], by simp, by simp⟩

theorem Alike.like (negated : Bool) (h : Alike params e e') (hp : Alike params l l') :
    Alike params (.like e l negated) (.like e' l' negated) :=
  ⟨fun row window => by simp only [Expr.eval, h.eval, hp.eval], by simp, by simp⟩

theorem Alike.isNull (negated : Bool) (h : Alike params e e') :
    Alike params (.isNull e negated) (.isNull e' negated) :=
  ⟨fun row window => by simp only [Expr.eval, h.eval], by simp, by simp⟩

end Congruence

end Parser

/-! ## Tokens with literals for parameters -/

/-- The value of a parameter whose name both scans read and whose literal stands for it. -/
def Parameters.literal? (params : Parameters) (name : String) : Option Value :=
  if Piece.isName name.toList then (params.get? name).filter Value.faithful else none

/-- The tokens that stand for a token when parameters give place to literals. -/
def Token.fill (params : Parameters) : Token → List Token
  | .param name =>
      match params.literal? name with
      | some v => v.literalTokens
      | none => [.param name]
  | t => [t]

/-- A cursor in front of the filled tokens of another one. -/
structure Filled (params : Parameters) (c c' : Cursor) : Prop where
  tokens : c'.tokens.map Spanned.token = (c.tokens.map Spanned.token).flatMap (Token.fill params)
  slot : c'.slot = c.slot
  written : ∀ s ∈ c.tokens, s.token.Written

/-- The tokens passed over from one place to another, no two operands side by side. -/
inductive Passes : List Spanned → List Spanned → Prop
  | refl (ts : List Spanned) : Passes ts ts
  | step {s : Spanned} {ts us : List Spanned}
      (apart : s.token.isOperand = true → ∀ r ∈ ts.head?, r.token.isOperand = false)
      (next : Passes ts us) : Passes (s :: ts) us

theorem Passes.trans {ts us vs : List Spanned} (h : Passes ts us) (h' : Passes us vs) :
    Passes ts vs := by
  induction h with
  | refl => exact h'
  | step apart _ ih => exact .step apart (ih h')

theorem Passes.suffix {ts us : List Spanned} (h : Passes ts us) : us <:+ ts := by
  induction h with
  | refl => exact List.suffix_rfl
  | step _ _ ih => exact ih.trans (List.suffix_cons _ _)

/-- Whether no operand comes next. -/
def Cursor.Free (c : Cursor) : Prop := c.current.isOperand = false

/-- Marks and keywords are no operands. -/
def Separates (is : Token → Bool) : Prop := ∀ t, is t = true → t.isOperand = false ∧ t ≠ .eof

/-- No literal starts with such a mark or keyword. -/
def Declines (is : Token → Bool) : Prop :=
  ∀ v, ∀ t ∈ (Value.literalTokens v).head?, is t = false

variable {params : Parameters} {c c' c₁ : Cursor}

theorem fill_of_not_param {t : Token} (h : ∀ name, t ≠ .param name) : t.fill params = [t] := by
  cases t <;> first | rfl | exact absurd rfl (h _)

namespace Filled

theorem length_le {d d' : Cursor} (h : Filled params c c') (hd : Filled params d d')
    (hpass : Passes c.tokens d.tokens) : d'.tokens.length ≤ c'.tokens.length := by
  obtain ⟨before, hbefore⟩ := hpass.suffix
  have hd' := congrArg List.length hd.tokens
  have hc' := congrArg List.length h.tokens
  rw [← hbefore] at hc'
  simp only [List.length_map, List.map_append, List.flatMap_append, List.length_append] at hd' hc'
  omega

/-- A token that is no parameter stays. -/
theorem same (h : Filled params c c') (hc : ∀ name, c.current ≠ .param name) :
    c'.current = c.current ∧ Filled params c.advance c'.advance := by
  obtain ⟨tokens, slot, stop⟩ := c
  obtain ⟨tokens', slot', stop'⟩ := c'
  obtain ⟨htokens, hslot, hwritten⟩ := h
  cases tokens with
  | nil =>
      obtain rfl : tokens' = [] := by simpa using htokens
      exact ⟨rfl, rfl, hslot, by simp [Cursor.advance]⟩
  | cons s rest =>
      have hs : s.token.fill params = [s.token] := fill_of_not_param hc
      cases tokens' with
      | nil => simp [hs] at htokens
      | cons s' rest' =>
          simp only [List.map_cons, List.flatMap_cons, hs, List.singleton_append] at htokens
          obtain ⟨hhead, hrest⟩ := List.cons.inj htokens
          exact ⟨hhead, hrest, hslot, fun r hr => hwritten r (List.mem_cons_of_mem _ hr)⟩

end Filled

theorem Cursor.advance_length (h : c.current ≠ .eof) :
    c.advance.tokens.length + 1 = c.tokens.length := by
  obtain ⟨tokens, slot, stop⟩ := c
  cases tokens with
  | nil => exact absurd rfl h
  | cons s rest => rfl

theorem passes_advance (h : c.current.isOperand = true → c.advance.Free) :
    Passes c.tokens c.advance.tokens := by
  obtain ⟨tokens, slot, stop⟩ := c
  cases tokens with
  | nil => exact .refl _
  | cons s rest =>
      refine .step (fun hs r hr => ?_) (.refl _)
      have hfree := h hs
      cases rest with
      | nil => cases hr
      | cons r' more =>
          obtain rfl : r' = r := Option.some.inj hr
          exact hfree

theorem mark?_eq_some {is : Token → Bool} (h : c.mark? is = some c₁) :
    is c.current = true ∧ c₁ = c.advance := by
  rw [Cursor.mark?] at h
  split at h
  · rename_i his
    exact ⟨his, (Option.some.inj h).symm⟩
  · cases h

theorem expectMark_ok {is : Token → Bool} {what : String} (h : c.expectMark is what = .ok c₁) :
    c.mark? is = some c₁ := by
  rw [Cursor.expectMark] at h
  split at h
  · rename_i c₂ hmark
    rw [hmark, Except.ok.inj h]
  · cases h

theorem literal?_eq_some {name : String} {v : Value} (h : params.literal? name = some v) :
    v.faithful = true ∧ params.get? name = some v := by
  rw [Parameters.literal?] at h
  split at h
  · obtain ⟨hget, hv⟩ := Option.filter_eq_some_iff.1 h
    exact ⟨hv, hget⟩
  · cases h

/-- In place of a parameter stand the tokens of its literal. -/
theorem Filled.literal {name : String} {v : Value} (h : Filled params c c')
    (hc : c.current = .param name) (hv : params.literal? name = some v) :
    c'.tokens.map Spanned.token
      = v.literalTokens ++ (c.advance.tokens.map Spanned.token).flatMap (Token.fill params) := by
  obtain ⟨tokens, slot, stop⟩ := c
  cases tokens with
  | nil => cases hc
  | cons s rest =>
      have hs : s.token = .param name := hc
      rw [h.tokens, List.map_cons, List.flatMap_cons, hs, Token.fill, hv]
      rfl

theorem Filled.unfilled {name : String} (h : Filled params c c') (hc : c.current = .param name)
    (hv : params.literal? name = none) :
    c'.current = .param name ∧ Filled params c.advance c'.advance := by
  obtain ⟨tokens, slot, stop⟩ := c
  obtain ⟨tokens', slot', stop'⟩ := c'
  obtain ⟨htokens, hslot, hwritten⟩ := h
  cases tokens with
  | nil => cases hc
  | cons s rest =>
      have hs : s.token = .param name := hc
      cases tokens' with
      | nil => simp [hs, Token.fill, hv] at htokens
      | cons s' rest' =>
          simp only [List.map_cons, List.flatMap_cons, hs, Token.fill, hv,
            List.singleton_append] at htokens
          obtain ⟨hhead, hrest⟩ := List.cons.inj htokens
          exact ⟨hhead, hrest, hslot, fun r hr => hwritten r (List.mem_cons_of_mem _ hr)⟩

theorem literalTokens_ne_nil {v : Value} (h : v.faithful = true) : v.literalTokens ≠ [] := by
  cases v with
  | int i => rw [Value.literalTokens]; split <;> simp
  | float x => rw [Value.literalTokens]; split <;> simp
  | array items => cases h
  | object fields => cases h
  | _ => simp [Value.literalTokens]

theorem current_of_tokens {t : Token} {ts : List Token}
    (h : c.tokens.map Spanned.token = t :: ts) :
    c.current = t ∧ c.advance.tokens.map Spanned.token = ts ∧ c.advance.slot = c.slot := by
  obtain ⟨tokens, slot, stop⟩ := c
  cases tokens with
  | nil => cases h
  | cons s rest =>
      obtain ⟨hhead, hrest⟩ := List.cons.inj h
      exact ⟨hhead, hrest, rfl⟩

theorem Filled.declines {is : Token → Bool} (his : Declines is) (h : Filled params c c')
    (hno : is c.current = false) : is c'.current = false := by
  by_cases hparam : ∃ name, c.current = .param name
  · obtain ⟨name, hname⟩ := hparam
    cases hv : params.literal? name with
    | none =>
        rw [(h.unfilled hname hv).1, ← hname]
        exact hno
    | some v =>
        have htokens := h.literal hname hv
        cases hlit : v.literalTokens with
        | nil => exact absurd hlit (literalTokens_ne_nil (literal?_eq_some hv).1)
        | cons t ts =>
            rw [hlit] at htokens
            rw [(current_of_tokens htokens).1]
            exact his v t (by simp [hlit])
  · rw [(h.same fun name hname => hparam ⟨name, hname⟩).1]
    exact hno

theorem mark?_eq_none {is : Token → Bool} : c.mark? is = none ↔ is c.current = false := by
  rw [Cursor.mark?]
  split <;> simp_all

theorem declines_of {is : Token → Bool} (hint : ∀ i, is (.integer i) = false)
    (hfloat : ∀ x, is (.float x) = false) (hstring : ∀ s, is (.string s) = false)
    (hminus : is .minus = false) (hnull : is (.ident "NULL") = false)
    (htrue : is (.ident "TRUE") = false) (hfalse : is (.ident "FALSE") = false) : Declines is := by
  intro v t ht
  cases v with
  | null =>
      obtain rfl := Option.some.inj ht
      exact hnull
  | bool b =>
      obtain rfl := Option.some.inj ht
      cases b with
      | true => exact htrue
      | false => exact hfalse
  | int i =>
      rw [Value.literalTokens] at ht
      split at ht <;> obtain rfl := Option.some.inj ht
      · exact hminus
      · exact hint _
  | float x =>
      rw [Value.literalTokens] at ht
      split at ht <;> obtain rfl := Option.some.inj ht
      · exact hminus
      · exact hfloat _
  | string s =>
      obtain rfl := Option.some.inj ht
      exact hstring s
  | array items => cases ht
  | object fields => cases ht

theorem separates_of {is : Token → Bool} (h : ∀ t, t.isOperand = true → is t = false)
    (heof : is .eof = false) : Separates is := by
  intro t ht
  refine ⟨Bool.eq_false_iff.2 fun ho => ?_, fun he => ?_⟩
  · rw [h t ho] at ht
    cases ht
  · rw [he, heof] at ht
    cases ht

theorem separates_keyword (word : String) : Separates (Token.isKeyword word) :=
  separates_of (fun t ht => by cases t <;> first | rfl | cases ht) rfl

theorem declines_keyword {word : String} (hnull : Text.sameIgnoringCase "NULL" word = false)
    (htrue : Text.sameIgnoringCase "TRUE" word = false)
    (hfalse : Text.sameIgnoringCase "FALSE" word = false) : Declines (Token.isKeyword word) :=
  declines_of (fun _ => rfl) (fun _ => rfl) (fun _ => rfl) rfl hnull htrue hfalse

theorem separates_isOr : Separates Token.isOr :=
  separates_of (fun t ht => by cases t <;> first | rfl | cases ht) rfl

theorem separates_isAnd : Separates Token.isAnd :=
  separates_of (fun t ht => by cases t <;> first | rfl | cases ht) rfl

theorem separates_isNot : Separates Token.isNot :=
  separates_of (fun t ht => by cases t <;> first | rfl | cases ht) rfl

theorem separates_isLParen : Separates Token.isLParen :=
  separates_of (fun t ht => by cases t <;> first | rfl | cases ht) rfl

theorem separates_isRParen : Separates Token.isRParen :=
  separates_of (fun t ht => by cases t <;> first | rfl | cases ht) rfl

theorem separates_isComma : Separates Token.isComma :=
  separates_of (fun t ht => by cases t <;> first | rfl | cases ht) rfl

theorem declines_isNot : Declines Token.isNot :=
  declines_of (fun _ => rfl) (fun _ => rfl) (fun _ => rfl) rfl (by decide) (by decide) (by decide)

theorem declines_isRParen : Declines Token.isRParen :=
  declines_of (fun _ => rfl) (fun _ => rfl) (fun _ => rfl) rfl rfl rfl rfl

end RowPipeline
