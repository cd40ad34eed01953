import RowPipeline.Proofs.Grammar
import RowPipeline.Proofs.SubstitutedExpressions

/-!
# What the parser reads, the grammar derives

Every parsing function takes the tokens of a phrase off the cursor. One step of each is settled on the
steps of the others, so all of them follow together by induction on the fuel.
-/

namespace RowPipeline

/-- The tokens in front of a cursor. -/
def Cursor.ahead (c : Cursor) : List Token := c.tokens.map Spanned.token

namespace Grammar

open RowPipeline.Parser

/-! ## The functions of a level -/

namespace Level

/-- How an expression of a level is read. -/
def read : Level → Nat → Reader Expr
  | .or => parseOr
  | .and => parseAnd
  | .not => parseNot
  | .comparison => parseComparison
  | .additive => parseAdditive
  | .multiplicative => parseMultiplicative
  | .unary => parseUnary
  | .primary => parsePrimary

/-- How a level goes on behind an operand. -/
def tail : Level → Nat → Expr → Reader Expr
  | .or => orTail
  | .and => andTail
  | .comparison => comparisonTail
  | .additive => additiveTail
  | .multiplicative => multiplicativeTail
  | .not | .unary | .primary => fun _ e c => .ok (e, c)

/-- Whether a level has operators between operands. -/
def isChain : Level → Bool
  | .not | .unary | .primary => false
  | _ => true

variable {ℓ : Level} {op : BinaryOp} {c : Cursor}

theorem read_succ (h : ℓ.isChain = true) (n : Nat) (c : Cursor) :
    ℓ.read (n + 1) c = ℓ.next.read n c >>= fun r => ℓ.tail n r.1 r.2 := by
  cases ℓ <;> first | rfl | cases h

theorem read_zero (ℓ : Level) (c : Cursor) : ℓ.read 0 c = .error (exhausted c) := by
  cases ℓ with
  | or => exact parseOr.eq_1 c
  | and => exact parseAnd.eq_1 c
  | not => exact parseNot.eq_1 c
  | comparison => exact parseComparison.eq_1 c
  | additive => exact parseAdditive.eq_1 c
  | multiplicative => exact parseMultiplicative.eq_1 c
  | unary => exact parseUnary.eq_1 c
  | primary => exact parsePrimary.eq_1 c

theorem tail_other (h : ℓ.isChain = false) (n : Nat) (e : Expr) (c : Cursor) :
    ℓ.tail n e c = .ok (e, c) := by
  cases ℓ <;> first | rfl | cases h

theorem tail_zero (h : ℓ.isChain = true) (e : Expr) (r : Expr × Cursor) :
    ℓ.tail 0 e c ≠ .ok r := by
  cases ℓ with
  | or => exact orChain.tail_zero e c r
  | and => exact andChain.tail_zero e c r
  | comparison =>
      show comparisonTail 0 e c ≠ .ok r
      rw [comparisonTail]
      simp
  | additive => exact additiveChain.tail_zero e c r
  | multiplicative => exact multiplicativeChain.tail_zero e c r
  | not | unary | primary => cases h

/-- Behind an operator stands an operand of the next level, and the chain goes on. -/
theorem tail_join (h : ℓ.joins c.current = some op) (n : Nat) (l : Expr) :
    ℓ.tail (n + 1) l c
      = ℓ.next.read n c.advance >>= fun r => ℓ.tail n (.binary op l r.1) r.2 := by
  cases ℓ with
  | or =>
      have hop : (if c.current.isOr then some BinaryOp.or else none) = some op := h
      exact (orChain.tail_succ n l c).trans (by simp only [choose, hop]; rfl)
  | and =>
      have hop : (if c.current.isAnd then some BinaryOp.and else none) = some op := h
      exact (andChain.tail_succ n l c).trans (by simp only [choose, hop]; rfl)
  | comparison =>
      have hop : c.current.comparison? = some op := h
      exact (comparisonTail_succ n l c).trans (by simp only [choose, hop]; rfl)
  | additive =>
      have hop : c.current.additive? = some op := h
      exact (additiveChain.tail_succ n l c).trans (by simp only [choose, hop]; rfl)
  | multiplicative =>
      have hop : c.current.multiplicative? = some op := h
      exact (multiplicativeChain.tail_succ n l c).trans (by simp only [choose, hop]; rfl)
  | not | unary | primary => cases h

/-- A chain without predicates ends where no operator stands. -/
theorem tail_end (hℓ : ℓ ≠ .comparison) (h : ℓ.joins c.current = none) (n : Nat) (l : Expr) :
    ℓ.tail (n + 1) l c = .ok (l, c) := by
  cases ℓ with
  | or =>
      have hop : (if c.current.isOr then some BinaryOp.or else none) = none := h
      exact (orChain.tail_succ n l c).trans (by simp only [choose, hop])
  | and =>
      have hop : (if c.current.isAnd then some BinaryOp.and else none) = none := h
      exact (andChain.tail_succ n l c).trans (by simp only [choose, hop])
  | comparison => exact absurd rfl hℓ
  | additive =>
      have hop : c.current.additive? = none := h
      exact (additiveChain.tail_succ n l c).trans (by simp only [choose, hop])
  | multiplicative =>
      have hop : c.current.multiplicative? = none := h
      exact (multiplicativeChain.tail_succ n l c).trans (by simp only [choose, hop])
  | not | unary | primary => rfl

theorem joins_ne_eof {t : Token} (h : ℓ.joins t = some op) : t ≠ .eof := by
  rintro rfl
  cases ℓ <;> cases h

end Level

/-! ## Tokens taken off a cursor -/

variable {fuel s : Nat} {c c' c₁ : Cursor} {ts : List Token} {is : Token → Bool} {what : String}
  {ℓ : Level} {e l : Expr}

theorem ahead_advance (h : c.current ≠ .eof) : c.ahead = c.current :: c.advance.ahead := by
  obtain ⟨tokens, slot, stop⟩ := c
  cases tokens with
  | nil => exact absurd rfl h
  | cons s rest => rfl

theorem ahead_mark (separates : Separates is) (h : c.mark? is = some c₁) :
    ∃ t, is t = true ∧ c.ahead = t :: c₁.ahead ∧ c₁.slot = c.slot := by
  obtain ⟨hcurrent, rfl⟩ := mark?_eq_some h
  exact ⟨c.current, hcurrent, ahead_advance (separates _ hcurrent).2, rfl⟩

theorem ahead_expect (separates : Separates is) (h : c.expectMark is what = .ok c₁) :
    ∃ t, is t = true ∧ c.ahead = t :: c₁.ahead ∧ c₁.slot = c.slot :=
  ahead_mark separates (expectMark_ok h)

theorem eq_lparen {t : Token} (h : t.isLParen = true) : t = .lparen := by
  cases t <;> first | rfl | cases h

theorem eq_rparen {t : Token} (h : t.isRParen = true) : t = .rparen := by
  cases t <;> first | rfl | cases h

theorem eq_comma {t : Token} (h : t.isComma = true) : t = .comma := by
  cases t <;> first | rfl | cases h

theorem eq_star {t : Token} (h : t.isStar = true) : t = .star := by
  cases t <;> first | rfl | cases h

theorem ahead_rparen (h : c.expectMark Token.isRParen what = .ok c₁) :
    c.ahead = .rparen :: c₁.ahead ∧ c₁.slot = c.slot := by
  obtain ⟨t, ht, hahead, hslot⟩ := ahead_expect separates_isRParen h
  rw [eq_rparen ht] at hahead
  exact ⟨hahead, hslot⟩

theorem ahead_lparen (h : c.expectMark Token.isLParen what = .ok c₁) :
    c.ahead = .lparen :: c₁.ahead ∧ c₁.slot = c.slot := by
  obtain ⟨t, ht, hahead, hslot⟩ := ahead_expect separates_isLParen h
  rw [eq_lparen ht] at hahead
  exact ⟨hahead, hslot⟩

/-- A keyword that may be left out. -/
theorem ahead_optional (word : String) (c : Cursor) :
    (Parser.optional (Token.isKeyword word) c = (false, c) ∧ c.current.isKeyword word = false) ∨
      ∃ t c₁, Parser.optional (Token.isKeyword word) c = (true, c₁) ∧ t.isKeyword word = true ∧
        c.ahead = t :: c₁.ahead ∧ c₁.slot = c.slot := by
  cases hmark : c.mark? (Token.isKeyword word) with
  | none => exact .inl ⟨by simp only [Parser.optional, hmark], mark?_eq_none.1 hmark⟩
  | some c₁ =>
      obtain ⟨t, ht, hahead, hslot⟩ := ahead_mark (separates_keyword word) hmark
      exact .inr ⟨t, c₁, by simp only [Parser.optional, hmark], ht, hahead, hslot⟩

/-- A phrase stands between two places. -/
def Yields (c : Cursor) (p : Phrase) (c' : Cursor) : Prop :=
  ∃ ts, c.ahead = ts ++ c'.ahead ∧ Derives c.slot ts p c'.slot

/-- What has been read as `ts` goes on to an expression of the level. -/
def GoesOn (s : Nat) (ts : List Token) (ℓ : Level) (c : Cursor) (e : Expr) (c' : Cursor) : Prop :=
  ∃ us, c.ahead = us ++ c'.ahead ∧ Derives s (ts ++ us) (.expr ℓ e) c'.slot

theorem GoesOn.stop (h : Derives s ts (.expr ℓ e) c.slot) : GoesOn s ts ℓ c e c :=
  ⟨[], rfl, by rwa [List.append_nil]⟩

theorem GoesOn.step (vs : List Token) (hahead : c.ahead = vs ++ c₁.ahead)
    (h : GoesOn s (ts ++ vs) ℓ c₁ e c') : GoesOn s ts ℓ c e c' := by
  obtain ⟨us, hus, hderives⟩ := h
  exact ⟨vs ++ us, by rw [hahead, hus, List.append_assoc], by rwa [← List.append_assoc]⟩

/-- What every parsing function reads with some fuel is derived. -/
structure Sound (fuel : Nat) : Prop where
  read : ∀ {ℓ c e c'}, Level.read ℓ fuel c = .ok (e, c') → Yields c (.expr ℓ e) c'
  tail : ∀ {ℓ s ts l c e c'}, Derives s ts (.expr ℓ l) c.slot →
    Level.tail ℓ fuel l c = .ok (e, c') → GoesOn s ts ℓ c e c'
  name : ∀ {name position c e c'}, parseName fuel name position c = .ok (e, c') →
    GoesOn c.slot [.ident name] .primary c e c'
  list : ∀ {c es c'}, parseList fuel c = .ok (es, c') → Yields c (.list es) c'
  items : ∀ {c es c'}, parseItems fuel c = .ok (es, c') → Yields c (.items es) c'
  call : ∀ {name position c e c'}, parseCall fuel name position c = .ok (e, c') →
    GoesOn c.slot [.ident name, .lparen] .primary c e c'
  argument : ∀ {func name position c found arg c'},
    readArgument fuel func name position c = .ok ((found, arg), c') →
    Yields c (.argument func found arg) c'
  overWindow : ∀ {func c e c'}, parseOver fuel func c = .ok (e, c') → Yields c (.overWindow func e) c'
  partitions : ∀ {c es c'}, parsePartitions fuel c = .ok (es, c') → Yields c (.partitions es) c'
  keys : ∀ {c keys c'}, parseOrderKeys fuel c = .ok (keys, c') → Yields c (.keys keys) c'
  case : ∀ {name c e c'}, Text.asciiUpper name = "CASE" → parseCase fuel c = .ok (e, c') →
    GoesOn c.slot [.ident name] .primary c e c'
  branches : ∀ {c branches c'}, parseBranches fuel c = .ok (branches, c') →
    Yields c (.branches branches) c'

/-! ## Chains, signs and negations -/

/-- A chain is an operand of the next level and what goes on behind it. -/
theorem Sound.chain (h : Sound fuel) (hℓ : ℓ.isChain = true)
    (hread : ℓ.read (fuel + 1) c = .ok (e, c')) : Yields c (.expr ℓ e) c' := by
  rw [Level.read_succ hℓ] at hread
  obtain ⟨⟨l, c₁⟩, hleft, hrest⟩ := bind_eq_ok hread
  obtain ⟨ts, hahead, hl⟩ := h.read hleft
  obtain ⟨us, hus, he⟩ := h.tail (.up hl) hrest
  exact ⟨ts ++ us, by rw [hahead, hus, List.append_assoc], he⟩

theorem Sound.join {op : BinaryOp} (h : Sound fuel) (hl : Derives s ts (.expr ℓ l) c.slot)
    (hop : ℓ.joins c.current = some op) (hread : ℓ.tail (fuel + 1) l c = .ok (e, c')) :
    GoesOn s ts ℓ c e c' := by
  rw [Level.tail_join hop] at hread
  obtain ⟨⟨r, c₁⟩, hright, hrest⟩ := bind_eq_ok hread
  obtain ⟨rs, hahead, hr⟩ := h.read hright
  refine .step (c.current :: rs) ?_ (h.tail (.binary hl hop hr) hrest)
  rw [ahead_advance (Level.joins_ne_eof hop), hahead, List.cons_append]

theorem Sound.unary_succ (h : Sound fuel) (hread : parseUnary (fuel + 1) c = .ok (e, c')) :
    Yields c (.expr .unary e) c' := by
  by_cases hminus : c.current = .minus
  · rw [parseUnary_minus hminus] at hread
    obtain ⟨⟨d, c₁⟩, hoperand, hrest⟩ := bind_eq_ok hread
    obtain ⟨rfl, rfl⟩ := Prod.mk.inj (Except.ok.inj hrest)
    obtain ⟨ts, hahead, hd⟩ := h.read (ℓ := .unary) hoperand
    refine ⟨.minus :: ts, ?_, .minus hd⟩
    rw [ahead_advance (by simp [hminus]), hminus, hahead, List.cons_append]
  by_cases hplus : c.current = .plus
  · rw [parseUnary, hplus] at hread
    obtain ⟨ts, hahead, hd⟩ := h.read (ℓ := .unary) hread
    refine ⟨.plus :: ts, ?_, .plus hd⟩
    rw [ahead_advance (by simp [hplus]), hplus, hahead, List.cons_append]
  · rw [parseUnary_operand hminus hplus] at hread
    obtain ⟨ts, hahead, hd⟩ := h.read (ℓ := .primary) hread
    exact ⟨ts, hahead, .up hd⟩

theorem Sound.not_succ (h : Sound fuel) (hread : parseNot (fuel + 1) c = .ok (e, c')) :
    Yields c (.expr .not e) c' := by
  rw [parseNot] at hread
  split at hread
  · rename_i c₁ hmark
    obtain ⟨t, ht, hahead, hslot⟩ := ahead_mark separates_isNot hmark
    obtain ⟨⟨d, c₂⟩, hoperand, hrest⟩ := bind_eq_ok hread
    obtain ⟨rfl, rfl⟩ := Prod.mk.inj (Except.ok.inj hrest)
    obtain ⟨ts, hahead', hd⟩ := h.read (ℓ := .not) hoperand
    refine ⟨t :: ts, by rw [hahead, hahead', List.cons_append], .not ht ?_⟩
    rwa [← hslot]
  · obtain ⟨ts, hahead, hd⟩ := h.read (ℓ := .comparison) hread
    exact ⟨ts, hahead, .up hd⟩

/-! ## Predicates -/

theorem Sound.nullTest (h : Sound fuel) {negated : Bool} {t : Token} {ns : List Token}
    (hl : Derives s ts (.expr .comparison l) c.slot) (hword : t.isKeyword "IS" = true)
    (hnegates : Negates negated ns) (hread : Parser.nullTest fuel l negated c = .ok (e, c')) :
    GoesOn s (ts ++ t :: ns) .comparison c e c' := by
  rw [Parser.nullTest] at hread
  obtain ⟨c₁, hnull, hrest⟩ := bind_eq_ok hread
  obtain ⟨u, hu, hahead, hslot⟩ := ahead_expect (separates_keyword "NULL") hnull
  refine .step [u] hahead (h.tail (ℓ := .comparison) ?_ hrest)
  rw [hslot, List.append_assoc]
  exact .isNull hl hword hnegates hu

/-- A predicate behind its subject `ts` and perhaps NOT. -/
theorem Sound.predicate (h : Sound fuel) {negated : Bool} {ns : List Token}
    (hl : Derives s ts (.expr .comparison l) c.slot) (hnegates : Negates negated ns)
    (hread : Parser.predicate fuel l negated c = .ok (e, c')) :
    GoesOn s (ts ++ ns) .comparison c e c' ∨
      e = l ∧ c' = c ∧ ∀ word ∈ ["IN", "BETWEEN", "LIKE"], c.current.isKeyword word = false := by
  rw [Parser.predicate] at hread
  split at hread
  · rename_i c₁ hmark
    obtain ⟨t, ht, hahead, hslot⟩ := ahead_mark (separates_keyword "IN") hmark
    obtain ⟨c₂, hparen, hrest⟩ := bind_eq_ok hread
    obtain ⟨hahead₂, hslot₂⟩ := ahead_lparen hparen
    obtain ⟨⟨es, c₃⟩, hlist, hrest⟩ := bind_eq_ok hrest
    obtain ⟨us, hahead₃, hes⟩ := h.list hlist
    refine .inl (.step (t :: .lparen :: us) ?_ (h.tail (ℓ := .comparison) ?_ hrest))
    · rw [hahead, hahead₂, hahead₃, List.cons_append, List.cons_append]
    · rw [List.append_assoc]
      exact .inList hl hnegates ht (by rwa [← hslot, ← hslot₂])
  rename_i hin
  split at hread
  · rename_i c₁ hmark
    obtain ⟨t, ht, hahead, hslot⟩ := ahead_mark (separates_keyword "BETWEEN") hmark
    obtain ⟨⟨low, c₂⟩, hlow, hrest⟩ := bind_eq_ok hread
    obtain ⟨as, hahead₂, hlow⟩ := h.read (ℓ := .additive) hlow
    obtain ⟨c₃, hand, hrest⟩ := bind_eq_ok hrest
    obtain ⟨u, hu, hahead₃, hslot₃⟩ := ahead_expect (separates_keyword "AND") hand
    obtain ⟨⟨high, c₄⟩, hhigh, hrest⟩ := bind_eq_ok hrest
    obtain ⟨bs, hahead₄, hhigh⟩ := h.read (ℓ := .additive) hhigh
    refine .inl (.step (t :: (as ++ u :: bs)) ?_ (h.tail (ℓ := .comparison) ?_ hrest))
    · simp only [hahead, hahead₂, hahead₃, hahead₄, List.cons_append, List.append_assoc]
    · rw [List.append_assoc]
      exact .between hl hnegates ht (by rwa [← hslot]) hu (by rwa [← hslot₃])
  rename_i hbetween
  split at hread
  · rename_i c₁ hmark
    obtain ⟨t, ht, hahead, hslot⟩ := ahead_mark (separates_keyword "LIKE") hmark
    obtain ⟨⟨pattern, c₂⟩, hpattern, hrest⟩ := bind_eq_ok hread
    obtain ⟨ps, hahead₂, hpattern⟩ := h.read (ℓ := .additive) hpattern
    refine .inl (.step (t :: ps) ?_ (h.tail (ℓ := .comparison) ?_ hrest))
    · rw [hahead, hahead₂, List.cons_append]
    · rw [List.append_assoc]
      exact .like hl hnegates ht (by rwa [← hslot])
  · -- none of the three words: the subject is all there is
    rename_i hlike
    obtain ⟨rfl, rfl⟩ := Prod.mk.inj (Except.ok.inj hread)
    exact .inr ⟨rfl, rfl, by
      simp [mark?_eq_none.1 hin, mark?_eq_none.1 hbetween, mark?_eq_none.1 hlike]⟩

/-- NOT is taken only before a predicate. -/
theorem ahead_negation (c : Cursor) :
    (negation c = (false, c)) ∨ ∃ t c₁, negation c = (true, c₁) ∧ t.isKeyword "NOT" = true ∧
      c.ahead = t :: c₁.ahead ∧ c₁.slot = c.slot ∧
      ∃ word ∈ ["IN", "BETWEEN", "LIKE"], c₁.current.isKeyword word = true := by
  rw [negation]
  cases hnegated : c.current.isKeyword "NOT" &&
      ["IN", "BETWEEN", "LIKE"].any fun word => c.second.isKeyword word with
  | false => exact .inl rfl
  | true =>
      obtain ⟨hnot, hword⟩ := Bool.and_eq_true_iff.1 hnegated
      obtain ⟨word, hmem, hword⟩ := List.any_eq_true.1 hword
      refine .inr ⟨c.current, c.advance, rfl, hnot,
        ahead_advance (separates_keyword "NOT" _ hnot).2, rfl, word, hmem, ?_⟩
      rwa [← second_eq]

theorem Sound.comparison_succ (h : Sound fuel)
    (hl : Derives s ts (.expr .comparison l) c.slot)
    (hread : comparisonTail (fuel + 1) l c = .ok (e, c')) : GoesOn s ts .comparison c e c' := by
  cases hop : c.current.comparison? with
  | some op => exact h.join (ℓ := .comparison) hl hop hread
  | none =>
  rw [comparisonTail_succ] at hread
  simp only [choose, hop] at hread
  split at hread
  · rename_i c₁ hmark
    obtain ⟨t, ht, hahead, hslot⟩ := ahead_mark (separates_keyword "IS") hmark
    rw [← hslot] at hl
    refine .step [t] hahead ?_
    rcases ahead_optional "NOT" c₁ with ⟨hno, -⟩ | ⟨u, c₂, hyes, hu, hahead₂, hslot₂⟩
    · rw [hno] at hread
      exact h.nullTest hl ht .no hread
    · rw [hyes] at hread
      refine .step [u] hahead₂ ?_
      rw [List.append_assoc]
      exact h.nullTest (by rwa [hslot₂]) ht (.yes hu) hread
  · rcases ahead_negation c with hno | ⟨t, c₁, hyes, ht, hahead, hslot, word, hmem, hword⟩
    · rw [hno] at hread
      rcases h.predicate hl .no hread with hgoes | ⟨rfl, rfl, -⟩
      · rwa [List.append_nil] at hgoes
      · exact .stop hl
    · rw [hyes] at hread
      refine .step [t] hahead ?_
      rcases h.predicate (by rwa [hslot]) (.yes ht) hread with hgoes | ⟨-, -, hnone⟩
      · exact hgoes
      · -- NOT was taken because of the word behind it, so a NOT alone is never lost
        rw [hnone word hmem] at hword
        cases hword

theorem Sound.tail_succ (h : Sound fuel) (hl : Derives s ts (.expr ℓ l) c.slot)
    (hread : ℓ.tail (fuel + 1) l c = .ok (e, c')) : GoesOn s ts ℓ c e c' := by
  by_cases hcomparison : ℓ = .comparison
  · subst hcomparison
    exact h.comparison_succ hl hread
  cases hop : ℓ.joins c.current with
  | some op => exact h.join hl hop hread
  | none =>
      rw [Level.tail_end hcomparison hop] at hread
      obtain ⟨rfl, rfl⟩ := Prod.mk.inj (Except.ok.inj hread)
      exact .stop hl

/-! ## Lists -/

theorem Sound.items_succ (h : Sound fuel) {es : List Expr}
    (hread : parseItems (fuel + 1) c = .ok (es, c')) : Yields c (.items es) c' := by
  rw [parseItems] at hread
  obtain ⟨⟨e, c₁⟩, hitem, hrest⟩ := bind_eq_ok hread
  obtain ⟨ts, hahead, he⟩ := h.read (ℓ := .or) hitem
  dsimp only at hrest
  split at hrest
  · rename_i c₂ hmark
    obtain ⟨t, ht, hahead₂, hslot⟩ := ahead_mark separates_isRParen hmark
    obtain ⟨rfl, rfl⟩ := Prod.mk.inj (Except.ok.inj hrest)
    refine ⟨ts ++ [.rparen], ?_, .itemsLast (by rwa [hslot])⟩
    rw [hahead, hahead₂, eq_rparen ht, List.append_assoc, List.singleton_append]
  · obtain ⟨c₂, hcomma, hrest⟩ := bind_eq_ok hrest
    obtain ⟨t, ht, hahead₂, hslot⟩ := ahead_expect separates_isComma hcomma
    obtain ⟨⟨es, c₃⟩, hmore, hrest⟩ := bind_eq_ok hrest
    obtain ⟨us, hahead₃, hes⟩ := h.items hmore
    obtain ⟨rfl, rfl⟩ := Prod.mk.inj (Except.ok.inj hrest)
    refine ⟨ts ++ .comma :: us, ?_, .itemsMore he (by rwa [← hslot])⟩
    simp only [hahead, hahead₂, hahead₃, eq_comma ht, List.append_assoc, List.cons_append]

theorem Sound.list_succ (h : Sound fuel) {es : List Expr}
    (hread : parseList (fuel + 1) c = .ok (es, c')) : Yields c (.list es) c' := by
  rw [parseList] at hread
  split at hread
  · rename_i c₁ hmark
    obtain ⟨t, ht, hahead, hslot⟩ := ahead_mark separates_isRParen hmark
    obtain ⟨rfl, rfl⟩ := Prod.mk.inj (Except.ok.inj hread)
    refine ⟨[.rparen], by rw [hahead, eq_rparen ht, List.singleton_append], ?_⟩
    rw [hslot]
    exact .listNone
  · obtain ⟨ts, hahead, hes⟩ := h.items hread
    exact ⟨ts, hahead, .listSome hes⟩

theorem Sound.partitions_succ (h : Sound fuel) {es : List Expr}
    (hread : parsePartitions (fuel + 1) c = .ok (es, c')) : Yields c (.partitions es) c' := by
  rw [parsePartitions] at hread
  obtain ⟨⟨e, c₁⟩, hitem, hrest⟩ := bind_eq_ok hread
  obtain ⟨ts, hahead, he⟩ := h.read (ℓ := .additive) hitem
  dsimp only at hrest
  split at hrest
  · rename_i c₂ hmark
    obtain ⟨t, ht, hahead₂, hslot⟩ := ahead_mark separates_isComma hmark
    obtain ⟨⟨es, c₃⟩, hmore, hrest⟩ := bind_eq_ok hrest
    obtain ⟨us, hahead₃, hes⟩ := h.partitions hmore
    obtain ⟨rfl, rfl⟩ := Prod.mk.inj (Except.ok.inj hrest)
    refine ⟨ts ++ .comma :: us, ?_, .partitionsMore he (by rwa [← hslot])⟩
    simp only [hahead, hahead₂, hahead₃, eq_comma ht, List.append_assoc, List.cons_append]
  · obtain ⟨rfl, rfl⟩ := Prod.mk.inj (Except.ok.inj hrest)
    exact ⟨ts, hahead, .partitionsLast he⟩

/-- The direction of a key, if it is there. -/
theorem ahead_direction (c : Cursor) :
    ∃ ds, Directs (direction c).1 ds ∧ c.ahead = ds ++ (direction c).2.ahead ∧
      (direction c).2.slot = c.slot := by
  rw [direction_eq]
  cases hdesc : c.current.isKeyword "DESC" with
  | true => exact ⟨[c.current], .descending hdesc, ahead_advance (separates_keyword _ _ hdesc).2, rfl⟩
  | false =>
      rcases ahead_optional "ASC" c with ⟨hno, -⟩ | ⟨t, c₁, hyes, ht, hahead, hslot⟩
      · rw [hno]
        exact ⟨[], .implied, rfl, rfl⟩
      · rw [hyes]
        exact ⟨[t], .ascending ht, hahead, hslot⟩

theorem Sound.keys_succ (h : Sound fuel) {keys : List (OrderKey Expr)}
    (hread : parseOrderKeys (fuel + 1) c = .ok (keys, c')) : Yields c (.keys keys) c' := by
  rw [parseOrderKeys_succ] at hread
  obtain ⟨⟨e, c₁⟩, hitem, hrest⟩ := bind_eq_ok hread
  obtain ⟨ts, hahead, he⟩ := h.read (ℓ := .additive) hitem
  obtain ⟨ds, hdirects, hahead₂, hslot₂⟩ := ahead_direction c₁
  dsimp only [keysFrom] at hrest
  split at hrest
  · rename_i c₂ hmark
    obtain ⟨t, ht, hahead₃, hslot₃⟩ := ahead_mark separates_isComma hmark
    obtain ⟨⟨keys, c₃⟩, hmore, hrest⟩ := bind_eq_ok hrest
    obtain ⟨us, hahead₄, hkeys⟩ := h.keys hmore
    obtain ⟨rfl, rfl⟩ := Prod.mk.inj (Except.ok.inj hrest)
    refine ⟨ts ++ (ds ++ .comma :: us), ?_, .keysMore he hdirects (by rwa [← hslot₂, ← hslot₃])⟩
    simp only [hahead, hahead₂, hahead₃, hahead₄, eq_comma ht, List.append_assoc, List.cons_append]
  · obtain ⟨rfl, rfl⟩ := Prod.mk.inj (Except.ok.inj hrest)
    refine ⟨ts ++ ds, by rw [hahead, hahead₂, List.append_assoc], ?_⟩
    exact .keysLast (by rwa [hslot₂]) hdirects

/-! ## Windows and calls -/

/-- A list behind a keyword and BY, or nothing. -/
theorem ahead_clause {α : Type} {word : String} {f : Reader (List α)} {as : List α}
    (hread : clause word f c = .ok (as, c')) :
    (as = [] ∧ c' = c) ∨ ∃ t u c₁, t.isKeyword word = true ∧ u.isKeyword "BY" = true ∧
      c.ahead = t :: u :: c₁.ahead ∧ c₁.slot = c.slot ∧ f c₁ = .ok (as, c') := by
  rw [clause] at hread
  split at hread
  · rename_i c₁ hmark
    obtain ⟨t, ht, hahead, hslot⟩ := ahead_mark (separates_keyword word) hmark
    obtain ⟨c₂, hby, hrest⟩ := bind_eq_ok hread
    obtain ⟨u, hu, hahead₂, hslot₂⟩ := ahead_expect (separates_keyword "BY") hby
    exact .inr ⟨t, u, c₂, ht, hu, by rw [hahead, hahead₂], hslot₂.trans hslot, hrest⟩
  · obtain ⟨rfl, rfl⟩ := Prod.mk.inj (Except.ok.inj hread)
    exact .inl ⟨rfl, rfl⟩

theorem Sound.partitionClause (h : Sound fuel) {es : List Expr}
    (hread : clause "PARTITION" (parsePartitions fuel) c = .ok (es, c')) :
    Yields c (.partitionClause es) c' := by
  rcases ahead_clause hread with ⟨rfl, rfl⟩ | ⟨t, u, c₁, ht, hu, hahead, hslot, hrest⟩
  · exact ⟨[], rfl, .partitionNone⟩
  · obtain ⟨ts, hahead₂, hes⟩ := h.partitions hrest
    refine ⟨t :: u :: ts, by rw [hahead, hahead₂]; rfl, .partitionSome ht hu ?_⟩
    rwa [← hslot]

theorem Sound.orderClause (h : Sound fuel) {keys : List (OrderKey Expr)}
    (hread : clause "ORDER" (parseOrderKeys fuel) c = .ok (keys, c')) :
    Yields c (.orderClause keys) c' := by
  rcases ahead_clause hread with ⟨rfl, rfl⟩ | ⟨t, u, c₁, ht, hu, hahead, hslot, hrest⟩
  · exact ⟨[], rfl, .orderNone⟩
  · obtain ⟨ts, hahead₂, hkeys⟩ := h.keys hrest
    refine ⟨t :: u :: ts, by rw [hahead, hahead₂]; rfl, .orderSome ht hu ?_⟩
    rwa [← hslot]

theorem Sound.over_succ (h : Sound fuel) {func : WindowFunction Expr}
    (hread : parseOver (fuel + 1) func c = .ok (e, c')) : Yields c (.overWindow func e) c' := by
  rw [parseOver_succ] at hread
  obtain ⟨c₁, hparen, hrest⟩ := bind_eq_ok hread
  obtain ⟨hahead₁, hslot₁⟩ := ahead_lparen hparen
  obtain ⟨⟨partitions, c₂⟩, hpartitions, hrest⟩ := bind_eq_ok hrest
  obtain ⟨ps, hahead₂, hpartitions⟩ := h.partitionClause hpartitions
  obtain ⟨⟨keys, c₃⟩, hkeys, hrest⟩ := bind_eq_ok hrest
  obtain ⟨os, hahead₃, hkeys⟩ := h.orderClause hkeys
  obtain ⟨c₄, hclose, hrest⟩ := bind_eq_ok hrest
  obtain ⟨hahead₄, hslot₄⟩ := ahead_rparen hclose
  obtain ⟨rfl, rfl⟩ := Prod.mk.inj (Except.ok.inj hrest)
  refine ⟨.lparen :: (ps ++ (os ++ [.rparen])), ?_, ?_⟩
  · simp only [hahead₁, hahead₂, hahead₃, hahead₄, List.cons_append, List.append_assoc,
      List.nil_append]
    rfl
  · -- the window is numbered behind the windows of its own lists
    show Derives c.slot _ (.overWindow func (.window c₄.slot _)) (c₄.slot + 1)
    rw [hslot₄]
    exact .overWindow (by rwa [← hslot₁]) hkeys

theorem Sound.argument_succ (h : Sound fuel) {func found : AggregateFunction} {name : String}
    {position : Nat} {arg : Option Expr}
    (hread : readArgument (fuel + 1) func name position c = .ok ((found, arg), c')) :
    Yields c (.argument func found arg) c' := by
  rw [readArgument_succ] at hread
  split at hread
  · rename_i hstar
    obtain ⟨hcount, hstar⟩ := Bool.and_eq_true_iff.1 hstar
    obtain ⟨c₁, hclose, hrest⟩ := bind_eq_ok hread
    obtain ⟨hahead, hslot⟩ := ahead_rparen hclose
    cases hrest
    -- COUNT alone counts rows: behind any other name a star is no argument
    obtain rfl : func = .count := by simpa using hcount
    refine ⟨[.star, .rparen], ?_, ?_⟩
    · rw [ahead_advance (separates_isStar _ hstar).2, eq_star hstar, hahead]
      rfl
    · rw [hslot]
      exact .star
  · rcases ahead_optional "DISTINCT" c with ⟨hno, hother⟩ | ⟨t, c₁, hyes, ht, hahead, hslot⟩
    · rw [hno] at hread
      obtain ⟨⟨e, c₂⟩, hitem, hrest⟩ := bind_eq_ok hread
      obtain ⟨ts, hahead₂, he⟩ := h.read (ℓ := .or) hitem
      obtain ⟨c₃, hclose, hrest⟩ := bind_eq_ok hrest
      obtain ⟨hahead₃, hslot₃⟩ := ahead_rparen hclose
      cases hrest
      refine ⟨ts ++ [.rparen], by rw [hahead₂, hahead₃, List.append_assoc]; rfl, ?_⟩
      refine .plain (by rwa [hslot₃]) fun t ht => ?_
      -- the first token of the argument is the one that is no DISTINCT
      obtain ⟨t', us, rfl, -⟩ := he.begun
      obtain rfl : t' = t := Option.some.inj ht
      have hfirst : c.tokens.map Spanned.token = t' :: (us ++ c₂.ahead) := hahead₂
      rw [← (current_of_tokens hfirst).1]
      exact hother
    · rw [hyes] at hread
      obtain ⟨⟨e, c₂⟩, hitem, hrest⟩ := bind_eq_ok hread
      obtain ⟨ts, hahead₂, he⟩ := h.read (ℓ := .or) hitem
      obtain ⟨c₃, hclose, hrest⟩ := bind_eq_ok hrest
      obtain ⟨hahead₃, hslot₃⟩ := ahead_rparen hclose
      dsimp only at hrest
      rw [if_pos rfl] at hrest
      split at hrest
      · rename_i hcount
        cases hrest
        subst hcount
        refine ⟨t :: (ts ++ [.rparen]), ?_, .distinct ht (by rwa [hslot₃, ← hslot])⟩
        rw [hahead, hahead₂, hahead₃, List.cons_append, List.append_assoc]
        rfl
      · cases hrest

theorem Sound.call_succ (h : Sound fuel) {name : String} {position : Nat}
    (hread : parseCall (fuel + 1) name position c = .ok (e, c')) :
    GoesOn c.slot [.ident name, .lparen] .primary c e c' := by
  cases hranking : rankingOfName? (Text.asciiUpper name) with
  | some func =>
      rw [parseCall_ranking hranking] at hread
      obtain ⟨c₁, hclose, hrest⟩ := bind_eq_ok hread
      obtain ⟨hahead, hslot⟩ := ahead_rparen hclose
      split at hrest
      · rename_i c₂ hmark
        obtain ⟨t, ht, hahead₂, hslot₂⟩ := ahead_mark (separates_keyword "OVER") hmark
        obtain ⟨us, hahead₃, he⟩ := h.overWindow hrest
        refine ⟨.rparen :: t :: us, by rw [hahead, hahead₂, hahead₃]; rfl, ?_⟩
        exact .ranking hranking ht (by rwa [← hslot, ← hslot₂])
      · -- a ranking without OVER is refused
        cases hrest
  | none =>
  cases haggregate : aggregateOfSqlName? (Text.asciiUpper name) with
  | some func =>
      rw [parseCall_aggregate hranking haggregate] at hread
      obtain ⟨⟨⟨found, arg⟩, c₁⟩, hargument, hrest⟩ := bind_eq_ok hread
      obtain ⟨ts, hahead, hargument⟩ := h.argument hargument
      dsimp only [closeAggregate] at hrest
      split at hrest
      · rename_i c₂ hmark
        obtain ⟨t, ht, hahead₂, hslot₂⟩ := ahead_mark (separates_keyword "OVER") hmark
        obtain ⟨us, hahead₃, he⟩ := h.overWindow hrest
        refine ⟨ts ++ t :: us, by rw [hahead, hahead₂, hahead₃, List.append_assoc]; rfl, ?_⟩
        exact .windowed hranking haggregate hargument ht (by rwa [← hslot₂])
      · cases hrest
        exact ⟨ts, hahead, .aggregate hranking haggregate hargument⟩
  | none =>
  cases hscalar : ScalarFunction.ofName? (Text.asciiUpper name) with
  | none =>
      rw [parseCall] at hread
      simp only [hranking, haggregate, hscalar] at hread
      cases hread
  | some func =>
      rw [parseCall_scalar hranking haggregate hscalar] at hread
      obtain ⟨⟨args, c₁⟩, hlist, hrest⟩ := bind_eq_ok hread
      obtain ⟨ts, hahead, hlist⟩ := h.list hlist
      rw [closeCall] at hrest
      split at hrest
      · rename_i haccepts
        cases hrest
        exact ⟨ts, hahead, .call hranking haggregate hscalar haccepts hlist⟩
      · cases hrest

/-! ## Cases -/

theorem Sound.branches_succ (h : Sound fuel) {branches : List (Expr × Expr)}
    (hread : parseBranches (fuel + 1) c = .ok (branches, c')) :
    Yields c (.branches branches) c' := by
  rw [parseBranches] at hread
  split at hread
  · rename_i c₁ hmark
    obtain ⟨t, ht, hahead, hslot⟩ := ahead_mark (separates_keyword "WHEN") hmark
    obtain ⟨⟨e, c₂⟩, hcondition, hrest⟩ := bind_eq_ok hread
    obtain ⟨cs, hahead₂, he⟩ := h.read (ℓ := .or) hcondition
    obtain ⟨c₃, hthen, hrest⟩ := bind_eq_ok hrest
    obtain ⟨u, hu, hahead₃, hslot₃⟩ := ahead_expect (separates_keyword "THEN") hthen
    obtain ⟨⟨d, c₄⟩, hresult, hrest⟩ := bind_eq_ok hrest
    obtain ⟨rs, hahead₄, hd⟩ := h.read (ℓ := .or) hresult
    obtain ⟨⟨more, c₅⟩, hmore, hrest⟩ := bind_eq_ok hrest
    obtain ⟨us, hahead₅, hmore⟩ := h.branches hmore
    obtain ⟨rfl, rfl⟩ := Prod.mk.inj (Except.ok.inj hrest)
    refine ⟨t :: (cs ++ u :: (rs ++ us)), ?_,
      .branchesMore ht (by rwa [← hslot]) hu (by rwa [← hslot₃]) hmore⟩
    simp only [hahead, hahead₂, hahead₃, hahead₄, hahead₅, List.cons_append, List.append_assoc]
  · obtain ⟨rfl, rfl⟩ := Prod.mk.inj (Except.ok.inj hread)
    exact ⟨[], rfl, .branchesNone⟩

theorem Sound.operand (h : Sound fuel) {operand : Option Expr}
    (hread : caseOperand fuel c = .ok (operand, c')) : Yields c (.operand operand) c' := by
  rw [caseOperand] at hread
  split at hread
  · cases hread
    exact ⟨[], rfl, .operandNone⟩
  · obtain ⟨⟨e, c₁⟩, hitem, hrest⟩ := bind_eq_ok hread
    obtain ⟨ts, hahead, he⟩ := h.read (ℓ := .or) hitem
    cases hrest
    exact ⟨ts, hahead, .operandSome he⟩

theorem Sound.otherwise (h : Sound fuel) {otherwise : Option Expr}
    (hread : caseElse fuel c = .ok (otherwise, c')) : Yields c (.otherwise otherwise) c' := by
  rw [caseElse] at hread
  split at hread
  · rename_i c₁ hmark
    obtain ⟨t, ht, hahead, hslot⟩ := ahead_mark (separates_keyword "ELSE") hmark
    obtain ⟨⟨e, c₂⟩, hitem, hrest⟩ := bind_eq_ok hread
    obtain ⟨ts, hahead₂, he⟩ := h.read (ℓ := .or) hitem
    cases hrest
    exact ⟨t :: ts, by rw [hahead, hahead₂, List.cons_append], .otherwiseSome ht (by rwa [← hslot])⟩
  · cases hread
    exact ⟨[], rfl, .otherwiseNone⟩

theorem Sound.case_succ (h : Sound fuel) {name : String} (hname : Text.asciiUpper name = "CASE")
    (hread : parseCase (fuel + 1) c = .ok (e, c')) :
    GoesOn c.slot [.ident name] .primary c e c' := by
  rw [parseCase_succ] at hread
  obtain ⟨⟨operand, c₁⟩, hoperand, hrest⟩ := bind_eq_ok hread
  obtain ⟨os, hahead, hoperand⟩ := h.operand hoperand
  obtain ⟨⟨branches, c₂⟩, hbranches, hrest⟩ := bind_eq_ok hrest
  obtain ⟨bs, hahead₂, hbranches⟩ := h.branches hbranches
  dsimp only [caseFrom] at hrest
  split at hrest
  · cases hrest
  · rename_i hnonempty
    obtain ⟨⟨otherwise, c₃⟩, hotherwise, hrest⟩ := bind_eq_ok hrest
    obtain ⟨es, hahead₃, hotherwise⟩ := h.otherwise hotherwise
    obtain ⟨c₄, hend, hrest⟩ := bind_eq_ok hrest
    obtain ⟨t, ht, hahead₄, hslot₄⟩ := ahead_expect (separates_keyword "END") hend
    cases hrest
    refine ⟨os ++ (bs ++ (es ++ [t])), ?_, ?_⟩
    · simp only [hahead, hahead₂, hahead₃, hahead₄, List.append_assoc, List.singleton_append]
    · rw [hslot₄]
      exact .case hname hoperand hbranches (by simpa using hnonempty) hotherwise ht

/-! ## Names and operands -/

theorem Sound.name_succ (h : Sound fuel) {name : String} {position : Nat}
    (hread : parseName (fuel + 1) name position c = .ok (e, c')) :
    GoesOn c.slot [.ident name] .primary c e c' := by
  rw [parseName_succ] at hread
  split at hread
  · rename_i hnull
    cases hread
    exact .stop (.atom (by rw [atom?, if_pos hnull]))
  rename_i hnull
  split at hread
  · rename_i htrue
    cases hread
    exact .stop (.atom (by rw [atom?, if_neg hnull, if_pos htrue]))
  rename_i htrue
  split at hread
  · rename_i hfalse
    cases hread
    exact .stop (.atom (by rw [atom?, if_neg hnull, if_neg htrue, if_pos hfalse]))
  rename_i hfalse
  split at hread
  · rename_i hcase
    exact h.case hcase hread
  rename_i hcase
  split at hread
  · rename_i c₁ hmark
    obtain ⟨t, ht, hahead, hslot⟩ := ahead_mark separates_isLParen hmark
    rw [eq_lparen ht] at hahead
    rw [← hslot]
    exact .step [.lparen] hahead (h.call hread)
  split at hread
  · cases hread
  · -- a word that means nothing else names a column
    rename_i hreserved
    cases hread
    refine .stop (.atom ?_)
    rw [atom?, if_neg hnull, if_neg htrue, if_neg hfalse, if_neg]
    simp [fixedWords, hnull, htrue, hfalse, hcase, hreserved]

theorem yields_atom {t : Token} (hcurrent : c.current = t) (hatom : atom? t = some e) :
    Yields c (.expr .primary e) c.advance := by
  refine ⟨[t], ?_, .atom hatom⟩
  rw [ahead_advance, hcurrent, List.singleton_append]
  rintro heof
  rw [← hcurrent, heof] at hatom
  cases hatom

theorem Sound.primary_succ (h : Sound fuel) (hread : parsePrimary (fuel + 1) c = .ok (e, c')) :
    Yields c (.expr .primary e) c' := by
  rw [parsePrimary] at hread
  cases hcurrent : c.current with
  | integer i | float x | string x | param name | quotedIdent name =>
      rw [hcurrent] at hread
      cases hread
      exact yields_atom hcurrent rfl
  | lparen =>
      rw [hcurrent] at hread
      obtain ⟨⟨d, c₁⟩, hinner, hrest⟩ := bind_eq_ok hread
      obtain ⟨ts, hahead, hd⟩ := h.read (ℓ := .or) hinner
      obtain ⟨c₂, hclose, hrest⟩ := bind_eq_ok hrest
      obtain ⟨hahead₂, hslot₂⟩ := ahead_rparen hclose
      cases hrest
      refine ⟨.lparen :: (ts ++ [.rparen]), ?_, .paren (by rwa [hslot₂])⟩
      rw [ahead_advance (by simp [hcurrent]), hcurrent, hahead, hahead₂, List.cons_append,
        List.append_assoc, List.singleton_append]
  | ident name =>
      rw [hcurrent] at hread
      obtain ⟨us, hahead, he⟩ := h.name hread
      refine ⟨.ident name :: us, ?_, he⟩
      rw [ahead_advance (by simp [hcurrent]), hcurrent, hahead, List.cons_append]
  | _ =>
      rw [hcurrent] at hread
      cases hread

/-! ## Any amount of fuel -/

theorem sound_zero : Sound 0 where
  read hread := by
    rw [Level.read_zero] at hread
    cases hread
  tail := @fun ℓ s ts l c e c' hl hread => by
    cases hℓ : ℓ.isChain with
    | true => exact absurd hread (Level.tail_zero hℓ l _)
    | false =>
        rw [Level.tail_other hℓ] at hread
        cases hread
        exact .stop hl
  name hread := by rw [parseName] at hread; cases hread
  list hread := by rw [parseList] at hread; cases hread
  items hread := by rw [parseItems] at hread; cases hread
  call hread := by rw [parseCall] at hread; cases hread
  argument hread := by rw [readArgument, parseAggregateArgument] at hread; cases hread
  overWindow hread := by rw [parseOver] at hread; cases hread
  partitions hread := by rw [parsePartitions] at hread; cases hread
  keys hread := by rw [parseOrderKeys] at hread; cases hread
  case _ hread := by rw [parseCase] at hread; cases hread
  branches hread := by rw [parseBranches] at hread; cases hread

theorem Sound.read_succ (h : Sound fuel) (hread : ℓ.read (fuel + 1) c = .ok (e, c')) :
    Yields c (.expr ℓ e) c' := by
  cases ℓ with
  | not => exact h.not_succ hread
  | unary => exact h.unary_succ hread
  | primary => exact h.primary_succ hread
  | _ => exact h.chain rfl hread

theorem sound (fuel : Nat) : Sound fuel := by
  -- every function calls the others, itself included, with one fuel less
  induction fuel with
  | zero => exact sound_zero
  | succ fuel ih =>
      exact {
        read := ih.read_succ
        tail := ih.tail_succ
        name := ih.name_succ
        list := ih.list_succ
        items := ih.items_succ
        call := ih.call_succ
        argument := ih.argument_succ
        overWindow := ih.over_succ
        partitions := ih.partitions_succ
        keys := ih.keys_succ
        case := ih.case_succ
        branches := ih.branches_succ }

end Grammar

open Grammar RowPipeline.Parser Lexer

/-- What is read off a text is derived from its tokens, which the lexer can have written. -/
theorem derives_of_parse {text : String} {e : Expr} (h : Expr.parse text = .ok e) :
    ∃ ps s, Lexer.tokens text = .ok ps ∧ (∀ p ∈ ps, p.token.Written) ∧
      Derives 0 (ps.map Spanned.token) (.expr .or e) s := by
  obtain ⟨ps, c, htokens, -, hread, hend⟩ := parse_eq_ok.1 h
  obtain ⟨ts, hahead, hderives⟩ := (sound (fuelFor ps.length)).read (ℓ := .or) hread
  have hwritten := tokensFrom_written htokens
  -- the parser stops at the end of the text, and no written token stands for that
  have hrest : c.tokens = [] := by
    refine tokens_of_isEof (fun p hp => ?_) hend
    have hmem : p.token ∈ ts ++ c.ahead := List.mem_append_right _ (List.mem_map_of_mem hp)
    rw [← hahead] at hmem
    obtain ⟨q, hq, hsame⟩ := List.mem_map.1 hmem
    rw [← hsame]
    exact hwritten q hq
  rw [Cursor.ahead, Cursor.ahead, hrest, List.map_nil, List.append_nil] at hahead
  subst hahead
  exact ⟨ps, c.slot, htokens, hwritten, hderives⟩

end RowPipeline
