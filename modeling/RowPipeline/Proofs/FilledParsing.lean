import RowPipeline.Proofs.Outcomes
import RowPipeline.Proofs.Parsing

/-!
# Parsing with literals for parameters

What a parsing function reads off some tokens it reads off the filled tokens as well, with the same
value and with what follows filled too. Each function has its own lemma, on the fuel of one step;
together they say it for every amount of fuel. An operand that is left in front of the cursor is
never taken any more, so only results with something else in front matter.
-/

namespace RowPipeline.Parser

/-- A function that reads something off a cursor and gives back the cursor after it. -/
abbrev Reader (α : Type) := Cursor → Except ExpressionError (α × Cursor)

variable {params : Parameters} {fuel need : Nat} {c c' c₁ : Cursor} {α β γ δ : Type}

/-- What `f` reads off a cursor, `g` reads off the filled one, given fuel for its tokens. -/
def Carries (params : Parameters) (need : Nat) (f : Reader α) (g : Nat → Reader β)
    (related : α → β → Prop) : Prop :=
  ∀ ⦃c c' : Cursor⦄ ⦃a : α⦄ ⦃c₁ : Cursor⦄ ⦃n : Nat⦄, Filled params c c' → f c = .ok (a, c₁) →
    c₁.Free → 16 * c'.tokens.length + need ≤ n →
    ∃ b c₁', g n c' = .ok (b, c₁') ∧ related a b ∧ Filled params c₁ c₁' ∧
      Passes c.tokens c₁.tokens

/-- What `f` is called on comes right behind what was read before: no operand stands there. -/
def Stops (f : Reader α) : Prop :=
  ∀ ⦃c : Cursor⦄ ⦃a : α⦄ ⦃c₁ : Cursor⦄, f c = .ok (a, c₁) → c₁.Free → c.Free

/-- Go on behind a token that is an operator, or right there. -/
def choose (op? : Token → Option γ) (f : γ → Reader α) (f₁ : Reader α) : Reader α := fun c =>
  match op? c.current with
  | some op => f op c.advance
  | none => f₁ c

/-- A primary other than a parameter, whose literal may have a sign. -/
def parseOther (fuel : Nat) : Reader Expr := fun c =>
  match c.current with
  | .param _ => .error (exhausted c)
  | _ => parsePrimary fuel c

/-- An aggregate as its argument settles it, and that argument. -/
def readArgument (fuel : Nat) (func : AggregateFunction) (name : String) (position : Nat) :
    Reader (AggregateFunction × Option Expr) := fun c =>
  (parseAggregateArgument fuel func name position c).map fun r => ((r.1, r.2.1), r.2.2)

/-- Every parsing function carries over from `fuel`. -/
structure Simulated (params : Parameters) (fuel : Nat) : Prop where
  or : Carries params 8 (parseOr fuel) parseOr (Alike params)
  orTail : ∀ {l l'}, Alike params l l' →
    Carries params 1 (orTail fuel l) (fun n => Parser.orTail n l') (Alike params)
  and : Carries params 7 (parseAnd fuel) parseAnd (Alike params)
  andTail : ∀ {l l'}, Alike params l l' →
    Carries params 1 (andTail fuel l) (fun n => Parser.andTail n l') (Alike params)
  not : Carries params 6 (parseNot fuel) parseNot (Alike params)
  comparison : Carries params 5 (parseComparison fuel) parseComparison (Alike params)
  comparisonTail : ∀ {l l'}, Alike params l l' →
    Carries params 1 (comparisonTail fuel l) (fun n => Parser.comparisonTail n l') (Alike params)
  additive : Carries params 4 (parseAdditive fuel) parseAdditive (Alike params)
  additiveTail : ∀ {l l'}, Alike params l l' →
    Carries params 1 (additiveTail fuel l) (fun n => Parser.additiveTail n l') (Alike params)
  multiplicative : Carries params 3 (parseMultiplicative fuel) parseMultiplicative (Alike params)
  multiplicativeTail : ∀ {l l'}, Alike params l l' →
    Carries params 1 (multiplicativeTail fuel l) (fun n => Parser.multiplicativeTail n l')
      (Alike params)
  unary : Carries params 2 (parseUnary fuel) parseUnary (Alike params)
  primary : Carries params 1 (parseOther fuel) parsePrimary (Alike params)
  name : ∀ name position position', Carries params 12 (parseName fuel name position)
    (fun n => parseName n name position') (Alike params)
  list : Carries params 10 (parseList fuel) parseList (AlikeList params)
  items : Carries params 9 (parseItems fuel) parseItems (AlikeList params)
  call : ∀ name position position', Carries params 12 (parseCall fuel name position)
    (fun n => parseCall n name position') (Alike params)
  aggregateArgument : ∀ func name position position', Carries params 9
    (readArgument fuel func name position) (fun n => readArgument n func name position')
    fun a b => a.1 = b.1
  window : ∀ func func', Carries params 1 (parseOver fuel func) (fun n => parseOver n func')
    (Alike params)
  partitions : Carries params 5 (parsePartitions fuel) parsePartitions (AlikeList params)
  orderKeys : Carries params 5 (parseOrderKeys fuel) parseOrderKeys (AlikeKeys params)
  case : Carries params 9 (parseCase fuel) parseCase (Alike params)
  branches : Carries params 1 (parseBranches fuel) parseBranches (AlikeBranches params)

/-! ## What is read one after another -/

theorem not_param_of_free (h : c.Free) (name : String) : c.current ≠ .param name := by
  intro hname
  rw [Cursor.Free, hname] at h
  cases h

section Combinators

variable {f f₁ : Reader α} {g g₁ : Nat → Reader β} {R : α → β → Prop} {k : α → Reader γ}
  {k' : β → Nat → Reader δ} {S : γ → δ → Prop} {is : Token → Bool} {w : String}

theorem Carries.mono {more : Nat} (h : Carries params need f g R) (hle : need ≤ more) :
    Carries params more f g R :=
  fun _ _ _ _ _ hfilled hf hfree hn => h hfilled hf hfree (by omega)

theorem Carries.succ (h : Carries params need f₁ g₁ R) (hf : ∀ c, f c = f₁ c)
    (hg : ∀ n c, g (n + 1) c = g₁ n c) : Carries params (need + 1) f g R := by
  intro c c' a c₁ n hfilled hread hfree hn
  obtain ⟨n, rfl⟩ : ∃ m, n = m + 1 := ⟨n - 1, by omega⟩
  rw [hf] at hread
  rw [hg]
  exact h hfilled hread hfree (by omega)

theorem Carries.pure {a : α} {b : β} (h : R a b) :
    Carries params need (fun c => .ok (a, c)) (fun _ c => .ok (b, c)) R := by
  intro c c' a' c₁ n hfilled hread _ _
  obtain ⟨rfl, rfl⟩ := Prod.mk.inj (Except.ok.inj hread)
  exact ⟨b, c', rfl, h, hfilled, .refl _⟩

theorem Carries.fails {e : Cursor → ExpressionError} :
    Carries params need (fun c => .error (e c) : Reader α) g R :=
  fun _ _ _ _ _ _ hread _ _ => by cases hread

theorem Carries.bind (hf : Carries params need f g R) (stops : ∀ a, Stops (k a))
    (hk : ∀ {a b}, R a b → Carries params need (k a) (k' b) S) :
    Carries params need (fun c => f c >>= fun r => k r.1 r.2)
      (fun n c => g n c >>= fun r => k' r.1 n r.2) S := by
  intro c c' s c₁ n hfilled hread hfree hn
  obtain ⟨⟨a, c₂⟩, hfirst, hrest⟩ := bind_eq_ok hread
  obtain ⟨b, c₂', hfirst', hab, hfilled₂, hpass⟩ :=
    hf hfilled hfirst (stops a hrest hfree) hn
  have hlength := hfilled.length_le hfilled₂ hpass
  obtain ⟨t, c₁', hrest', hst, hfilled₁, hpass'⟩ := hk hab hfilled₂ hrest hfree (by omega : _ ≤ n)
  refine ⟨t, c₁', ?_, hst, hfilled₁, hpass.trans hpass'⟩
  simp only [hfirst']
  exact hrest'

/-- Behind a token that stays, there is fuel for any function. -/
theorem Carries.after {n : Nat} {a : α} (h : Carries params (need + 16) f g R)
    (hfilled : Filled params c c') (hparam : ∀ name, c.current ≠ .param name)
    (heof : c.current ≠ .eof) (hoperand : c.current.isOperand = true → c.advance.Free)
    (hread : f c.advance = .ok (a, c₁)) (hfree : c₁.Free)
    (hn : 16 * c'.tokens.length + need ≤ n) :
    ∃ b c₁', g n c'.advance = .ok (b, c₁') ∧ R a b ∧ Filled params c₁ c₁' ∧
      Passes c.tokens c₁.tokens := by
  obtain ⟨hsame, hadvance⟩ := hfilled.same hparam
  have hlength := Cursor.advance_length (c := c') (by rw [hsame]; exact heof)
  obtain ⟨b, c₁', hread', hab, hfilled₁, hpass⟩ := h hadvance hread hfree (by omega : _ ≤ n)
  exact ⟨b, c₁', hread', hab, hfilled₁, (passes_advance hoperand).trans hpass⟩

theorem Carries.operator {op? : Token → Option γ} {f : γ → Reader α} {g : γ → Nat → Reader β}
    (separates : Separates fun t => (op? t).isSome)
    (declines : ∀ {c c'}, Filled params c c' → op? c.current = none →
      ∀ {a c₁}, f₁ c = .ok (a, c₁) → c₁.Free → op? c'.current = none)
    (hsome : ∀ op, Carries params (need + 16) (f op) (g op) R)
    (hnone : Carries params need f₁ g₁ R) :
    Carries params need (choose op? f f₁) (fun n => choose op? (fun op => g op n) (g₁ n)) R := by
  intro c c' a c₁ n hfilled hread hfree hn
  cases hop : op? c.current with
  | some op =>
      obtain ⟨hoperator, heof⟩ := separates c.current (by simp [hop])
      have hparam := not_param_of_free (c := c) hoperator
      simp only [choose, hop] at hread
      simp only [choose, (hfilled.same hparam).1, hop]
      refine (hsome op).after hfilled hparam heof (fun h => ?_) hread hfree hn
      rw [hoperator] at h
      cases h
  | none =>
      simp only [choose, hop] at hread
      simp only [choose, declines hfilled hop hread hfree]
      exact hnone hfilled hread hfree hn

theorem Carries.mark (separates : Separates is) (declines : Declines is)
    (hsome : Carries params (need + 16) f g R) (hnone : Carries params need f₁ g₁ R) :
    Carries params need
      (fun c => match c.mark? is with
        | some c => f c
        | none => f₁ c)
      (fun n c => match c.mark? is with
        | some c => g n c
        | none => g₁ n c) R := by
  intro c c' a c₁ n hfilled hread hfree hn
  cases hmark : is c.current with
  | true =>
      obtain ⟨hoperator, heof⟩ := separates c.current hmark
      have hparam := not_param_of_free (c := c) hoperator
      simp only [Cursor.mark?, hmark, if_true] at hread
      simp only [Cursor.mark?, (hfilled.same hparam).1, hmark, if_true]
      refine hsome.after hfilled hparam heof (fun h => ?_) hread hfree hn
      rw [hoperator] at h
      cases h
  | false =>
      simp only [Cursor.mark?, hmark, Bool.false_eq_true, if_false] at hread
      simp only [Cursor.mark?, hfilled.declines declines hmark, Bool.false_eq_true, if_false]
      exact hnone hfilled hread hfree hn

theorem Carries.expect (separates : Separates is) (h : Carries params (need + 16) f g R) :
    Carries params need (fun c => c.expectMark is w >>= f)
      (fun n c => c.expectMark is w >>= g n) R := by
  intro c c' a c₁ n hfilled hread hfree hn
  obtain ⟨c₂, hmark, hrest⟩ := bind_eq_ok hread
  obtain ⟨hcurrent, rfl⟩ := mark?_eq_some (expectMark_ok hmark)
  obtain ⟨hoperator, heof⟩ := separates c.current hcurrent
  have hparam := not_param_of_free (c := c) hoperator
  have hmark' : c'.expectMark is w = .ok c'.advance := by
    simp only [Cursor.expectMark, Cursor.mark?, (hfilled.same hparam).1, hcurrent, if_true]
  simp only [hmark']
  refine h.after hfilled hparam heof (fun h => ?_) hrest hfree hn
  rw [hoperator] at h
  cases h

/-- What is seen at a cursor without an expression in it. -/
theorem Carries.seen {p : Cursor → α × Cursor} {g : α → Nat → Reader δ}
    (hp : ∀ {c c'}, Filled params c c' → (p c').1 = (p c).1 ∧ Filled params (p c).2 (p c').2 ∧
      Passes c.tokens (p c).2.tokens)
    (hk : ∀ a, Carries params need (k a) (g a) S) :
    Carries params need (fun c => k (p c).1 (p c).2) (fun n c => g (p c).1 n (p c).2) S := by
  intro c c' a c₁ n hfilled hread hfree hn
  obtain ⟨hsame, hafter, hpass⟩ := hp hfilled
  have hlength := hfilled.length_le hafter hpass
  obtain ⟨b, c₁', hread', hab, hfilled₁, hpass'⟩ := hk _ hafter hread hfree (by omega : _ ≤ n)
  refine ⟨b, c₁', ?_, hab, hfilled₁, hpass.trans hpass'⟩
  simp only [hsame]
  exact hread'

theorem Stops.seen {p : Cursor → α × Cursor} (hp : ∀ c, (p c).2.Free → c.Free)
    (hk : ∀ a, Stops (k a)) : Stops fun c => k (p c).1 (p c).2 :=
  fun c _ _ hread hfree => hp c (hk _ hread hfree)

theorem Stops.pure {a : α} : Stops fun c => .ok (a, c) := by
  intro c a' c₁ hread hfree
  rw [(Prod.mk.inj (Except.ok.inj hread)).2]
  exact hfree

theorem Stops.bind (hf : Stops f) (hk : ∀ a, Stops (k a)) :
    Stops fun c => f c >>= fun r => k r.1 r.2 := by
  intro c a c₁ hread hfree
  obtain ⟨⟨b, c₂⟩, hfirst, hrest⟩ := bind_eq_ok hread
  exact hf hfirst (hk b hrest hfree)

theorem Stops.mark (separates : Separates is) (hnone : Stops f₁) :
    Stops fun c => match c.mark? is with
      | some c => f c
      | none => f₁ c := by
  intro c a c₁ hread hfree
  cases hmark : is c.current with
  | true => exact (separates c.current hmark).1
  | false =>
      simp only [Cursor.mark?, hmark, Bool.false_eq_true, if_false] at hread
      exact hnone hread hfree

theorem Stops.operator {op? : Token → Option γ} {f : γ → Reader α}
    (separates : Separates fun t => (op? t).isSome) (hnone : Stops f₁) :
    Stops (choose op? f f₁) := by
  intro c a c₁ hread hfree
  cases hop : op? c.current with
  | some op => exact (separates c.current (by simp [hop])).1
  | none =>
      simp only [choose, hop] at hread
      exact hnone hread hfree

theorem Stops.expect (separates : Separates is) :
    Stops fun c => c.expectMark is w >>= f := by
  intro c a c₁ hread _
  obtain ⟨c₂, hmark, -⟩ := bind_eq_ok hread
  exact (separates c.current (mark?_eq_some (expectMark_ok hmark)).1).1

end Combinators

/-! ## Chains of operators -/

section Chains

/-- One level of operators: operands read by `operand`, joined by what `op?` sees in a token. -/
structure Chain (level operand : Nat → Reader Expr) (tail : Nat → Expr → Reader Expr)
    (op? : Token → Option BinaryOp) : Prop where
  level_succ : ∀ n c, level (n + 1) c = operand n c >>= fun r => tail n r.1 r.2
  tail_zero : ∀ l c r, tail 0 l c ≠ .ok r
  tail_succ : ∀ n l c, tail (n + 1) l c = choose op?
    (fun op c => operand n c >>= fun r => tail n (.binary op l r.1) r.2) (fun c => .ok (l, c)) c
  separates : Separates fun t => (op? t).isSome

variable {level operand : Nat → Reader Expr} {tail : Nat → Expr → Reader Expr}
  {op? : Token → Option BinaryOp} {l l' : Expr}

/-- Behind an operand a chain ends. -/
theorem Chain.stops (chain : Chain level operand tail op?) (fuel : Nat) (l : Expr) :
    Stops (tail fuel l) := by
  cases fuel with
  | zero => exact fun c a c₁ h => absurd h (chain.tail_zero l c _)
  | succ fuel =>
      intro c a c₁ h
      rw [chain.tail_succ] at h
      exact Stops.operator chain.separates .pure h

theorem Chain.carries_level (chain : Chain level operand tail op?)
    (hoperand : Carries params (need + 1) (operand fuel) operand (Alike params))
    (htail : ∀ {l l'}, Alike params l l' →
      Carries params 1 (tail fuel l) (fun n => tail n l') (Alike params)) :
    Carries params (need + 2) (level (fuel + 1)) level (Alike params) :=
  .succ (hoperand.bind (chain.stops fuel) fun hl => (htail hl).mono (by omega))
    (chain.level_succ fuel) chain.level_succ

theorem Chain.carries_tail (chain : Chain level operand tail op?) (hneed : need ≤ 16)
    (hoperand : Carries params need (operand fuel) operand (Alike params))
    (htail : ∀ {l l'}, Alike params l l' →
      Carries params 1 (tail fuel l) (fun n => tail n l') (Alike params))
    (hl : Alike params l l') :
    Carries params 1 (tail (fuel + 1) l) (fun n => tail n l') (Alike params) := by
  refine .succ (.operator (g := fun op n c => operand n c >>= fun r =>
      tail n (.binary op l' r.1) r.2) chain.separates ?_ (fun op => ?_) (.pure hl))
    (chain.tail_succ fuel l) (fun n => chain.tail_succ n l')
  · -- behind the chain no parameter stands, so its token stays
    intro c c' hfilled hop a c₁ hread hfree
    have hfree' : c.Free := Stops.pure hread hfree
    rw [(hfilled.same (not_param_of_free hfree')).1]
    exact hop
  · exact (hoperand.mono (by omega)).bind (fun r => chain.stops fuel _) fun hr =>
      (htail (hl.binary op hr)).mono (by omega)

theorem orChain : Chain parseOr parseAnd orTail fun t => if t.isOr then some .or else none where
  level_succ _ _ := rfl
  tail_zero _ _ _ := by rw [orTail]; simp
  tail_succ n l c := by
    rw [orTail, choose, Cursor.mark?]
    cases c.current.isOr <;> rfl
  separates t ht := separates_isOr t (by simpa using ht)

theorem andChain : Chain parseAnd parseNot andTail fun t => if t.isAnd then some .and else none where
  level_succ _ _ := rfl
  tail_zero _ _ _ := by rw [andTail]; simp
  tail_succ n l c := by
    rw [andTail, choose, Cursor.mark?]
    cases c.current.isAnd <;> rfl
  separates t ht := separates_isAnd t (by simpa using ht)

theorem additiveChain :
    Chain parseAdditive parseMultiplicative additiveTail Token.additive? where
  level_succ _ _ := rfl
  tail_zero _ _ _ := by rw [additiveTail]; simp
  tail_succ n l c := by
    rw [additiveTail, choose]
    cases c.current.additive? <;> rfl
  separates := separates_of (fun t ht => by cases t <;> first | rfl | cases ht) rfl

theorem multiplicativeChain :
    Chain parseMultiplicative parseUnary multiplicativeTail Token.multiplicative? where
  level_succ _ _ := rfl
  tail_zero _ _ _ := by rw [multiplicativeTail]; simp
  tail_succ n l c := by
    rw [multiplicativeTail, choose]
    cases c.current.multiplicative? <;> rfl
  separates := separates_of (fun t ht => by cases t <;> first | rfl | cases ht) rfl

end Chains

/-! ## Negations and lists -/

theorem Simulated.not_succ (h : Simulated params fuel) :
    Carries params 6 (parseNot (fuel + 1)) parseNot (Alike params) :=
  .succ (.mark separates_isNot declines_isNot
      ((h.not.mono (by decide)).bind (fun _ => .pure) fun he => .pure he.not) h.comparison)
    (fun _ => rfl) (fun _ _ => rfl)

theorem Simulated.list_succ (h : Simulated params fuel) :
    Carries params 10 (parseList (fuel + 1)) parseList (AlikeList params) :=
  .succ (.mark separates_isRParen declines_isRParen (.pure .nil) h.items)
    (fun _ => rfl) (fun _ _ => rfl)

theorem Simulated.items_succ (h : Simulated params fuel) :
    Carries params 9 (parseItems (fuel + 1)) parseItems (AlikeList params) :=
  .succ (h.or.bind (fun _ => .mark separates_isRParen (.expect separates_isComma)) fun he =>
      .mark separates_isRParen declines_isRParen (.pure (.cons he .nil))
        (.expect separates_isComma
          ((h.items.mono (by decide)).bind (fun _ => .pure) fun hrest => .pure (.cons he hrest))))
    (fun _ => rfl) (fun _ _ => rfl)

/-! ## Comparisons and predicates -/

theorem Filled.agrees {is : Token → Bool} (separates : Separates is) (declines : Declines is)
    (h : Filled params c c') : is c'.current = is c.current := by
  cases his : is c.current with
  | true => rw [(h.same (not_param_of_free (c := c) (separates _ his).1)).1, his]
  | false => exact h.declines declines his

/-- Whether a mark or keyword comes next, and the cursor behind it. -/
def optional (is : Token → Bool) (c : Cursor) : Bool × Cursor :=
  match c.mark? is with
  | some c => (true, c)
  | none => (false, c)

theorem optional_seen {is : Token → Bool} (separates : Separates is) (declines : Declines is)
    (h : Filled params c c') : (optional is c').1 = (optional is c).1 ∧
      Filled params (optional is c).2 (optional is c').2 ∧
      Passes c.tokens (optional is c).2.tokens := by
  have hagrees := Filled.agrees separates declines h
  simp only [optional, Cursor.mark?, hagrees]
  cases his : is c.current with
  | true =>
      have hoperator := (separates _ his).1
      refine ⟨rfl, (h.same (not_param_of_free (c := c) hoperator)).2, passes_advance fun h => ?_⟩
      rw [hoperator] at h
      cases h
  | false => exact ⟨rfl, h, .refl _⟩

/-- Whether NOT stands right before a predicate, and the cursor behind it. -/
def negation (c : Cursor) : Bool × Cursor :=
  let negated := c.current.isKeyword "NOT" &&
    ["IN", "BETWEEN", "LIKE"].any fun word => c.second.isKeyword word
  (negated, if negated then c.advance else c)

theorem declines_not : Declines (Token.isKeyword "NOT") :=
  declines_keyword (by decide) (by decide) (by decide)

theorem declines_in : Declines (Token.isKeyword "IN") :=
  declines_keyword (by decide) (by decide) (by decide)

theorem declines_between : Declines (Token.isKeyword "BETWEEN") :=
  declines_keyword (by decide) (by decide) (by decide)

theorem declines_like : Declines (Token.isKeyword "LIKE") :=
  declines_keyword (by decide) (by decide) (by decide)

theorem declines_is : Declines (Token.isKeyword "IS") :=
  declines_keyword (by decide) (by decide) (by decide)

theorem declines_desc : Declines (Token.isKeyword "DESC") :=
  declines_keyword (by decide) (by decide) (by decide)

theorem declines_partition : Declines (Token.isKeyword "PARTITION") :=
  declines_keyword (by decide) (by decide) (by decide)

theorem declines_order : Declines (Token.isKeyword "ORDER") :=
  declines_keyword (by decide) (by decide) (by decide)

theorem declines_distinct : Declines (Token.isKeyword "DISTINCT") :=
  declines_keyword (by decide) (by decide) (by decide)

theorem declines_over : Declines (Token.isKeyword "OVER") :=
  declines_keyword (by decide) (by decide) (by decide)

theorem separates_isStar : Separates Token.isStar :=
  separates_of (fun t ht => by cases t <;> first | rfl | cases ht) rfl

theorem declines_isStar : Declines Token.isStar :=
  declines_of (fun _ => rfl) (fun _ => rfl) (fun _ => rfl) rfl rfl rfl rfl

theorem declines_when : Declines (Token.isKeyword "WHEN") :=
  declines_keyword (by decide) (by decide) (by decide)

theorem declines_else : Declines (Token.isKeyword "ELSE") :=
  declines_keyword (by decide) (by decide) (by decide)

theorem declines_isLParen : Declines Token.isLParen :=
  declines_of (fun _ => rfl) (fun _ => rfl) (fun _ => rfl) rfl rfl rfl rfl

theorem declines_asc : Declines (Token.isKeyword "ASC") :=
  declines_keyword (by decide) (by decide) (by decide)

theorem declines_isComma : Declines Token.isComma :=
  declines_of (fun _ => rfl) (fun _ => rfl) (fun _ => rfl) rfl rfl rfl rfl

theorem separates_comparison : Separates fun t => t.comparison?.isSome :=
  separates_of (fun t ht => by cases t <;> first | rfl | cases ht) rfl

theorem declines_comparison : Declines fun t => t.comparison?.isSome :=
  declines_of (fun _ => rfl) (fun _ => rfl) (fun _ => rfl) rfl rfl rfl rfl

theorem second_eq (c : Cursor) : c.second = c.advance.current := by
  obtain ⟨tokens, slot, stop⟩ := c
  match tokens with
  | [] => rfl
  | [_] => rfl
  | _ :: _ :: _ => rfl

theorem negation_seen (h : Filled params c c') : (negation c').1 = (negation c).1 ∧
    Filled params (negation c).2 (negation c').2 ∧ Passes c.tokens (negation c).2.tokens := by
  have hnot := Filled.agrees (separates_keyword "NOT") declines_not h
  cases hkeyword : c.current.isKeyword "NOT" with
  | false =>
      simp only [negation, hnot, hkeyword]
      exact ⟨rfl, h, .refl _⟩
  | true =>
      have hoperator := (separates_keyword "NOT" _ hkeyword).1
      obtain ⟨-, hadvance⟩ := h.same (not_param_of_free (c := c) hoperator)
      have hsecond : (["IN", "BETWEEN", "LIKE"].any fun word => c'.second.isKeyword word)
          = ["IN", "BETWEEN", "LIKE"].any fun word => c.second.isKeyword word := by
        simp only [second_eq, List.any_cons, List.any_nil,
          Filled.agrees (separates_keyword "IN") declines_in hadvance,
          Filled.agrees (separates_keyword "BETWEEN") declines_between hadvance,
          Filled.agrees (separates_keyword "LIKE") declines_like hadvance]
      simp only [negation, hnot, hkeyword, hsecond, Bool.true_and]
      split
      · refine ⟨trivial, hadvance, passes_advance fun h => ?_⟩
        rw [hoperator] at h
        cases h
      · exact ⟨trivial, h, .refl _⟩

/-- IS has been read, and NOT if `negated`. -/
def nullTest (fuel : Nat) (left : Expr) (negated : Bool) : Reader Expr := fun c =>
  c.expectMark (Token.isKeyword "NULL") "NULL" >>= comparisonTail fuel (.isNull left negated)

/-- The predicates NOT can stand before; it has been read if `negated`. -/
def predicate (fuel : Nat) (left : Expr) (negated : Bool) : Reader Expr := fun c =>
  match c.mark? (Token.isKeyword "IN") with
  | some c => c.expectMark Token.isLParen "'(' after IN" >>= fun c =>
      parseList fuel c >>= fun r => comparisonTail fuel (.inList left r.1 negated) r.2
  | none =>
      match c.mark? (Token.isKeyword "BETWEEN") with
      | some c => parseAdditive fuel c >>= fun low =>
          low.2.expectMark (Token.isKeyword "AND") "AND" >>= fun c =>
            parseAdditive fuel c >>= fun high =>
              comparisonTail fuel (.between left low.1 high.1 negated) high.2
      | none =>
          match c.mark? (Token.isKeyword "LIKE") with
          | some c => parseAdditive fuel c >>= fun r =>
              comparisonTail fuel (.like left r.1 negated) r.2
          | none => .ok (left, c)

theorem comparisonTail_succ (n : Nat) (l : Expr) (c : Cursor) :
    comparisonTail (n + 1) l c = choose Token.comparison?
      (fun op c => parseAdditive n c >>= fun r => comparisonTail n (.binary op l r.1) r.2)
      (fun c => match c.mark? (Token.isKeyword "IS") with
        | some c => nullTest n l (optional (Token.isKeyword "NOT") c).1
            (optional (Token.isKeyword "NOT") c).2
        | none => predicate n l (negation c).1 (negation c).2) c := by
  rw [comparisonTail, choose]
  cases c.current.comparison? with
  | some op => rfl
  | none => rfl

theorem optional_free {is : Token → Bool} (separates : Separates is) (c : Cursor)
    (h : (optional is c).2.Free) : c.Free := by
  simp only [optional, Cursor.mark?] at h
  cases his : is c.current with
  | true => exact (separates _ his).1
  | false =>
      simp only [his, Bool.false_eq_true, if_false] at h
      exact h

theorem negation_free (c : Cursor) (h : (negation c).2.Free) : c.Free := by
  simp only [negation] at h
  cases hkeyword : c.current.isKeyword "NOT" with
  | true => exact (separates_keyword "NOT" _ hkeyword).1
  | false =>
      simp only [hkeyword, Bool.false_and, Bool.false_eq_true, if_false] at h
      exact h

theorem comparisonTail_stops (fuel : Nat) (l : Expr) : Stops (comparisonTail fuel l) := by
  cases fuel with
  | zero =>
      intro c a c₁ h
      rw [comparisonTail] at h
      cases h
  | succ fuel =>
      intro c a c₁ h
      rw [comparisonTail_succ] at h
      refine Stops.operator separates_comparison ?_ h
      exact .mark (separates_keyword "IS") <| .seen (p := negation) negation_free fun negated =>
        .mark (separates_keyword "IN") <| .mark (separates_keyword "BETWEEN") <|
          .mark (separates_keyword "LIKE") .pure

theorem Simulated.predicate (h : Simulated params fuel) {l l' : Expr} (hl : Alike params l l')
    (negated : Bool) :
    Carries params 0 (Parser.predicate fuel l negated) (fun n => Parser.predicate n l' negated)
      (Alike params) := by
  have stops := comparisonTail_stops fuel
  refine .mark (separates_keyword "IN") declines_in (.expect separates_isLParen ?_) <|
    .mark (separates_keyword "BETWEEN") declines_between ?_ <|
    .mark (separates_keyword "LIKE") declines_like ?_ (.pure hl)
  · exact (h.list.mono (by decide)).bind (fun _ => stops _) fun hs =>
      (h.comparisonTail (hl.inList negated hs)).mono (by decide)
  · exact (h.additive.mono (by decide)).bind (fun _ => .expect (separates_keyword "AND"))
      fun hlow => .expect (separates_keyword "AND") <|
        (h.additive.mono (by decide)).bind (fun _ => stops _) fun hhigh =>
          (h.comparisonTail (hl.between negated hlow hhigh)).mono (by decide)
  · exact (h.additive.mono (by decide)).bind (fun _ => stops _) fun hp =>
      (h.comparisonTail (hl.like negated hp)).mono (by decide)

theorem Simulated.comparisonTail_succ (h : Simulated params fuel) {l l' : Expr}
    (hl : Alike params l l') :
    Carries params 1 (Parser.comparisonTail (fuel + 1) l) (fun n => Parser.comparisonTail n l')
      (Alike params) := by
  refine .succ (.operator
      (g := fun op n c => parseAdditive n c >>= fun r =>
        Parser.comparisonTail n (.binary op l' r.1) r.2)
      separates_comparison ?_ (fun op => ?_) <|
      .mark (separates_keyword "IS") declines_is
        (.seen (optional_seen (separates_keyword "NOT") declines_not) fun negated =>
          .expect (separates_keyword "NULL")
            ((h.comparisonTail (hl.isNull negated)).mono (by decide)))
        (.seen negation_seen (h.predicate hl)))
    (Parser.comparisonTail_succ fuel l) (fun n => Parser.comparisonTail_succ n l')
  · intro c c' hfilled hop _ _ _ _
    have := hfilled.declines declines_comparison (by simp [hop])
    simpa using this
  · exact (h.additive.mono (by decide)).bind (fun _ => comparisonTail_stops fuel _) fun hr =>
      (h.comparisonTail (hl.binary op hr)).mono (by decide)

theorem Simulated.comparison_succ (h : Simulated params fuel) :
    Carries params 5 (parseComparison (fuel + 1)) parseComparison (Alike params) :=
  .succ (h.additive.bind (comparisonTail_stops fuel) fun hl =>
      (h.comparisonTail hl).mono (by decide))
    (fun _ => rfl) (fun _ _ => rfl)

/-! ## Windows and calls -/

theorem Simulated.partitions_succ (h : Simulated params fuel) :
    Carries params 5 (parsePartitions (fuel + 1)) parsePartitions (AlikeList params) :=
  .succ (h.additive.bind (fun _ => .mark separates_isComma .pure) fun he =>
      .mark separates_isComma declines_isComma
        ((h.partitions.mono (by decide)).bind (fun _ => .pure) fun hrest => .pure (.cons he hrest))
        (.pure (.cons he .nil)))
    (fun _ => rfl) (fun _ _ => rfl)

/-- Whether a key is descending, and the cursor behind its direction. -/
def direction (c : Cursor) : Bool × Cursor :=
  match c.keyword? "DESC" with
  | some c => (true, c)
  | none => (false, (c.keyword? "ASC").getD c)

theorem direction_eq (c : Cursor) :
    direction c = if c.current.isKeyword "DESC" then (true, c.advance)
      else (false, (optional (Token.isKeyword "ASC") c).2) := by
  have hasc : (c.keyword? "ASC").getD c = (optional (Token.isKeyword "ASC") c).2 := by
    rw [Cursor.keyword?, optional, Cursor.mark?]
    split <;> rfl
  rw [direction, hasc, Cursor.keyword?]
  split <;> simp_all

theorem direction_seen (h : Filled params c c') : (direction c').1 = (direction c).1 ∧
    Filled params (direction c).2 (direction c').2 ∧ Passes c.tokens (direction c).2.tokens := by
  have hdesc := optional_seen (separates_keyword "DESC") declines_desc h
  have hasc := optional_seen (separates_keyword "ASC") declines_asc h
  have hagrees := Filled.agrees (separates_keyword "DESC") declines_desc h
  simp only [optional, Cursor.mark?, hagrees] at hdesc
  rw [direction_eq, direction_eq, hagrees]
  cases hkeyword : c.current.isKeyword "DESC" with
  | true =>
      simp only [hkeyword, if_true] at hdesc
      exact ⟨rfl, hdesc.2⟩
  | false => exact ⟨rfl, hasc.2⟩

theorem direction_free (c : Cursor) (h : (direction c).2.Free) : c.Free := by
  rw [direction_eq] at h
  cases hkeyword : c.current.isKeyword "DESC" with
  | true => exact (separates_keyword "DESC" _ hkeyword).1
  | false =>
      rw [hkeyword] at h
      exact optional_free (separates_keyword "ASC") c h

/-- The keys from one on whose direction has been read. -/
def keysFrom (fuel : Nat) (e : Expr) (descending : Bool) : Reader (List (OrderKey Expr)) := fun c =>
  match c.mark? Token.isComma with
  | some c => parseOrderKeys fuel c >>= fun r => .ok (⟨e, descending⟩ :: r.1, r.2)
  | none => .ok ([⟨e, descending⟩], c)

theorem parseOrderKeys_succ (n : Nat) (c : Cursor) :
    parseOrderKeys (n + 1) c = parseAdditive n c >>= fun r =>
      (fun c => keysFrom n r.1 (direction c).1 (direction c).2) r.2 := rfl

theorem Simulated.keysFrom (h : Simulated params fuel) {e e' : Expr} (he : Alike params e e')
    (descending : Bool) :
    Carries params 4 (Parser.keysFrom fuel e descending) (fun n => Parser.keysFrom n e' descending)
      (AlikeKeys params) :=
  .mark separates_isComma declines_isComma
    ((h.orderKeys.mono (by decide)).bind (fun _ => .pure) fun hrest => .pure (.cons ⟨he, rfl⟩ hrest))
    (.pure (.cons ⟨he, rfl⟩ .nil))

theorem Simulated.orderKeys_succ (h : Simulated params fuel) :
    Carries params 5 (parseOrderKeys (fuel + 1)) parseOrderKeys (AlikeKeys params) := by
  refine .succ (h.additive.bind (fun e => ?_) fun he => .seen (p := direction) direction_seen (h.keysFrom he))
    (parseOrderKeys_succ fuel) parseOrderKeys_succ
  exact .seen (k := Parser.keysFrom fuel e) direction_free fun _ => .mark separates_isComma .pure

/-- The slot of a window, and the cursor with the next slot. -/
def takeSlot (c : Cursor) : Nat × Cursor := (c.slot, { c with slot := c.slot + 1 })

theorem takeSlot_seen (h : Filled params c c') : (takeSlot c').1 = (takeSlot c).1 ∧
    Filled params (takeSlot c).2 (takeSlot c').2 ∧ Passes c.tokens (takeSlot c).2.tokens :=
  ⟨h.slot, ⟨h.tokens, congrArg (· + 1) h.slot, h.written⟩, .refl _⟩

/-- A list behind a keyword and BY. -/
def clause (word : String) (f : Reader (List α)) : Reader (List α) := fun c =>
  match c.mark? (Token.isKeyword word) with
  | some c => c.expectMark (Token.isKeyword "BY") "BY" >>= f
  | none => .ok ([], c)

theorem Carries.clause {more : Nat} {word : String} {f : Reader (List α)} {g : Nat → Reader (List α)}
    {R : α → α → Prop} (declines : Declines (Token.isKeyword word)) (hneed : need ≤ 16)
    (h : Carries params need f g (List.Forall₂ R)) :
    Carries params more (clause word f) (fun n => Parser.clause word (g n)) (List.Forall₂ R) :=
  .mark (separates_keyword word) declines (.expect (separates_keyword "BY") (h.mono (by omega)))
    (.pure .nil)

theorem clause_stops (word : String) (f : Reader (List α)) : Stops (clause word f) :=
  .mark (separates_keyword word) .pure

theorem clause_bind (word : String) (f : Reader (List α)) (c : Cursor)
    (k : List α × Cursor → Except ExpressionError β) :
    clause word f c >>= k = match c.keyword? word with
      | some c => c.expectKeyword "BY" >>= fun c => f c >>= k
      | none => pure ([], c) >>= k := by
  show (match c.keyword? word with
    | some c => c.expectKeyword "BY" >>= f
    | none => pure ([], c)) >>= k = _
  cases c.keyword? word with
  | none => rfl
  | some c => exact bind_assoc _ _ _

/-- The end of a window. -/
def closeWindow (spec : WindowSpec Expr) : Reader Expr := fun c =>
  c.expectMark Token.isRParen "')' closing OVER" >>= fun c =>
    .ok (.window (takeSlot c).1 spec, (takeSlot c).2)

/-- A window from its order on. -/
def windowFrom (fuel : Nat) (func : WindowFunction Expr) (partitions : List Expr) : Reader Expr :=
  fun c => clause "ORDER" (parseOrderKeys fuel) c >>= fun r =>
    closeWindow ⟨func, partitions, r.1⟩ r.2

theorem parseOver_succ (n : Nat) (func : WindowFunction Expr) (c : Cursor) :
    parseOver (n + 1) func c = c.expectMark Token.isLParen "'(' after OVER" >>= fun c =>
      clause "PARTITION" (parsePartitions n) c >>= fun r => windowFrom n func r.1 r.2 := by
  simp only [windowFrom, clause_bind]
  rfl

theorem closeWindow_stops (spec : WindowSpec Expr) : Stops (closeWindow spec) :=
  .expect separates_isRParen

theorem carries_closeWindow (spec spec' : WindowSpec Expr) :
    Carries params 16 (closeWindow spec) (fun _ => closeWindow spec') (Alike params) :=
  .expect separates_isRParen <| .seen (p := takeSlot) takeSlot_seen fun slot =>
    .pure (alike_window slot spec spec')

theorem windowFrom_stops (fuel : Nat) (func : WindowFunction Expr) (partitions : List Expr) :
    Stops (windowFrom fuel func partitions) :=
  .bind (clause_stops "ORDER" (parseOrderKeys fuel)) fun _ => closeWindow_stops _

theorem Simulated.windowFrom (h : Simulated params fuel) (func func' : WindowFunction Expr)
    (partitions partitions' : List Expr) :
    Carries params 16 (Parser.windowFrom fuel func partitions)
      (fun n => Parser.windowFrom n func' partitions') (Alike params) :=
  .bind (.clause declines_order (by decide) h.orderKeys) (fun _ => closeWindow_stops _)
    fun {keys keys'} _ => carries_closeWindow ⟨func, partitions, keys⟩ ⟨func', partitions', keys'⟩

theorem Simulated.window_succ (h : Simulated params fuel) (func func' : WindowFunction Expr) :
    Carries params 1 (parseOver (fuel + 1) func) (fun n => parseOver n func') (Alike params) :=
  .succ (.expect separates_isLParen <|
      .bind (.clause declines_partition (by decide) h.partitions) (windowFrom_stops fuel func)
        fun {partitions partitions'} _ => h.windowFrom func func' partitions partitions')
    (parseOver_succ fuel func) (fun n => parseOver_succ n func')

/-- The end of an argument, and what DISTINCT makes of the aggregate. -/
def closeArgument (func : AggregateFunction) (name : String) (position : Nat) (distinct : Bool)
    (e : Expr) : Reader (AggregateFunction × Option Expr) := fun c =>
  c.expectMark Token.isRParen "')'" >>= fun c =>
    if distinct then
      if func = .count then .ok ((.countDistinct, some e), c)
      else .error (.syntaxError position (.distinctNotAllowed name))
    else .ok ((func, some e), c)

/-- The argument of an aggregate behind DISTINCT. -/
def argumentFrom (fuel : Nat) (func : AggregateFunction) (name : String) (position : Nat)
    (distinct : Bool) : Reader (AggregateFunction × Option Expr) := fun c =>
  parseOr fuel c >>= fun r => closeArgument func name position distinct r.1 r.2

theorem argumentFrom_eq (n : Nat) (func : AggregateFunction) (name : String) (position : Nat)
    (distinct : Bool) (c : Cursor) :
    ((parseOr n c >>= fun r => r.2.expectMark Token.isRParen "')'" >>= fun c =>
      if distinct then
        if func = .count then pure (.countDistinct, some r.1, c)
        else throw (.syntaxError position (.distinctNotAllowed name))
      else pure (func, some r.1, c) :
        Except ExpressionError (AggregateFunction × Option Expr × Cursor)).map fun r =>
          ((r.1, r.2.1), r.2.2)) = argumentFrom n func name position distinct c := by
  rw [argumentFrom]
  cases parseOr n c with
  | error e => rfl
  | ok r =>
      dsimp only [closeArgument, bind, Except.bind]
      cases r.2.expectMark Token.isRParen "')'" with
      | error e => rfl
      | ok c₁ =>
          cases distinct with
          | false => rfl
          | true =>
              simp only [if_true]
              split <;> rfl

theorem readArgument_succ (n : Nat) (func : AggregateFunction) (name : String) (position : Nat)
    (c : Cursor) :
    readArgument (n + 1) func name position c =
      if func = .count && c.current.isStar then
        c.advance.expectMark Token.isRParen "')'" >>= fun c => .ok ((func, none), c)
      else argumentFrom n func name position (optional (Token.isKeyword "DISTINCT") c).1
        (optional (Token.isKeyword "DISTINCT") c).2 := by
  rw [readArgument, parseAggregateArgument]
  split
  · cases c.advance.expectMark Token.isRParen "')'" <;> rfl
  · exact argumentFrom_eq n func name position _ _

theorem carries_closeArgument (func : AggregateFunction) (name : String) (position position' : Nat)
    (distinct : Bool) (e e' : Expr) :
    Carries params 8 (closeArgument func name position distinct e)
      (fun _ => closeArgument func name position' distinct e') fun a b => a.1 = b.1 := by
  refine .expect separates_isRParen ?_
  cases distinct with
  | false => exact .pure rfl
  | true =>
      by_cases hcount : func = .count
      · simp only [hcount, if_true]
        exact .pure rfl
      · simp only [hcount, if_true, if_false]
        exact .fails

theorem Simulated.argumentFrom (h : Simulated params fuel) (func : AggregateFunction)
    (name : String) (position position' : Nat) (distinct : Bool) :
    Carries params 8 (Parser.argumentFrom fuel func name position distinct)
      (fun n => Parser.argumentFrom n func name position' distinct) fun a b => a.1 = b.1 :=
  h.or.bind (fun _ => Stops.expect separates_isRParen) fun {e e'} _ =>
    carries_closeArgument func name position position' distinct e e'

theorem Simulated.readArgument_succ (h : Simulated params fuel) (func : AggregateFunction)
    (name : String) (position position' : Nat) :
    Carries params 9 (readArgument (fuel + 1) func name position)
      (fun n => readArgument n func name position') fun a b => a.1 = b.1 := by
  have hargument : Carries params 8
      (fun c => Parser.argumentFrom fuel func name position
        (optional (Token.isKeyword "DISTINCT") c).1 (optional (Token.isKeyword "DISTINCT") c).2)
      (fun n c => Parser.argumentFrom n func name position'
        (optional (Token.isKeyword "DISTINCT") c).1 (optional (Token.isKeyword "DISTINCT") c).2)
      fun a b => a.1 = b.1 :=
    .seen (optional_seen (separates_keyword "DISTINCT") declines_distinct)
      (h.argumentFrom func name position position')
  by_cases hcount : func = .count
  · refine .succ (.mark separates_isStar declines_isStar
      (.expect (w := "')'") separates_isRParen
        (.pure (a := (func, none)) (b := (func, none)) rfl)) hargument)
      (fun c => ?_) (fun n c => ?_)
    · rw [Parser.readArgument_succ, Cursor.mark?]
      cases c.current.isStar <;> simp [hcount]
    · rw [Parser.readArgument_succ, Cursor.mark?]
      cases c.current.isStar <;> simp [hcount]
  · refine .succ hargument (fun c => ?_) (fun n c => ?_)
    · rw [Parser.readArgument_succ]
      simp [hcount]
    · rw [Parser.readArgument_succ]
      simp [hcount]

theorem parseCall_ranking {n : Nat} {name : String} {position : Nat} {func : WindowFunction Expr}
    (hfunc : rankingOfName? (Text.asciiUpper name) = some func) (c : Cursor) :
    parseCall (n + 1) name position c = c.expectMark Token.isRParen "')'" >>= fun c =>
      match c.mark? (Token.isKeyword "OVER") with
      | some c => parseOver n func c
      | none => .error (.syntaxError position (.requiresOver (Text.asciiUpper name))) := by
  rw [parseCall]
  simp only [hfunc]
  rfl

/-- An aggregate behind its closing parenthesis. -/
def closeAggregate (fuel : Nat) (a : AggregateFunction × Option Expr) : Reader Expr := fun c =>
  match c.mark? (Token.isKeyword "OVER") with
  | some c => parseOver fuel (.aggregate a.1 a.2) c
  | none => .ok (.aggregate a.1 a.2, c)

/-- A call behind its closing parenthesis. -/
def closeCall (func : ScalarFunction) (position : Nat) (args : List Expr) : Reader Expr := fun c =>
  if func.accepts args.length then .ok (.call func args, c)
  else .error (.syntaxError position (.wrongArity func.name func.leastArity
    (func.mostArity?.getD unboundedArity) args.length))

theorem parseCall_aggregate {n : Nat} {name : String} {position : Nat} {func : AggregateFunction}
    (hranking : rankingOfName? (Text.asciiUpper name) = none)
    (hfunc : aggregateOfSqlName? (Text.asciiUpper name) = some func) (c : Cursor) :
    parseCall (n + 1) name position c =
      readArgument n func (Text.asciiUpper name) position c >>= fun r =>
        closeAggregate n r.1 r.2 := by
  rw [parseCall, readArgument]
  simp only [hranking, hfunc]
  cases parseAggregateArgument n func (Text.asciiUpper name) position c <;> rfl

theorem parseCall_scalar {n : Nat} {name : String} {position : Nat} {func : ScalarFunction}
    (hranking : rankingOfName? (Text.asciiUpper name) = none)
    (haggregate : aggregateOfSqlName? (Text.asciiUpper name) = none)
    (hfunc : ScalarFunction.ofName? (Text.asciiUpper name) = some func) (c : Cursor) :
    parseCall (n + 1) name position c =
      parseList n c >>= fun r => closeCall func position r.1 r.2 := by
  rw [parseCall]
  simp only [hranking, haggregate, hfunc]
  rfl

theorem Simulated.closeAggregate (h : Simulated params fuel) {a b : AggregateFunction × Option Expr}
    (hab : a.1 = b.1) :
    Carries params 11 (Parser.closeAggregate fuel a) (fun n => Parser.closeAggregate n b)
      (Alike params) := by
  refine .mark (separates_keyword "OVER") declines_over ((h.window _ _).mono (by decide)) ?_
  rw [hab]
  exact .pure (alike_aggregate b.1)

theorem closeCall_stops (func : ScalarFunction) (position : Nat) (args : List Expr) :
    Stops (closeCall func position args) := by
  intro c a c₁ hread hfree
  rw [closeCall] at hread
  split at hread
  · exact Stops.pure hread hfree
  · cases hread

theorem carries_closeCall (func : ScalarFunction) (position position' : Nat) {es es' : List Expr}
    (h : AlikeList params es es') :
    Carries params need (closeCall func position es) (fun _ => closeCall func position' es')
      (Alike params) := by
  intro c c' a c₁ n hfilled hread hfree hn
  rw [closeCall] at hread
  simp only [closeCall, ← h.length_eq]
  split at hread
  · rename_i haccepts
    simp only [haccepts, if_true]
    exact Carries.pure (Alike.call func h) hfilled hread hfree hn
  · cases hread

theorem Simulated.call_succ (h : Simulated params fuel) (name : String) (position position' : Nat) :
    Carries params 12 (parseCall (fuel + 1) name position) (fun n => parseCall n name position')
      (Alike params) := by
  cases hranking : rankingOfName? (Text.asciiUpper name) with
  | some func =>
      exact .succ (.expect separates_isRParen <| .mark (separates_keyword "OVER") declines_over
          ((h.window func func).mono (by decide)) .fails)
        (parseCall_ranking hranking) (fun n => parseCall_ranking hranking)
  | none =>
  cases haggregate : aggregateOfSqlName? (Text.asciiUpper name) with
  | some func =>
      exact .succ (((h.aggregateArgument func (Text.asciiUpper name) position position').mono
          (by decide)).bind (fun _ => .mark (separates_keyword "OVER") .pure)
          h.closeAggregate)
        (parseCall_aggregate hranking haggregate)
        (fun n => parseCall_aggregate hranking haggregate)
  | none =>
  cases hscalar : ScalarFunction.ofName? (Text.asciiUpper name) with
  | none =>
      intro c c' a c₁ n _ hread
      rw [parseCall] at hread
      simp only [hranking, haggregate, hscalar] at hread
      cases hread
  | some func =>
      exact .succ ((h.list.mono (by decide)).bind (closeCall_stops func position)
          (carries_closeCall func position position'))
        (parseCall_scalar hranking haggregate hscalar)
        (fun n => parseCall_scalar hranking haggregate hscalar)

/-! ## Cases -/

theorem parseBranches_stops (fuel : Nat) : Stops (parseBranches fuel) := by
  cases fuel with
  | zero =>
      intro c a c₁ h
      rw [parseBranches] at h
      cases h
  | succ fuel =>
      intro c a c₁ h
      rw [parseBranches] at h
      exact Stops.mark (separates_keyword "WHEN") .pure h

/-- A branch and those after it. -/
def moreBranches (fuel : Nat) (whenExpr thenExpr : Expr) : Reader (List (Expr × Expr)) := fun c =>
  parseBranches fuel c >>= fun r => .ok ((whenExpr, thenExpr) :: r.1, r.2)

/-- What a branch gives, and the branches after it. -/
def branchFrom (fuel : Nat) (whenExpr : Expr) : Reader (List (Expr × Expr)) := fun c =>
  c.expectMark (Token.isKeyword "THEN") "THEN" >>= fun c =>
    parseOr fuel c >>= fun r => moreBranches fuel whenExpr r.1 r.2

theorem moreBranches_stops (fuel : Nat) (e d : Expr) : Stops (moreBranches fuel e d) :=
  .bind (parseBranches_stops fuel) fun _ => .pure

theorem Simulated.moreBranches (h : Simulated params fuel) {e e' d d' : Expr}
    (he : Alike params e e') (hd : Alike params d d') :
    Carries params 8 (Parser.moreBranches fuel e d) (fun n => Parser.moreBranches n e' d')
      (AlikeBranches params) :=
  (h.branches.mono (by decide)).bind (fun _ => .pure) fun hrest => .pure (.cons ⟨he, hd⟩ hrest)

theorem Simulated.branchFrom (h : Simulated params fuel) {e e' : Expr} (he : Alike params e e') :
    Carries params 0 (Parser.branchFrom fuel e) (fun n => Parser.branchFrom n e')
      (AlikeBranches params) :=
  .expect (separates_keyword "THEN") <| (h.or.bind (moreBranches_stops fuel e) fun hd =>
    h.moreBranches he hd).mono (by decide)

theorem Simulated.branches_succ (h : Simulated params fuel) :
    Carries params 1 (parseBranches (fuel + 1)) parseBranches (AlikeBranches params) :=
  .succ (.mark (separates_keyword "WHEN") declines_when
      ((h.or.mono (by decide)).bind (fun _ => .expect (separates_keyword "THEN")) fun he =>
        (h.branchFrom he).mono (by decide))
      (.pure .nil))
    (fun _ => rfl) (fun _ _ => rfl)

/-- What a CASE compares its branches with, if anything. -/
def caseOperand (fuel : Nat) : Reader (Option Expr) := fun c =>
  if c.current.isKeyword "WHEN" then .ok (none, c)
  else parseOr fuel c >>= fun r => .ok (some r.1, r.2)

theorem Simulated.caseOperand (h : Simulated params fuel) :
    Carries params 8 (Parser.caseOperand fuel) Parser.caseOperand (AlikeOption params) := by
  intro c c' o c₁ n hfilled hread hfree hn
  have hagrees := Filled.agrees (separates_keyword "WHEN") declines_when hfilled
  rw [Parser.caseOperand] at hread
  rw [Parser.caseOperand, hagrees]
  split at hread
  · rename_i hwhen
    rw [if_pos hwhen]
    exact Carries.pure .none hfilled hread hfree hn
  · rename_i hwhen
    rw [if_neg hwhen]
    exact (h.or.bind (fun _ => .pure) fun he => .pure (.some he)) hfilled hread hfree hn

/-- The ELSE of a CASE, if there is one. -/
def caseElse (fuel : Nat) : Reader (Option Expr) := fun c =>
  match c.mark? (Token.isKeyword "ELSE") with
  | some c => parseOr fuel c >>= fun r => .ok (some r.1, r.2)
  | none => .ok (none, c)

/-- The end of a CASE. -/
def closeCase (operand : Option Expr) (branches : List (Expr × Expr)) (otherwise : Option Expr) :
    Reader Expr := fun c =>
  c.expectMark (Token.isKeyword "END") "END" >>= fun c =>
    .ok (.case operand branches otherwise, c)

/-- A CASE behind its branches. -/
def caseFrom (fuel : Nat) (operand : Option Expr) (branches : List (Expr × Expr)) : Reader Expr :=
  fun c =>
    if branches.isEmpty then .error (c.unexpected "WHEN")
    else caseElse fuel c >>= fun r => closeCase operand branches r.1 r.2

/-- A CASE behind its operand. -/
def caseBranches (fuel : Nat) (operand : Option Expr) : Reader Expr := fun c =>
  parseBranches fuel c >>= fun r => caseFrom fuel operand r.1 r.2

theorem caseOperand_bind (n : Nat) (c : Cursor) (k : Option Expr × Cursor → Except ExpressionError α) :
    caseOperand n c >>= k = if c.current.isKeyword "WHEN" then k (none, c)
      else parseOr n c >>= fun r => k (some r.1, r.2) := by
  rw [caseOperand]
  split
  · rfl
  · exact bind_assoc _ _ _

theorem caseElse_bind (n : Nat) (c : Cursor) (k : Option Expr × Cursor → Except ExpressionError α) :
    caseElse n c >>= k = match c.keyword? "ELSE" with
      | some c => parseOr n c >>= fun r => k (some r.1, r.2)
      | none => k (none, c) := by
  show (match c.keyword? "ELSE" with
    | some c => parseOr n c >>= fun r => pure (some r.1, r.2)
    | none => pure (none, c)) >>= k = _
  cases c.keyword? "ELSE" with
  | none => rfl
  | some c => exact bind_assoc _ _ _

theorem parseCase_succ (n : Nat) (c : Cursor) :
    parseCase (n + 1) c = caseOperand n c >>= fun r => caseBranches n r.1 r.2 := by
  simp only [caseBranches, caseFrom, caseOperand_bind, caseElse_bind]
  rfl

theorem closeCase_stops (operand : Option Expr) (branches : List (Expr × Expr))
    (otherwise : Option Expr) : Stops (closeCase operand branches otherwise) :=
  .expect (separates_keyword "END")

theorem carries_closeCase {operand operand' otherwise otherwise' : Option Expr}
    {branches branches' : List (Expr × Expr)} (ho : AlikeOption params operand operand')
    (hb : AlikeBranches params branches branches') (he : AlikeOption params otherwise otherwise') :
    Carries params 8 (closeCase operand branches otherwise)
      (fun _ => closeCase operand' branches' otherwise') (Alike params) :=
  .expect (separates_keyword "END") (.pure (alike_case ho hb he))

theorem caseElse_stops (fuel : Nat) : Stops (caseElse fuel) :=
  .mark (separates_keyword "ELSE") .pure

theorem Simulated.caseElse (h : Simulated params fuel) :
    Carries params 8 (Parser.caseElse fuel) Parser.caseElse (AlikeOption params) :=
  .mark (separates_keyword "ELSE") declines_else
    ((h.or.mono (by decide)).bind (fun _ => .pure) fun he => .pure (.some he)) (.pure .none)

theorem caseFrom_stops (fuel : Nat) (operand : Option Expr) (branches : List (Expr × Expr)) :
    Stops (caseFrom fuel operand branches) := by
  intro c a c₁ hread hfree
  rw [caseFrom] at hread
  split at hread
  · cases hread
  · exact Stops.bind (caseElse_stops fuel) (closeCase_stops operand branches) hread hfree

theorem Simulated.caseFrom (h : Simulated params fuel) {operand operand' : Option Expr}
    {branches branches' : List (Expr × Expr)} (ho : AlikeOption params operand operand')
    (hb : AlikeBranches params branches branches') :
    Carries params 8 (Parser.caseFrom fuel operand branches)
      (fun n => Parser.caseFrom n operand' branches') (Alike params) := by
  cases hb with
  | nil => exact .fails
  | cons hhead htail =>
      exact h.caseElse.bind (closeCase_stops operand _) (carries_closeCase ho (.cons hhead htail))

theorem caseBranches_stops (fuel : Nat) (operand : Option Expr) : Stops (caseBranches fuel operand) :=
  .bind (parseBranches_stops fuel) (caseFrom_stops fuel operand)

theorem Simulated.caseBranches (h : Simulated params fuel) {operand operand' : Option Expr}
    (ho : AlikeOption params operand operand') :
    Carries params 8 (Parser.caseBranches fuel operand)
      (fun n => Parser.caseBranches n operand') (Alike params) :=
  (h.branches.mono (by decide)).bind (caseFrom_stops fuel operand) (h.caseFrom ho)

theorem Simulated.case_succ (h : Simulated params fuel) :
    Carries params 9 (parseCase (fuel + 1)) parseCase (Alike params) :=
  .succ (h.caseOperand.bind (caseBranches_stops fuel) h.caseBranches)
    (parseCase_succ fuel) parseCase_succ

/-! ## Names -/

theorem parseName_succ (n : Nat) (name : String) (position : Nat) (c : Cursor) :
    parseName (n + 1) name position c =
      if Text.asciiUpper name = "NULL" then .ok (.literal .null, c)
      else if Text.asciiUpper name = "TRUE" then .ok (.literal (.bool true), c)
      else if Text.asciiUpper name = "FALSE" then .ok (.literal (.bool false), c)
      else if Text.asciiUpper name = "CASE" then parseCase n c
      else match c.mark? Token.isLParen with
        | some c => parseCall n name position c
        | none =>
            if Text.asciiUpper name ∈ reservedWords then
              .error (.syntaxError position (.unexpectedKeyword (Text.asciiUpper name)))
            else .ok (.field name, c) := by
  rw [parseName]
  split
  · rename_i h
    simp [h]
  · rename_i h
    simp [h]
  · rename_i h
    simp [h]
  · rename_i h
    simp [h]
  · rename_i hnull htrue hfalse hcase
    rw [if_neg hnull, if_neg htrue, if_neg hfalse, if_neg hcase, Cursor.mark?]
    cases c.current.isLParen <;> rfl

theorem Simulated.name_succ (h : Simulated params fuel) (name : String) (position position' : Nat) :
    Carries params 12 (parseName (fuel + 1) name position) (fun n => parseName n name position')
      (Alike params) := by
  have hconstant : ∀ v, v ≠ .int Int64.minValue →
      Alike params (.literal v) (.literal v) := fun v hv => alike_self (by simpa using hv)
  refine .succ ?_ (parseName_succ fuel name position)
    (fun n => parseName_succ n name position')
  split
  · exact .pure (hconstant .null (by simp))
  split
  · exact .pure (hconstant (.bool true) (by simp))
  split
  · exact .pure (hconstant (.bool false) (by simp))
  split
  · exact h.case.mono (by decide)
  · refine .mark separates_isLParen declines_isLParen ((h.call _ _ _).mono (by decide)) ?_
    split
    · exact .fails
    · exact .pure (alike_self (by simp))

/-! ## Operands -/

theorem parseUnary_operand {n : Nat} (hminus : c.current ≠ .minus) (hplus : c.current ≠ .plus) :
    parseUnary (n + 1) c = parsePrimary n c := by
  rw [parseUnary]
  split
  · exact absurd ‹_› hminus
  · exact absurd ‹_› hplus
  · rfl

theorem parseUnary_minus {n : Nat} (h : c.current = .minus) :
    parseUnary (n + 1) c = parseUnary n c.advance >>= fun r => .ok (negate r.1, r.2) := by
  rw [parseUnary, h]
  rfl

/-- The tokens of a literal are read as its value. -/
theorem parseUnary_literal {v : Value} {rest : List Token} {n : Nat} (hv : v.faithful = true)
    (htokens : c.tokens.map Spanned.token = v.literalTokens ++ rest) :
    ∃ c₁, parseUnary (n + 4) c = .ok (.literal v, c₁) ∧ c₁.tokens.map Spanned.token = rest ∧
      c₁.slot = c.slot := by
  have hword : ∀ word, c.current = .ident word → parseUnary (n + 4) c
      = parseName (n + 2) word c.position c.advance := by
    intro word hcurrent
    rw [parseUnary_operand (by simp [hcurrent]) (by simp [hcurrent]), parsePrimary, hcurrent]
  cases v with
  | null =>
      obtain ⟨hcurrent, hrest, hslot⟩ := current_of_tokens htokens
      refine ⟨c.advance, ?_, hrest, hslot⟩
      rw [hword _ hcurrent, parseName_succ]
      rfl
  | bool b =>
      obtain ⟨hcurrent, hrest, hslot⟩ := current_of_tokens htokens
      refine ⟨c.advance, ?_, hrest, hslot⟩
      rw [hword _ hcurrent, parseName_succ]
      cases b <;> rfl
  | int i =>
      rw [Value.literalTokens] at htokens
      split at htokens
      · obtain ⟨hminus, hmore, hslot⟩ := current_of_tokens htokens
        obtain ⟨hcurrent, hrest, hslot'⟩ := current_of_tokens hmore
        refine ⟨c.advance.advance, ?_, hrest, hslot'.trans hslot⟩
        rw [parseUnary_minus hminus, parseUnary_operand (by simp [hcurrent]) (by simp [hcurrent]),
          parsePrimary, hcurrent]
        show Except.ok (Expr.literal (.int (- -i)), _) = _
        rw [Int64.neg_neg]
      · obtain ⟨hcurrent, hrest, hslot⟩ := current_of_tokens htokens
        refine ⟨c.advance, ?_, hrest, hslot⟩
        rw [parseUnary_operand (by simp [hcurrent]) (by simp [hcurrent]), parsePrimary, hcurrent]
  | float x =>
      rw [Value.literalTokens] at htokens
      split at htokens
      · obtain ⟨hminus, hmore, hslot⟩ := current_of_tokens htokens
        obtain ⟨hcurrent, hrest, hslot'⟩ := current_of_tokens hmore
        refine ⟨c.advance.advance, ?_, hrest, hslot'.trans hslot⟩
        rw [parseUnary_minus hminus, parseUnary_operand (by simp [hcurrent]) (by simp [hcurrent]),
          parsePrimary, hcurrent]
        show Except.ok (Expr.literal (.float (- -x)), _) = _
        rw [Binary64.neg_neg_of_finite hv]
      · obtain ⟨hcurrent, hrest, hslot⟩ := current_of_tokens htokens
        refine ⟨c.advance, ?_, hrest, hslot⟩
        rw [parseUnary_operand (by simp [hcurrent]) (by simp [hcurrent]), parsePrimary, hcurrent]
  | string s =>
      obtain ⟨hcurrent, hrest, hslot⟩ := current_of_tokens htokens
      refine ⟨c.advance, ?_, hrest, hslot⟩
      rw [parseUnary_operand (by simp [hcurrent]) (by simp [hcurrent]), parsePrimary, hcurrent]
  | array items => cases hv
  | object fields => cases hv

theorem alike_param {name : String} {v : Value} (hv : params.literal? name = some v) :
    Alike params (.param name) (.literal v) := by
  obtain ⟨hfaithful, hget⟩ := literal?_eq_some hv
  refine ⟨fun row window => ?_, by simp, fun h => ?_⟩
  · simp [Expr.eval, Scope.param, hget]
  · obtain rfl : v = .int Int64.minValue := by simpa using h
    cases hfaithful

/-- A parameter is read, or its literal. -/
theorem carries_param {name : String} {n : Nat} (hfilled : Filled params c c')
    (hcurrent : c.current = .param name) (hfree : c.advance.Free)
    (hn : 16 * c'.tokens.length + 2 ≤ n) :
    ∃ b c₁', parseUnary n c' = .ok (b, c₁') ∧ Alike params (.param name) b ∧
      Filled params c.advance c₁' ∧ Passes c.tokens c.advance.tokens := by
  have hpass : Passes c.tokens c.advance.tokens := passes_advance fun _ => hfree
  cases hv : params.literal? name with
  | none =>
      obtain ⟨hcurrent', hadvance⟩ := hfilled.unfilled hcurrent hv
      obtain ⟨n, rfl⟩ : ∃ m, n = m + 2 := ⟨n - 2, by omega⟩
      refine ⟨.param name, c'.advance, ?_, alike_self (by simp), hadvance, hpass⟩
      rw [parseUnary_operand (by simp [hcurrent']) (by simp [hcurrent']), parsePrimary, hcurrent']
  | some v =>
      have htokens := hfilled.literal hcurrent hv
      have hlength : 0 < c'.tokens.length := by
        have := congrArg List.length htokens
        have := List.length_pos_iff.2 (literalTokens_ne_nil (literal?_eq_some hv).1)
        simp only [List.length_map, List.length_append] at *
        omega
      obtain ⟨n, rfl⟩ : ∃ m, n = m + 4 := ⟨n - 4, by omega⟩
      obtain ⟨c₁', hread', hrest, hslot⟩ :=
        parseUnary_literal (n := n) (literal?_eq_some hv).1 htokens
      refine ⟨.literal v, c₁', hread', alike_param hv, ⟨hrest, hslot.trans hfilled.slot, ?_⟩, hpass⟩
      intro s hs
      exact hfilled.written s (List.mem_of_mem_tail hs)

/-- One token that stays is an operand of its own. -/
theorem carries_leaf {e : Expr} (he : e ≠ .literal (.int Int64.minValue))
    (hfilled : Filled params c c') (hparam : ∀ name, c.current ≠ .param name)
    (hfree : c.advance.Free) :
    ∃ b c₁', (.ok (e, c'.advance) : Except ExpressionError (Expr × Cursor)) = .ok (b, c₁') ∧
      Alike params e b ∧ Filled params c.advance c₁' ∧ Passes c.tokens c.advance.tokens :=
  ⟨e, c'.advance, rfl, alike_self he, (hfilled.same hparam).2, passes_advance fun _ => hfree⟩

theorem integer_written {i : Int64} (hfilled : Filled params c c') (h : c.current = .integer i) :
    i ≠ Int64.minValue := by
  obtain ⟨tokens, slot, stop⟩ := c
  cases tokens with
  | nil => cases h
  | cons s rest =>
      have hs : s.token = .integer i := h
      have hwritten := (hfilled.written s List.mem_cons_self).2
      rw [hs] at hwritten
      simpa using hwritten

theorem Simulated.primary_succ (h : Simulated params fuel) :
    Carries params 1 (parseOther (fuel + 1)) parsePrimary (Alike params) := by
  intro c c' e c₁ n hfilled hread hfree hn
  obtain ⟨n, rfl⟩ : ∃ m, n = m + 1 := ⟨n - 1, by omega⟩
  rw [parseOther] at hread
  split at hread
  · cases hread
  rename_i hparam
  have hsame := (hfilled.same hparam).1
  rw [parsePrimary] at hread
  rw [parsePrimary, hsame]
  cases hcurrent : c.current with
  | integer i =>
      rw [hcurrent] at hread
      obtain ⟨rfl, rfl⟩ := Prod.mk.inj (Except.ok.inj hread)
      have hi := integer_written hfilled hcurrent
      exact carries_leaf (by simpa using hi) hfilled hparam hfree
  | float x =>
      rw [hcurrent] at hread
      obtain ⟨rfl, rfl⟩ := Prod.mk.inj (Except.ok.inj hread)
      exact carries_leaf (by simp) hfilled hparam hfree
  | string s =>
      rw [hcurrent] at hread
      obtain ⟨rfl, rfl⟩ := Prod.mk.inj (Except.ok.inj hread)
      exact carries_leaf (by simp) hfilled hparam hfree
  | quotedIdent name =>
      rw [hcurrent] at hread
      obtain ⟨rfl, rfl⟩ := Prod.mk.inj (Except.ok.inj hread)
      exact carries_leaf (by simp) hfilled hparam hfree
  | ident name =>
      rw [hcurrent] at hread
      have hname := (h.name name c.position c'.position).mono (by decide : _ ≤ 0 + 16)
      exact hname.after hfilled hparam (by simp [hcurrent])
        (by simp [hcurrent, Token.isOperand]) hread hfree (by omega : _ ≤ n)
  | lparen =>
      rw [hcurrent] at hread
      exact Carries.after ((h.or.mono (by decide : _ ≤ 0 + 16)).bind (fun _ => .expect separates_isRParen)
          fun he => .expect separates_isRParen (.pure he)) hfilled hparam
        (by simp [hcurrent]) (by simp [hcurrent, Token.isOperand]) hread hfree (by omega : _ ≤ n)
  | param name => exact absurd hcurrent (hparam name)
  | _ =>
      rw [hcurrent] at hread
      cases hread

theorem Simulated.unary_succ (h : Simulated params fuel) :
    Carries params 2 (parseUnary (fuel + 1)) parseUnary (Alike params) := by
  intro c c' e c₁ n hfilled hread hfree hn
  by_cases hparam : ∃ name, c.current = .param name
  · obtain ⟨name, hcurrent⟩ := hparam
    rw [parseUnary_operand (by simp [hcurrent]) (by simp [hcurrent])] at hread
    cases fuel with
    | zero => cases hread
    | succ fuel =>
        rw [parsePrimary, hcurrent] at hread
        obtain ⟨rfl, rfl⟩ := Prod.mk.inj (Except.ok.inj hread)
        exact carries_param hfilled hcurrent hfree hn
  · replace hparam : ∀ name, c.current ≠ .param name := fun name hname => hparam ⟨name, hname⟩
    obtain ⟨n, rfl⟩ : ∃ m, n = m + 1 := ⟨n - 1, by omega⟩
    have hsame := (hfilled.same hparam).1
    by_cases hminus : c.current = .minus
    · rw [parseUnary_minus hminus] at hread
      rw [parseUnary_minus (by rw [hsame, hminus])]
      exact Carries.after ((h.unary.mono (by decide : _ ≤ 0 + 16)).bind (fun _ => .pure) fun he => .pure he.negate)
        hfilled hparam (by simp [hminus]) (by simp [hminus, Token.isOperand]) hread hfree
        (by omega : _ ≤ n)
    by_cases hplus : c.current = .plus
    · rw [parseUnary, hplus] at hread
      rw [parseUnary, hsame, hplus]
      exact Carries.after (h.unary.mono (by decide : _ ≤ 0 + 16)) hfilled hparam (by simp [hplus])
        (by simp [hplus, Token.isOperand]) hread hfree (by omega : _ ≤ n)
    · rw [parseUnary_operand hminus hplus] at hread
      rw [parseUnary_operand (by rwa [hsame]) (by rwa [hsame])]
      refine h.primary hfilled ?_ hfree (by omega)
      rw [parseOther]
      split
      · exact absurd ‹_› (hparam _)
      · exact hread

/-! ## Any amount of fuel -/

/-- Without fuel nothing is read. -/
theorem carries_exhausted {f : Reader α} {g : Nat → Reader β} {R : α → β → Prop}
    (h : ∀ c, f c = .error (exhausted c)) : Carries params need f g R := by
  intro c c' a c₁ n _ hread
  rw [h] at hread
  cases hread

theorem simulated_zero (params : Parameters) : Simulated params 0 where
  or := carries_exhausted fun _ => by rw [parseOr]
  orTail _ := carries_exhausted fun _ => by rw [orTail]
  and := carries_exhausted fun _ => by rw [parseAnd]
  andTail _ := carries_exhausted fun _ => by rw [andTail]
  not := carries_exhausted fun _ => by rw [parseNot]
  comparison := carries_exhausted fun _ => by rw [parseComparison]
  comparisonTail _ := carries_exhausted fun _ => by rw [comparisonTail]
  additive := carries_exhausted fun _ => by rw [parseAdditive]
  additiveTail _ := carries_exhausted fun _ => by rw [additiveTail]
  multiplicative := carries_exhausted fun _ => by rw [parseMultiplicative]
  multiplicativeTail _ := carries_exhausted fun _ => by rw [multiplicativeTail]
  unary := carries_exhausted fun _ => by rw [parseUnary]
  primary := carries_exhausted fun c => by
    rw [parseOther, parsePrimary]
    split <;> rfl
  name _ _ _ := carries_exhausted fun _ => by rw [parseName]
  list := carries_exhausted fun _ => by rw [parseList]
  items := carries_exhausted fun _ => by rw [parseItems]
  call _ _ _ := carries_exhausted fun _ => by rw [parseCall]
  aggregateArgument _ _ _ _ := carries_exhausted fun _ => by
    rw [readArgument, parseAggregateArgument]
    rfl
  window _ _ := carries_exhausted fun _ => by rw [parseOver]
  partitions := carries_exhausted fun _ => by rw [parsePartitions]
  orderKeys := carries_exhausted fun _ => by rw [parseOrderKeys]
  case := carries_exhausted fun _ => by rw [parseCase]
  branches := carries_exhausted fun _ => by rw [parseBranches]

theorem simulated (params : Parameters) (fuel : Nat) : Simulated params fuel := by
  induction fuel with
  | zero => exact simulated_zero params
  | succ fuel ih =>
      exact {
        or := orChain.carries_level ih.and ih.orTail
        orTail := orChain.carries_tail (by decide) ih.and ih.orTail
        and := andChain.carries_level ih.not ih.andTail
        andTail := andChain.carries_tail (by decide) ih.not ih.andTail
        not := ih.not_succ
        comparison := ih.comparison_succ
        comparisonTail := ih.comparisonTail_succ
        additive := additiveChain.carries_level ih.multiplicative ih.additiveTail
        additiveTail := additiveChain.carries_tail (by decide) ih.multiplicative ih.additiveTail
        multiplicative := multiplicativeChain.carries_level ih.unary ih.multiplicativeTail
        multiplicativeTail := multiplicativeChain.carries_tail (by decide) ih.unary ih.multiplicativeTail
        unary := ih.unary_succ
        primary := ih.primary_succ
        name := ih.name_succ
        list := ih.list_succ
        items := ih.items_succ
        call := ih.call_succ
        aggregateArgument := ih.readArgument_succ
        window := ih.window_succ
        partitions := ih.partitions_succ
        orderKeys := ih.orderKeys_succ
        case := ih.case_succ
        branches := ih.branches_succ }

end RowPipeline.Parser
