import RowPipeline.Proofs.GrammarSoundness

/-!
# What the grammar derives, the parser reads

The parser never looks back, so what it makes of a phrase depends on the token behind it: an
expression ends only before a token that does not go on with it. Along a derivation every phrase is
read off the front of any tokens that may stand behind it, with fuel in proportion to all of them.
-/

namespace RowPipeline

namespace Grammar

open RowPipeline.Parser

/-! ## What goes on with an expression -/

/-- The rank of the level that goes on with a word, in capitals. -/
def wordReach : String → Nat
  | "OR" => Level.or.rank
  | "AND" => Level.and.rank
  | "IS" | "IN" | "BETWEEN" | "LIKE" | "NOT" => Level.comparison.rank
  | "OVER" => Level.primary.rank + 1
  | _ => 0

/-- The rank of the level that goes on with a token. A parenthesis makes a call of a name, and OVER a
window of an aggregate, so nothing ends before them. -/
def reach : Token → Nat
  | .orOr => Level.or.rank
  | .andAnd => Level.and.rank
  | .eq | .notEq | .lt | .ltEq | .gt | .gtEq => Level.comparison.rank
  | .plus | .minus => Level.additive.rank
  | .star | .slash | .percent => Level.multiplicative.rank
  | .lparen => Level.primary.rank + 1
  | .ident name => wordReach (Text.asciiUpper name)
  | _ => 0

/-- Only levels up to `rank` go on with what follows. -/
def Follows (rank : Nat) (rest : List Token) : Prop := ∀ t ∈ rest.head?, reach t ≤ rank

variable {s s' s₁ k n : Nat} {ts us rest : List Token} {t : Token} {c c' : Cursor} {ℓ : Level}
  {op : BinaryOp} {e l : Expr} {is : Token → Bool} {what word : String} {negated : Bool}

theorem reach_of_isKeyword (h : t.isKeyword word = true) :
    reach t = wordReach (Text.asciiUpper word) := by
  obtain ⟨name, rfl, hupper⟩ := ident_of_isKeyword h
  rw [reach, hupper]

theorem reach_of_joins (h : ℓ.joins t = some op) : reach t = ℓ.rank := by
  cases ℓ with
  | or =>
      have hor : t.isOr = true := by
        by_contra hno
        simp [Level.joins, hno] at h
      cases t with
      | orOr => rfl
      | ident name => exact reach_of_isKeyword (t := .ident name) hor
      | _ => cases hor
  | and =>
      have hand : t.isAnd = true := by
        by_contra hno
        simp [Level.joins, hno] at h
      cases t with
      | andAnd => rfl
      | ident name => exact reach_of_isKeyword (t := .ident name) hand
      | _ => cases hand
  | comparison | additive | multiplicative => cases t <;> first | rfl | cases h
  | not | unary | primary => cases h

theorem Follows.mono {k' : Nat} (h : Follows k rest) (hle : k ≤ k') : Follows k' rest :=
  fun t ht => Nat.le_trans (h t ht) hle

theorem follows_cons (h : reach t ≤ k) : Follows k (t :: rest) := by
  intro u hu
  obtain rfl : t = u := Option.some.inj hu
  exact h

theorem follows_keyword (h : t.isKeyword word = true)
    (hreach : wordReach (Text.asciiUpper word) ≤ k) : Follows k (t :: rest) :=
  follows_cons (by rwa [reach_of_isKeyword h])

/-! ## Cursors in front of tokens -/

/-- A cursor in front of some tokens, with the next slot. -/
structure At (c : Cursor) (s : Nat) (ts : List Token) : Prop where
  ahead : c.ahead = ts
  slot : c.slot = s

theorem At.current (h : At c s (t :: ts)) : c.current = t := (current_of_tokens h.ahead).1

theorem At.advance (h : At c s (t :: ts)) : At c.advance s ts :=
  have hrest := (current_of_tokens h.ahead).2
  ⟨hrest.1, hrest.2.trans h.slot⟩

theorem At.mark (h : At c s (t :: ts)) (hmark : is t = true) : c.mark? is = some c.advance := by
  rw [Cursor.mark?, h.current, if_pos hmark]

theorem At.no_mark (h : At c s (t :: ts)) (hmark : is t = false) : c.mark? is = none := by
  rw [mark?_eq_none, h.current, hmark]

theorem At.expect (h : At c s (t :: ts)) (hmark : is t = true) :
    c.expectMark is what = .ok c.advance := by
  rw [Cursor.expectMark, h.mark hmark]

theorem At.reach_le (h : At c s rest) (hfollows : Follows k rest) : reach c.current ≤ k := by
  cases rest with
  | nil =>
      have hempty : c.tokens = [] := by simpa [Cursor.ahead] using h.ahead
      rw [Cursor.current, hempty]
      exact Nat.zero_le k
  | cons t more =>
      rw [h.current]
      exact hfollows t rfl

/-- A token that reaches further than `k` does not come next. -/
theorem not_keyword_of_reach (word : String) (h : reach c.current ≤ k)
    (hreach : k < wordReach (Text.asciiUpper word)) : c.current.isKeyword word = false := by
  refine Bool.eq_false_iff.2 fun hkeyword => ?_
  rw [reach_of_isKeyword hkeyword] at h
  omega

theorem comparison_end (h : reach c.current < Level.comparison.rank) (n : Nat) (e : Expr) :
    comparisonTail (n + 1) e c = .ok (e, c) := by
  have hle : reach c.current ≤ 3 := Nat.le_of_lt_succ h
  have hop : c.current.comparison? = none := by
    refine Option.eq_none_iff_forall_not_mem.2 fun op hop => ?_
    have hrank : reach c.current = Level.comparison.rank := reach_of_joins (ℓ := .comparison) hop
    omega
  have his := not_keyword_of_reach "IS" hle (by decide)
  have hnot := not_keyword_of_reach "NOT" hle (by decide)
  have hin := not_keyword_of_reach "IN" hle (by decide)
  have hbetween := not_keyword_of_reach "BETWEEN" hle (by decide)
  have hlike := not_keyword_of_reach "LIKE" hle (by decide)
  rw [comparisonTail_succ]
  simp only [choose, hop, mark?_eq_none.2 his, negation, hnot, Bool.false_and, predicate,
    Bool.false_eq_true, if_false, mark?_eq_none.2 hin, mark?_eq_none.2 hbetween,
    mark?_eq_none.2 hlike]

/-- A level ends where only looser ones go on. -/
theorem tail_stops (h : reach c.current < ℓ.rank) (n : Nat) (e : Expr) :
    ℓ.tail (n + 1) e c = .ok (e, c) := by
  by_cases hcomparison : ℓ = .comparison
  · subst hcomparison
    exact comparison_end h n e
  · refine Level.tail_end hcomparison (Option.eq_none_iff_forall_not_mem.2 fun op hop => ?_) n e
    rw [reach_of_joins hop] at h
    omega

/-! ## What is read of a phrase -/

/-- The fuel that a level takes besides what the tokens pay for. -/
def Level.need (ℓ : Level) : Nat := 9 - ℓ.rank

/-- What has been read as `ts` is an operand of the level, which then goes on as far as it can. -/
def Runs (s : Nat) (ts : List Token) (ℓ : Level) (e : Expr) (s' : Nat) : Prop :=
  ∀ ⦃rest n c⦄, At c s (ts ++ rest) → Follows ℓ.rank rest →
    16 * (ts ++ rest).length + ℓ.need ≤ n →
    ∃ n' c', 16 * rest.length < n' ∧ At c' s' rest ∧ ℓ.read n c = ℓ.tail n' e c'

/-- A function takes `ts` off the tokens in front of a cursor, before any `rest` that may follow. -/
def Reads {α : Type} (need : Nat) (read : Nat → Reader α) (before : List Token → Prop) (s : Nat)
    (ts : List Token) (a : α) (s' : Nat) : Prop :=
  ∀ ⦃rest n c⦄, At c s (ts ++ rest) → before rest → 16 * (ts ++ rest).length + need ≤ n →
    ∃ c', read n c = .ok (a, c') ∧ At c' s' rest

/-- Whether a certain token comes first. -/
def Next (is : Token → Bool) (rest : List Token) : Prop := ∃ t us, rest = t :: us ∧ is t = true

def anything (_ : List Token) : Prop := True

/-- What reading a phrase means for each kind. -/
def Phrase.Read : Phrase → Nat → List Token → Nat → Prop
  | .expr ℓ e, s, ts, s' => Runs s ts ℓ e s'
  | .list es, s, ts, s' => Reads 10 parseList anything s ts es s'
  | .items es, s, ts, s' => Reads 9 parseItems anything s ts es s'
  | .argument func found arg, s, ts, s' => ∀ name position,
      Reads 9 (fun n => readArgument n func name position) anything s ts (found, arg) s'
  | .overWindow func e, s, ts, s' => Reads 1 (fun n => parseOver n func) anything s ts e s'
  | .partitions es, s, ts, s' =>
      Reads 5 parsePartitions (Next fun t => t.isRParen || t.isKeyword "ORDER") s ts es s'
  | .keys ks, s, ts, s' => Reads 5 parseOrderKeys (Next Token.isRParen) s ts ks s'
  | .partitionClause es, s, ts, s' =>
      Reads 0 (fun n => clause "PARTITION" (parsePartitions n))
        (Next fun t => t.isRParen || t.isKeyword "ORDER") s ts es s'
  | .orderClause ks, s, ts, s' =>
      Reads 0 (fun n => clause "ORDER" (parseOrderKeys n)) (Next Token.isRParen) s ts ks s'
  | .operand o, s, ts, s' => Reads 8 caseOperand (Next (Token.isKeyword "WHEN")) s ts o s'
  | .branches bs, s, ts, s' =>
      Reads 1 parseBranches (Next fun t => t.isKeyword "ELSE" || t.isKeyword "END") s ts bs s'
  | .otherwise o, s, ts, s' => Reads 0 caseElse (Next (Token.isKeyword "END")) s ts o s'

/-- An operand is read whole before something that does not go on with its level. -/
theorem Runs.closed (h : Runs s ts ℓ e s') (hc : At c s (ts ++ rest)) (hrest : Follows k rest)
    (hk : k < ℓ.rank) (hn : 16 * (ts ++ rest).length + ℓ.need ≤ n) :
    ∃ c', ℓ.read n c = .ok (e, c') ∧ At c' s' rest := by
  obtain ⟨n', c', hn', hc', hread⟩ := h hc (hrest.mono (Nat.le_of_lt hk)) hn
  obtain ⟨m, rfl⟩ : ∃ m, n' = m + 1 := ⟨n' - 1, by omega⟩
  have hreach := hc'.reach_le hrest
  exact ⟨c', by rw [hread, tail_stops (by omega)], hc'⟩

/-- A whole expression ends before a token that goes on with nothing. -/
theorem Runs.whole (h : Runs s ts .or e s') (hc : At c s (ts ++ t :: rest)) (ht : reach t = 0)
    (hn : 16 * (ts ++ t :: rest).length + 8 ≤ n) :
    ∃ c', parseOr n c = .ok (e, c') ∧ At c' s' (t :: rest) :=
  h.closed hc (k := 0) (follows_cons (by omega)) (by decide) hn

/-! ## Operators -/

theorem runs_up (h : Runs s ts ℓ.next e s') (hbegun : (Phrase.expr ℓ.next e).Begun ts) :
    Runs s ts ℓ e s' := by
  intro rest n c hc hrest hn
  -- a chain may go on behind its first operand; the other levels end with it
  by_cases hchain : ℓ.isChain = true
  · have hneed : ℓ.need = ℓ.next.need + 1 := by cases ℓ <;> first | rfl | cases hchain
    have hlt : ℓ.rank < ℓ.next.rank := by cases ℓ <;> first | decide | cases hchain
    obtain ⟨m, rfl⟩ : ∃ m, n = m + 1 := ⟨n - 1, by omega⟩
    obtain ⟨c', hread, hc'⟩ := h.closed hc hrest hlt (n := m) (by omega)
    refine ⟨m, c', ?_, hc', by rw [Level.read_succ hchain, hread]; rfl⟩
    obtain ⟨t, us, rfl, -⟩ := hbegun
    simp only [List.length_append, List.length_cons] at hn
    omega
  · obtain ⟨t, us, rfl, ht⟩ := hbegun
    obtain ⟨m, rfl⟩ : ∃ m, n = m + 1 := ⟨n - 1, by
      simp only [List.length_append, List.length_cons] at hn
      omega⟩
    rw [List.cons_append] at hc hn
    have hcurrent : c.current = t := hc.current
    have hn' : 16 * rest.length < m := by
      simp only [List.length_append, List.length_cons] at hn
      omega
    cases ℓ with
    | not =>
        have hnot : c.mark? Token.isNot = none := hc.no_mark (ht.not (by decide))
        obtain ⟨c', hread, hc'⟩ := h.closed hc hrest (by decide) (Nat.le_of_succ_le_succ hn)
        refine ⟨m, c', hn', hc', ?_⟩
        show parseNot (m + 1) c = .ok (e, c')
        rw [parseNot, hnot]
        exact hread
    | unary =>
        obtain ⟨hminus, hplus⟩ := ht.sign (by decide)
        obtain ⟨n', c', -, hc', hread⟩ := h hc (hrest.mono (by decide))
          (Nat.le_of_succ_le_succ hn)
        refine ⟨m, c', hn', hc', ?_⟩
        show parseUnary (m + 1) c = .ok (e, c')
        rw [parseUnary_operand (by rwa [hcurrent]) (by rwa [hcurrent])]
        exact hread
    | primary => exact h hc hrest hn
    | _ => exact absurd rfl hchain

theorem runs_binary {ls rs : List Token} {r : Expr} (hl : Runs s ls ℓ l s₁)
    (hop : ℓ.joins t = some op) (hr : Runs s₁ rs ℓ.next r s') :
    Runs s (ls ++ t :: rs) ℓ (.binary op l r) s' := by
  intro rest n c hc hrest hn
  rw [List.append_assoc] at hc hn
  have hreach := reach_of_joins hop
  obtain ⟨n', c', hn', hc', hread⟩ := hl hc (follows_cons (by omega)) hn
  obtain ⟨m, rfl⟩ : ∃ m, n' = m + 1 := ⟨n' - 1, by omega⟩
  -- the right operand binds tighter, so a second operator of the level joins what is read so far
  have hlt : ℓ.rank < ℓ.next.rank := by cases ℓ <;> first | decide | cases hop
  have hneed : ℓ.next.need ≤ 8 := by cases ℓ <;> decide
  simp only [List.cons_append, List.length_cons, List.length_append] at hn'
  obtain ⟨c₂, hright, hc₂⟩ := hr.closed (At.advance hc') hrest hlt (n := m) (by
    simp only [List.length_append]
    omega)
  refine ⟨m, c₂, by omega, hc₂, ?_⟩
  rw [hread, Level.tail_join (by rwa [At.current hc']), hright]
  rfl

/-- A token before an operand of its own level, where no operator stands between operands. -/
theorem runs_behind {d : Expr} (hchain : ℓ.isChain = false) (h : Runs s ts ℓ e s')
    (hstep : ∀ {m c c'}, c.current = t → ℓ.read m c.advance = .ok (e, c') →
      ℓ.read (m + 1) c = .ok (d, c')) : Runs s (t :: ts) ℓ d s' := by
  intro rest n c hc hrest hn
  rw [List.cons_append, List.length_cons] at hn
  obtain ⟨m, rfl⟩ : ∃ m, n = m + 1 := ⟨n - 1, by omega⟩
  obtain ⟨n', c', hn', hc', hread⟩ := h (At.advance hc) hrest (n := m) (by omega)
  rw [Level.tail_other hchain] at hread
  refine ⟨n', c', hn', hc', ?_⟩
  rw [Level.tail_other hchain]
  exact hstep (At.current hc) hread

theorem runs_not (ht : t.isNot = true) (h : Runs s ts .not e s') :
    Runs s (t :: ts) .not (.unary .not e) s' := by
  refine runs_behind rfl h fun {m c c'} hcurrent hread => ?_
  have hoperand : parseNot m c.advance = .ok (e, c') := hread
  show parseNot (m + 1) c = .ok (.unary .not e, c')
  rw [parseNot, Cursor.mark?, hcurrent, if_pos ht]
  simp only [hoperand]
  rfl

theorem runs_minus (h : Runs s ts .unary e s') : Runs s (.minus :: ts) .unary (negate e) s' := by
  refine runs_behind rfl h fun {m c c'} hcurrent hread => ?_
  have hoperand : parseUnary m c.advance = .ok (e, c') := hread
  show parseUnary (m + 1) c = .ok (negate e, c')
  rw [parseUnary_minus hcurrent, hoperand]
  rfl

theorem runs_plus (h : Runs s ts .unary e s') : Runs s (.plus :: ts) .unary e s' := by
  refine runs_behind rfl h fun {m c c'} hcurrent hread => ?_
  show parseUnary (m + 1) c = .ok (e, c')
  rw [parseUnary, hcurrent]
  exact hread

/-! ## Predicates -/

theorem comparison_of_isKeyword (h : t.isKeyword word = true) : t.comparison? = none := by
  obtain ⟨name, rfl, -⟩ := ident_of_isKeyword h
  rfl

theorem keyword_ne (h : t.isKeyword word = true) (other : String)
    (hother : Text.sameIgnoringCase word other = false) : t.isKeyword other = false := by
  rw [isKeyword_congr h, hother]

/-- NOT behind IS is taken when it is there. -/
theorem optional_negates {ns : List Token} {u : Token} (hnegates : Negates negated ns)
    (hu : u.isKeyword "NULL" = true) (hc : At c s (ns ++ u :: ts)) :
    ∃ c', Parser.optional (Token.isKeyword "NOT") c = (negated, c') ∧ At c' s (u :: ts) := by
  cases hnegates with
  | no =>
      refine ⟨c, ?_, hc⟩
      rw [Parser.optional, At.no_mark hc (keyword_ne hu "NOT" (by decide))]
  | yes hword =>
      refine ⟨c.advance, ?_, At.advance hc⟩
      rw [Parser.optional, At.mark hc hword]

/-- A predicate other than a null test stands behind an operand: no operator comes first, and NOT is
taken when it is there. -/
theorem negation_negates {ns : List Token} (hnegates : Negates negated ns)
    (hword : t.isKeyword word = true) (hmem : word ∈ ["IN", "BETWEEN", "LIKE"])
    (hc : At c s (ns ++ t :: ts)) (n : Nat) (l : Expr) :
    ∃ c', comparisonTail (n + 1) l c = predicate n l negated c' ∧ At c' s (t :: ts) := by
  have hdistinct : Text.sameIgnoringCase word "IS" = false ∧
      Text.sameIgnoringCase word "NOT" = false :=
    (by decide : ∀ w ∈ ["IN", "BETWEEN", "LIKE"], Text.sameIgnoringCase w "IS" = false ∧
      Text.sameIgnoringCase w "NOT" = false) word hmem
  rw [comparisonTail_succ]
  cases hnegates with
  | no =>
      have hcurrent : c.current = t := At.current hc
      refine ⟨c, ?_, hc⟩
      simp only [choose, hcurrent, comparison_of_isKeyword hword,
        At.no_mark hc (keyword_ne hword "IS" hdistinct.1), negation,
        keyword_ne hword "NOT" hdistinct.2, Bool.false_and, Bool.false_eq_true, if_false]
  | @yes u hu =>
      have hcurrent : c.current = u := At.current hc
      have hc' : At c.advance s (t :: ts) := At.advance hc
      -- the parser looks past NOT before it takes it
      have hsecond : (["IN", "BETWEEN", "LIKE"].any fun word => c.second.isKeyword word) = true := by
        rw [second_eq, hc'.current]
        exact List.any_eq_true.2 ⟨word, hmem, hword⟩
      refine ⟨c.advance, ?_, hc'⟩
      simp only [choose, hcurrent, comparison_of_isKeyword hu,
        At.no_mark hc (keyword_ne hu "IS" (by decide)), negation, hu, hsecond, Bool.and_self,
        if_true]

/-- What comes first of a predicate goes on with comparisons. -/
theorem follows_negates {ns : List Token} (hnegates : Negates negated ns)
    (hword : t.isKeyword word = true) (hmem : word ∈ ["IN", "BETWEEN", "LIKE"]) :
    Follows Level.comparison.rank (ns ++ t :: ts) := by
  have hreach : wordReach (Text.asciiUpper word) ≤ Level.comparison.rank :=
    (by decide : ∀ w ∈ ["IN", "BETWEEN", "LIKE"],
      wordReach (Text.asciiUpper w) ≤ Level.comparison.rank) word hmem
  cases hnegates with
  | no => exact follows_keyword hword hreach
  | yes hnot => exact follows_keyword hnot (by decide)

theorem runs_isNull {ls ns : List Token} {u : Token} (hl : Runs s ls .comparison l s')
    (ht : t.isKeyword "IS" = true) (hnegates : Negates negated ns)
    (hu : u.isKeyword "NULL" = true) :
    Runs s (ls ++ t :: (ns ++ [u])) .comparison (.isNull l negated) s' := by
  intro rest n c hc hrest hn
  simp only [List.append_assoc, List.cons_append, List.nil_append] at hc hn
  obtain ⟨n', c', hn', hc', hread⟩ := hl hc (follows_keyword ht (by decide)) hn
  obtain ⟨m, rfl⟩ : ∃ m, n' = m + 1 := ⟨n' - 1, by omega⟩
  obtain ⟨c₂, hoptional, hc₂⟩ := optional_negates hnegates hu (At.advance hc')
  simp only [List.length_cons, List.length_append] at hn'
  refine ⟨m, c₂.advance, by omega, At.advance hc₂, ?_⟩
  rw [hread]
  show comparisonTail (m + 1) l c' = comparisonTail m (.isNull l negated) c₂.advance
  have hcurrent : c'.current = t := At.current hc'
  rw [comparisonTail_succ]
  simp only [choose, hcurrent, comparison_of_isKeyword ht, At.mark hc' ht, hoptional, nullTest,
    At.expect hc₂ hu]
  rfl

/-- A predicate other than a null test, behind its subject and perhaps NOT. -/
theorem runs_predicate {ls ns : List Token} {d : Expr} (hl : Runs s ls .comparison l s₁)
    (hnegates : Negates negated ns) (ht : t.isKeyword word = true)
    (hmem : word ∈ ["IN", "BETWEEN", "LIKE"])
    (hpredicate : ∀ ⦃rest n c⦄, At c s₁ (t :: (us ++ rest)) → Follows Level.comparison.rank rest →
      16 * (us ++ rest).length + 16 ≤ n →
      ∃ c', predicate n l negated c = comparisonTail n d c' ∧ At c' s' rest) :
    Runs s (ls ++ (ns ++ t :: us)) .comparison d s' := by
  intro rest n c hc hrest hn
  simp only [List.append_assoc, List.cons_append] at hc hn
  have hfollows := @follows_negates (us ++ rest) t _ _ ns hnegates ht hmem
  obtain ⟨n', c', hn', hc', hread⟩ := hl hc hfollows hn
  obtain ⟨m, rfl⟩ : ∃ m, n' = m + 1 := ⟨n' - 1, by omega⟩
  obtain ⟨c₂, htail, hc₂⟩ := negation_negates hnegates ht hmem hc' m l
  simp only [List.length_cons, List.length_append] at hn'
  obtain ⟨c₃, htaken, hc₃⟩ := hpredicate hc₂ hrest (n := m) (by
    simp only [List.length_append]
    omega)
  refine ⟨m, c₃, by omega, hc₃, ?_⟩
  rw [hread]
  show comparisonTail (m + 1) l c' = comparisonTail m d c₃
  rw [htail, htaken]

theorem runs_inList {ls ns : List Token} {list : List Expr} (hl : Runs s ls .comparison l s₁)
    (hnegates : Negates negated ns) (ht : t.isKeyword "IN" = true)
    (hlist : Reads 10 parseList anything s₁ ts list s') :
    Runs s (ls ++ (ns ++ t :: .lparen :: ts)) .comparison (.inList l list negated) s' := by
  refine runs_predicate hl hnegates ht (by simp) fun rest m c hc _ hm => ?_
  have hc₁ : At c.advance s₁ (.lparen :: (ts ++ rest)) := At.advance hc
  rw [List.cons_append, List.length_cons] at hm
  obtain ⟨c₂, hitems, hc₂⟩ := hlist hc₁.advance trivial (n := m) (by omega)
  have hparen : c.advance.expectMark Token.isLParen "'(' after IN" = .ok c.advance.advance :=
    hc₁.expect rfl
  refine ⟨c₂, ?_, hc₂⟩
  rw [predicate, At.mark hc ht]
  simp only [hparen, bind, Except.bind, hitems]

theorem runs_between {ls ns as bs : List Token} {u : Token} {s₂ : Nat} {low high : Expr}
    (hl : Runs s ls .comparison l s₁) (hnegates : Negates negated ns)
    (ht : t.isKeyword "BETWEEN" = true) (hlow : Runs s₁ as .additive low s₂)
    (hu : u.isKeyword "AND" = true) (hhigh : Runs s₂ bs .additive high s') :
    Runs s (ls ++ (ns ++ t :: (as ++ u :: bs))) .comparison (.between l low high negated) s' := by
  refine runs_predicate hl hnegates ht (by simp) fun rest m c hc hrest hm => ?_
  simp only [List.append_assoc, List.cons_append] at hc hm
  -- the AND behind the lower bound is no operator of an additive expression
  have hand : Follows Level.comparison.rank (u :: (bs ++ rest)) := follows_keyword hu (by decide)
  obtain ⟨c₂, hlower, hc₂⟩ := hlow.closed (At.advance hc) hand (by decide) (n := m) (by
    simp only [Level.need, Level.rank]
    omega)
  simp only [List.length_append, List.length_cons] at hm
  obtain ⟨c₃, hupper, hc₃⟩ := hhigh.closed (At.advance hc₂) hrest (by decide) (n := m) (by
    simp only [List.length_append, Level.need, Level.rank]
    omega)
  have hlower' : parseAdditive m c.advance = .ok (low, c₂) := hlower
  have hupper' : parseAdditive m c₂.advance = .ok (high, c₃) := hupper
  have hexpect : c₂.expectMark (Token.isKeyword "AND") "AND" = .ok c₂.advance := At.expect hc₂ hu
  refine ⟨c₃, ?_, hc₃⟩
  rw [predicate, At.no_mark hc (keyword_ne ht "IN" (by decide)), At.mark hc ht]
  simp only [hlower', hexpect, hupper', bind, Except.bind]

theorem runs_like {ls ns ps : List Token} {pattern : Expr} (hl : Runs s ls .comparison l s₁)
    (hnegates : Negates negated ns) (ht : t.isKeyword "LIKE" = true)
    (hpattern : Runs s₁ ps .additive pattern s') :
    Runs s (ls ++ (ns ++ t :: ps)) .comparison (.like l pattern negated) s' := by
  refine runs_predicate hl hnegates ht (by simp) fun rest m c hc hrest hm => ?_
  obtain ⟨c₂, hform, hc₂⟩ := hpattern.closed (At.advance hc) hrest (by decide) (n := m) (by
    simp only [Level.need, Level.rank]
    omega)
  have hform' : parseAdditive m c.advance = .ok (pattern, c₂) := hform
  refine ⟨c₂, ?_, hc₂⟩
  rw [predicate, At.no_mark hc (keyword_ne ht "IN" (by decide)),
    At.no_mark hc (keyword_ne ht "BETWEEN" (by decide)), At.mark hc ht]
  simp only [hform', bind, Except.bind]

/-! ## Lists and windows -/

theorem reads_itemsLast (h : Runs s ts .or e s') :
    Reads 9 parseItems anything s (ts ++ [.rparen]) [e] s' := by
  intro rest n c hc _ hn
  simp only [List.append_assoc, List.cons_append, List.nil_append] at hc hn
  obtain ⟨m, rfl⟩ : ∃ m, n = m + 1 := ⟨n - 1, by omega⟩
  obtain ⟨c', hread, hc'⟩ := h.whole hc rfl (n := m) (by omega)
  have hclose : c'.mark? Token.isRParen = some c'.advance := At.mark hc' rfl
  refine ⟨c'.advance, ?_, At.advance hc'⟩
  rw [parseItems, hread]
  simp only [bind, Except.bind, hclose]
  rfl

theorem reads_itemsMore {es : List Expr} (h : Runs s ts .or e s₁)
    (hmore : Reads 9 parseItems anything s₁ us es s') :
    Reads 9 parseItems anything s (ts ++ .comma :: us) (e :: es) s' := by
  intro rest n c hc _ hn
  simp only [List.append_assoc, List.cons_append] at hc hn
  obtain ⟨m, rfl⟩ : ∃ m, n = m + 1 := ⟨n - 1, by omega⟩
  obtain ⟨c', hread, hc'⟩ := h.whole hc rfl (n := m) (by omega)
  simp only [List.length_append, List.length_cons] at hn
  obtain ⟨c₂, hrest, hc₂⟩ := hmore (At.advance hc') trivial (n := m) (by
    simp only [List.length_append]
    omega)
  have hclose : c'.mark? Token.isRParen = none := At.no_mark hc' rfl
  have hcomma : c'.expectMark Token.isComma "',' or closing parenthesis" = .ok c'.advance :=
    At.expect hc' rfl
  refine ⟨c₂, ?_, hc₂⟩
  rw [parseItems, hread]
  simp only [bind, Except.bind, hclose, hcomma, hrest]
  rfl

theorem reads_listNone : Reads 10 parseList anything s [.rparen] [] s := by
  intro rest n c hc _ hn
  obtain ⟨m, rfl⟩ : ∃ m, n = m + 1 := ⟨n - 1, by omega⟩
  have hclose : c.mark? Token.isRParen = some c.advance := At.mark hc rfl
  refine ⟨c.advance, ?_, At.advance hc⟩
  rw [parseList, hclose]

theorem reads_listSome {es : List Expr} (hbegun : ∃ t us, ts = t :: us ∧ t ≠ .rparen)
    (h : Reads 9 parseItems anything s ts es s') : Reads 10 parseList anything s ts es s' := by
  intro rest n c hc _ hn
  obtain ⟨m, rfl⟩ : ∃ m, n = m + 1 := ⟨n - 1, by omega⟩
  obtain ⟨c', hread, hc'⟩ := h hc trivial (n := m) (by omega)
  refine ⟨c', ?_, hc'⟩
  obtain ⟨t, us, rfl, ht⟩ := hbegun
  have hclose : c.mark? Token.isRParen = none :=
    At.no_mark hc (Bool.eq_false_iff.2 fun his => ht (eq_rparen his))
  rw [parseList, hclose]
  exact hread

/-- A closing parenthesis or ORDER goes on with nothing. -/
theorem follows_partitions (h : Next (fun t => t.isRParen || t.isKeyword "ORDER") rest) :
    Follows 0 rest ∧ (At c s rest → c.mark? Token.isComma = none) := by
  obtain ⟨t, us, rfl, ht⟩ := h
  rcases Bool.or_eq_true_iff.1 ht with hclose | horder
  · rw [eq_rparen hclose]
    exact ⟨follows_cons (Nat.le_refl 0), fun hc => hc.no_mark rfl⟩
  · refine ⟨follows_keyword horder (Nat.le_refl 0), fun hc => hc.no_mark ?_⟩
    obtain ⟨name, rfl, -⟩ := ident_of_isKeyword horder
    rfl

theorem reads_partitionsLast (h : Runs s ts .additive e s') :
    Reads 5 parsePartitions (Next fun t => t.isRParen || t.isKeyword "ORDER") s ts [e] s' := by
  intro rest n c hc hrest hn
  obtain ⟨m, rfl⟩ : ∃ m, n = m + 1 := ⟨n - 1, by omega⟩
  obtain ⟨c', hread, hc'⟩ := h.closed hc (@follows_partitions 0 _ c hrest).1 (by decide) (n := m)
    (by simp only [Level.need, Level.rank]; omega)
  have hread' : parseAdditive m c = .ok (e, c') := hread
  refine ⟨c', ?_, hc'⟩
  rw [parsePartitions, hread']
  simp only [bind, Except.bind, (follows_partitions hrest).2 hc']
  rfl

theorem reads_partitionsMore {es : List Expr} (h : Runs s ts .additive e s₁)
    (hmore : Reads 5 parsePartitions (Next fun t => t.isRParen || t.isKeyword "ORDER") s₁ us es s') :
    Reads 5 parsePartitions (Next fun t => t.isRParen || t.isKeyword "ORDER") s
      (ts ++ .comma :: us) (e :: es) s' := by
  intro rest n c hc hrest hn
  simp only [List.append_assoc, List.cons_append] at hc hn
  obtain ⟨m, rfl⟩ : ∃ m, n = m + 1 := ⟨n - 1, by omega⟩
  have hcomma : Follows 0 (.comma :: (us ++ rest)) := follows_cons (Nat.le_refl 0)
  obtain ⟨c', hread, hc'⟩ := h.closed hc hcomma (by decide) (n := m)
    (by simp only [Level.need, Level.rank]; omega)
  simp only [List.length_append, List.length_cons] at hn
  obtain ⟨c₂, hlist, hc₂⟩ := hmore (At.advance hc') hrest (n := m) (by
    simp only [List.length_append]
    omega)
  have hread' : parseAdditive m c = .ok (e, c') := hread
  have hmark : c'.mark? Token.isComma = some c'.advance := At.mark hc' rfl
  refine ⟨c₂, ?_, hc₂⟩
  rw [parsePartitions, hread']
  simp only [bind, Except.bind, hmark, hlist]
  rfl

/-- The direction of a key is taken, before a token that is no direction. -/
theorem direction_directs {ds : List Token} {descending : Bool} (hdirects : Directs descending ds)
    (hc : At c s (ds ++ t :: ts)) (hdesc : t.isKeyword "DESC" = false)
    (hasc : t.isKeyword "ASC" = false) :
    ∃ c', direction c = (descending, c') ∧ At c' s (t :: ts) := by
  rw [direction_eq]
  cases hdirects with
  | implied =>
      have hcurrent : c.current = t := At.current hc
      refine ⟨c, ?_, hc⟩
      rw [hcurrent, hdesc, if_neg (by simp), Parser.optional, At.no_mark hc hasc]
  | @ascending u hu =>
      have hcurrent : c.current = u := At.current hc
      refine ⟨c.advance, ?_, At.advance hc⟩
      rw [hcurrent, keyword_ne hu "DESC" (by decide), if_neg (by simp), Parser.optional,
        At.mark hc hu]
  | @descending u hu =>
      have hcurrent : c.current = u := At.current hc
      refine ⟨c.advance, ?_, At.advance hc⟩
      rw [hcurrent, hu, if_pos rfl]

/-- A direction goes on with no expression. -/
theorem follows_directs {ds : List Token} {descending : Bool} (hdirects : Directs descending ds)
    (ht : reach t = 0) : Follows 0 (ds ++ t :: ts) := by
  cases hdirects with
  | implied => exact follows_cons (by omega)
  | ascending hu | descending hu => exact follows_keyword hu (Nat.le_refl 0)

theorem reads_keysLast {ds : List Token} {descending : Bool} (h : Runs s ts .additive e s')
    (hdirects : Directs descending ds) :
    Reads 5 parseOrderKeys (Next Token.isRParen) s (ts ++ ds) [⟨e, descending⟩] s' := by
  rintro rest n c hc ⟨t, us, rfl, ht⟩ hn
  obtain rfl := eq_rparen ht
  rw [List.append_assoc] at hc hn
  obtain ⟨m, rfl⟩ : ∃ m, n = m + 1 := ⟨n - 1, by omega⟩
  obtain ⟨c', hread, hc'⟩ := h.closed hc (follows_directs hdirects rfl) (by decide) (n := m)
    (by simp only [Level.need, Level.rank]; omega)
  obtain ⟨c₂, hdirection, hc₂⟩ := direction_directs hdirects hc' rfl rfl
  have hread' : parseAdditive m c = .ok (e, c') := hread
  have hmark : c₂.mark? Token.isComma = none := At.no_mark hc₂ rfl
  refine ⟨c₂, ?_, hc₂⟩
  rw [parseOrderKeys_succ, hread']
  simp only [bind, Except.bind, hdirection, keysFrom, hmark]

theorem reads_keysMore {ds : List Token} {descending : Bool} {keys : List (OrderKey Expr)}
    (h : Runs s ts .additive e s₁) (hdirects : Directs descending ds)
    (hmore : Reads 5 parseOrderKeys (Next Token.isRParen) s₁ us keys s') :
    Reads 5 parseOrderKeys (Next Token.isRParen) s (ts ++ (ds ++ .comma :: us))
      (⟨e, descending⟩ :: keys) s' := by
  intro rest n c hc hrest hn
  simp only [List.append_assoc, List.cons_append] at hc hn
  obtain ⟨m, rfl⟩ : ∃ m, n = m + 1 := ⟨n - 1, by omega⟩
  obtain ⟨c', hread, hc'⟩ := h.closed hc (follows_directs hdirects rfl) (by decide) (n := m)
    (by simp only [Level.need, Level.rank]; omega)
  obtain ⟨c₂, hdirection, hc₂⟩ := direction_directs hdirects hc' rfl rfl
  simp only [List.length_append, List.length_cons] at hn
  obtain ⟨c₃, hlist, hc₃⟩ := hmore (At.advance hc₂) hrest (n := m) (by
    simp only [List.length_append]
    omega)
  have hread' : parseAdditive m c = .ok (e, c') := hread
  have hmark : c₂.mark? Token.isComma = some c₂.advance := At.mark hc₂ rfl
  refine ⟨c₃, ?_, hc₃⟩
  rw [parseOrderKeys_succ, hread']
  simp only [bind, Except.bind, hdirection, keysFrom, hmark, hlist]

section Clauses

variable {α : Type} {f : Nat → Reader (List α)} {as : List α} {before : List Token → Prop}

theorem reads_clauseNone (hbefore : ∀ rest, before rest →
    ∃ t us, rest = t :: us ∧ t.isKeyword word = false) :
    Reads 0 (fun n => clause word (f n)) before s [] [] s := by
  intro rest n c hc hrest _
  obtain ⟨t, us, rfl, ht⟩ := hbefore rest hrest
  refine ⟨c, ?_, hc⟩
  dsimp only
  rw [clause, At.no_mark hc ht]

theorem reads_clauseSome {u : Token} (ht : t.isKeyword word = true) (hu : u.isKeyword "BY" = true)
    (h : Reads 5 f before s ts as s') :
    Reads 0 (fun n => clause word (f n)) before s (t :: u :: ts) as s' := by
  intro rest n c hc hrest hn
  simp only [List.cons_append, List.length_cons] at hn
  have hc₁ : At c.advance s (u :: (ts ++ rest)) := At.advance hc
  obtain ⟨c', hread, hc'⟩ := h hc₁.advance hrest (n := n) (by omega)
  refine ⟨c', ?_, hc'⟩
  dsimp only
  rw [clause, At.mark hc ht]
  simp only [hc₁.expect hu, bind, Except.bind]
  exact hread

end Clauses

theorem reads_over {ps os : List Token} {s₂ : Nat} {func : WindowFunction Expr}
    {partitions : List Expr} {keys : List (OrderKey Expr)}
    (hpartitions : (Phrase.partitionClause partitions).Read s ps s₁)
    (hkeys : (Phrase.orderClause keys).Read s₁ os s₂)
    (hstart : Next (fun t => t.isRParen || t.isKeyword "ORDER") (os ++ [.rparen])) :
    Reads 1 (fun n => parseOver n func) anything s (.lparen :: (ps ++ (os ++ [.rparen])))
      (.window s₂ ⟨func, partitions, keys⟩) (s₂ + 1) := by
  intro rest n c hc _ hn
  simp only [List.append_assoc, List.cons_append, List.nil_append, List.length_cons] at hc hn
  obtain ⟨m, rfl⟩ : ∃ m, n = m + 1 := ⟨n - 1, by omega⟩
  have hstart' : Next (fun t => t.isRParen || t.isKeyword "ORDER") (os ++ .rparen :: rest) := by
    obtain ⟨t, us, heq, ht⟩ := hstart
    refine ⟨t, us ++ rest, ?_, ht⟩
    rw [← List.cons_append, ← heq, List.append_assoc, List.singleton_append]
  obtain ⟨c₂, hread₂, hc₂⟩ := hpartitions (At.advance hc) hstart' (n := m) (by omega)
  simp only [List.length_append, List.length_cons] at hn
  obtain ⟨c₃, hread₃, hc₃⟩ := hkeys hc₂ ⟨_, _, rfl, rfl⟩ (n := m) (by
    simp only [List.length_append, List.length_cons]
    omega)
  have hopen : c.expectMark Token.isLParen "'(' after OVER" = .ok c.advance := At.expect hc rfl
  have hclose : c₃.expectMark Token.isRParen "')' closing OVER" = .ok c₃.advance :=
    At.expect hc₃ rfl
  have hslot : c₃.advance.slot = s₂ := (At.advance hc₃).slot
  refine ⟨(takeSlot c₃.advance).2, ?_, (At.advance hc₃).ahead, congrArg (· + 1) hslot⟩
  dsimp only at hread₂ hread₃ ⊢
  rw [parseOver_succ]
  simp only [hopen, bind, Except.bind, hread₂, windowFrom, hread₃, closeWindow, hclose, takeSlot,
    hslot]

/-! ## Calls -/

theorem reads_star {name : String} {position : Nat} :
    Reads 9 (fun n => readArgument n .count name position) anything s [.star, .rparen]
      (.count, none) s := by
  intro rest n c hc _ hn
  obtain ⟨m, rfl⟩ : ∃ m, n = m + 1 := ⟨n - 1, by omega⟩
  have hc₁ : At c.advance s (.rparen :: rest) := At.advance hc
  have hcurrent : c.current = .star := At.current hc
  have hclose : c.advance.expectMark Token.isRParen "')'" = .ok c.advance.advance := hc₁.expect rfl
  refine ⟨c.advance.advance, ?_, hc₁.advance⟩
  dsimp only
  rw [readArgument_succ, hcurrent, if_pos (by decide), hclose]
  rfl

theorem reads_plain {func : AggregateFunction} {name : String} {position : Nat}
    (h : Runs s ts .or e s') (hbegun : (Phrase.expr .or e).Begun ts)
    (hother : ∀ t ∈ ts.head?, t.isKeyword "DISTINCT" = false) :
    Reads 9 (fun n => readArgument n func name position) anything s (ts ++ [.rparen])
      (func, some e) s' := by
  intro rest n c hc _ hn
  simp only [List.append_assoc, List.cons_append, List.nil_append] at hc hn
  obtain ⟨m, rfl⟩ : ∃ m, n = m + 1 := ⟨n - 1, by omega⟩
  obtain ⟨c', hread, hc'⟩ := h.whole hc rfl (n := m) (by omega)
  obtain ⟨t, us, rfl, ht⟩ := hbegun
  have hcurrent : c.current = t := At.current hc
  -- no expression starts with a star, so the argument is not taken for that of a row count
  have hstar : c.current.isStar = false := by
    rw [hcurrent]
    exact Bool.eq_false_iff.2 fun his => ht.star (eq_star his)
  have hdistinct : c.mark? (Token.isKeyword "DISTINCT") = none := At.no_mark hc (hother t rfl)
  have hclose : c'.expectMark Token.isRParen "')'" = .ok c'.advance := At.expect hc' rfl
  refine ⟨c'.advance, ?_, At.advance hc'⟩
  dsimp only
  rw [readArgument_succ, hstar, Bool.and_false, if_neg (by simp), Parser.optional, hdistinct,
    argumentFrom, hread]
  simp only [bind, Except.bind, closeArgument, hclose, Bool.false_eq_true, if_false]

theorem reads_distinct {name : String} {position : Nat} (ht : t.isKeyword "DISTINCT" = true)
    (h : Runs s ts .or e s') :
    Reads 9 (fun n => readArgument n .count name position) anything s (t :: (ts ++ [.rparen]))
      (.countDistinct, some e) s' := by
  intro rest n c hc _ hn
  simp only [List.append_assoc, List.cons_append, List.nil_append, List.length_cons] at hc hn
  obtain ⟨m, rfl⟩ : ∃ m, n = m + 1 := ⟨n - 1, by omega⟩
  obtain ⟨c', hread, hc'⟩ := h.whole (At.advance hc) rfl (n := m) (by omega)
  have hstar : c.current.isStar = false := by
    rw [hc.current]
    obtain ⟨word, rfl, -⟩ := ident_of_isKeyword ht
    rfl
  have hclose : c'.expectMark Token.isRParen "')'" = .ok c'.advance := At.expect hc' rfl
  refine ⟨c'.advance, ?_, At.advance hc'⟩
  dsimp only
  rw [readArgument_succ, hstar, Bool.and_false, if_neg (by simp), Parser.optional, hc.mark ht,
    argumentFrom, hread]
  simp only [bind, Except.bind, closeArgument, hclose, if_true]

/-- What a name starts is read behind it; the tokens of the name and its parenthesis pay for the
way there. -/
theorem runs_name {name : String}
    (h : ∀ ⦃rest n c⦄ (position : Nat), At c s (ts ++ rest) → Follows Level.primary.rank rest →
      16 * (ts ++ rest).length + 15 ≤ n →
      ∃ c', parseName n name position c = .ok (e, c') ∧ At c' s' rest) :
    Runs s (.ident name :: ts) .primary e s' := by
  intro rest n c hc hrest hn
  simp only [List.cons_append, List.length_cons, Level.need, Level.rank] at hn
  obtain ⟨m, rfl⟩ : ∃ m, n = m + 1 := ⟨n - 1, by omega⟩
  obtain ⟨c', hread, hc'⟩ := h c.position (At.advance hc) hrest (n := m) (by omega)
  refine ⟨m, c', ?_, hc', ?_⟩
  · simp only [List.length_append] at hn
    omega
  · show parsePrimary (m + 1) c = .ok (e, c')
    rw [parsePrimary, At.current hc]
    exact hread

theorem runs_call {name : String} (hfixed : Text.asciiUpper name ∉ fixedWords)
    (h : ∀ ⦃rest n c⦄ (position : Nat), At c s (ts ++ rest) → Follows Level.primary.rank rest →
      16 * (ts ++ rest).length + 15 ≤ n →
      ∃ c', parseCall n name position c = .ok (e, c') ∧ At c' s' rest) :
    Runs s (.ident name :: .lparen :: ts) .primary e s' := by
  refine runs_name fun rest n c position hc hrest hn => ?_
  simp only [List.cons_append, List.length_cons] at hn
  obtain ⟨m, rfl⟩ : ∃ m, n = m + 1 := ⟨n - 1, by omega⟩
  obtain ⟨c', hread, hc'⟩ := h position (At.advance hc) hrest (n := m) (by omega)
  have hopen : c.mark? Token.isLParen = some c.advance := At.mark hc rfl
  simp only [fixedWords, List.cons_append, List.nil_append, List.mem_cons, not_or] at hfixed
  obtain ⟨hnull, htrue, hfalse, hcase, -⟩ := hfixed
  refine ⟨c', ?_, hc'⟩
  rw [parseName_succ, if_neg hnull, if_neg htrue, if_neg hfalse, if_neg hcase, hopen]
  exact hread

/-- The name of a function is no fixed word. -/
theorem not_fixed_of_name {α : Type} {find : String → Option α} {name : String} {a : α}
    (h : find (Text.asciiUpper name) = some a)
    (hnone : ∀ word ∈ fixedWords, (find word).isNone = true) : Text.asciiUpper name ∉ fixedWords := by
  intro hmem
  have hname := hnone _ hmem
  rw [h] at hname
  cases hname

theorem runs_scalar {name : String} {func : ScalarFunction} {args : List Expr}
    (hranking : rankingOfName? (Text.asciiUpper name) = none)
    (haggregate : aggregateOfSqlName? (Text.asciiUpper name) = none)
    (hscalar : ScalarFunction.ofName? (Text.asciiUpper name) = some func)
    (haccepts : func.accepts args.length = true)
    (h : Reads 10 parseList anything s ts args s') :
    Runs s (.ident name :: .lparen :: ts) .primary (.call func args) s' := by
  refine runs_call (not_fixed_of_name hscalar (by decide)) fun rest n c position hc _ hn => ?_
  obtain ⟨m, rfl⟩ : ∃ m, n = m + 1 := ⟨n - 1, by omega⟩
  obtain ⟨c', hread, hc'⟩ := h hc trivial (n := m) (by omega)
  refine ⟨c', ?_, hc'⟩
  rw [parseCall_scalar hranking haggregate hscalar, hread]
  simp only [bind, Except.bind, closeCall, haccepts, if_true]

theorem runs_aggregate {name : String} {func found : AggregateFunction} {arg : Option Expr}
    (hranking : rankingOfName? (Text.asciiUpper name) = none)
    (haggregate : aggregateOfSqlName? (Text.asciiUpper name) = some func)
    (h : (Phrase.argument func found arg).Read s ts s') :
    Runs s (.ident name :: .lparen :: ts) .primary (.aggregate found arg) s' := by
  refine runs_call (not_fixed_of_name haggregate (by decide)) fun rest n c position hc hrest hn => ?_
  obtain ⟨m, rfl⟩ : ∃ m, n = m + 1 := ⟨n - 1, by omega⟩
  obtain ⟨c', hread, hc'⟩ := h (Text.asciiUpper name) position hc trivial (n := m) (by omega)
  -- OVER would go on with the aggregate, so it does not follow
  have hover : c'.mark? (Token.isKeyword "OVER") = none :=
    mark?_eq_none.2 (not_keyword_of_reach "OVER" (hc'.reach_le hrest) (by decide))
  refine ⟨c', ?_, hc'⟩
  dsimp only at hread
  rw [parseCall_aggregate hranking haggregate, hread]
  simp only [bind, Except.bind, closeAggregate, hover]

theorem runs_windowed {name : String} {func found : AggregateFunction} {arg : Option Expr}
    (hranking : rankingOfName? (Text.asciiUpper name) = none)
    (haggregate : aggregateOfSqlName? (Text.asciiUpper name) = some func)
    (h : (Phrase.argument func found arg).Read s ts s₁) (ht : t.isKeyword "OVER" = true)
    (hover : (Phrase.overWindow (.aggregate found arg) e).Read s₁ us s') :
    Runs s (.ident name :: .lparen :: (ts ++ t :: us)) .primary e s' := by
  refine runs_call (not_fixed_of_name haggregate (by decide)) fun rest n c position hc _ hn => ?_
  simp only [List.append_assoc, List.cons_append] at hc hn
  obtain ⟨m, rfl⟩ : ∃ m, n = m + 1 := ⟨n - 1, by omega⟩
  obtain ⟨c', hread, hc'⟩ := h (Text.asciiUpper name) position hc trivial (n := m) (by omega)
  simp only [List.length_append, List.length_cons] at hn
  obtain ⟨c₂, hwindow, hc₂⟩ := hover (At.advance hc') trivial (n := m) (by
    simp only [List.length_append]
    omega)
  refine ⟨c₂, ?_, hc₂⟩
  dsimp only at hread hwindow
  rw [parseCall_aggregate hranking haggregate, hread]
  simp only [bind, Except.bind, closeAggregate, At.mark hc' ht]
  exact hwindow

theorem runs_ranking {name : String} {func : WindowFunction Expr}
    (hranking : rankingOfName? (Text.asciiUpper name) = some func)
    (ht : t.isKeyword "OVER" = true) (hover : (Phrase.overWindow func e).Read s us s') :
    Runs s (.ident name :: .lparen :: .rparen :: t :: us) .primary e s' := by
  refine runs_call (not_fixed_of_name hranking (by decide)) fun rest n c position hc _ hn => ?_
  simp only [List.cons_append, List.length_cons] at hc hn
  obtain ⟨m, rfl⟩ : ∃ m, n = m + 1 := ⟨n - 1, by omega⟩
  have hc₁ : At c.advance s (t :: (us ++ rest)) := At.advance hc
  obtain ⟨c', hwindow, hc'⟩ := hover hc₁.advance trivial (n := m) (by omega)
  have hclose : c.expectMark Token.isRParen "')'" = .ok c.advance := At.expect hc rfl
  refine ⟨c', ?_, hc'⟩
  dsimp only at hwindow
  rw [parseCall_ranking hranking]
  simp only [bind, Except.bind, hclose, hc₁.mark ht]
  exact hwindow

/-! ## Cases -/

theorem reads_branchesNone :
    Reads 1 parseBranches (Next fun t => t.isKeyword "ELSE" || t.isKeyword "END") s [] [] s := by
  rintro rest n c hc ⟨t, us, rfl, ht⟩ hn
  obtain ⟨m, rfl⟩ : ∃ m, n = m + 1 := ⟨n - 1, by omega⟩
  have hwhen : t.isKeyword "WHEN" = false := by
    rcases Bool.or_eq_true_iff.1 ht with helse | hend
    · exact keyword_ne helse "WHEN" (by decide)
    · exact keyword_ne hend "WHEN" (by decide)
  refine ⟨c, ?_, hc⟩
  have hmark : c.keyword? "WHEN" = none := At.no_mark hc hwhen
  rw [parseBranches, hmark]

theorem reach_of_plain (h : t.isKeyword word = true)
    (hword : wordReach (Text.asciiUpper word) = 0) : reach t = 0 := by
  rw [reach_of_isKeyword h, hword]

/-- What stands behind the value of a branch: another one, or the end of the branches. -/
theorem next_branch {bs : List (Expr × Expr)} {s₂ : Nat} (h : Derives s us (.branches bs) s₂)
    (hrest : Next (fun t => t.isKeyword "ELSE" || t.isKeyword "END") rest) :
    ∃ t ts, us ++ rest = t :: ts ∧ reach t = 0 := by
  cases h with
  | branchesNone =>
      obtain ⟨t, ts, rfl, ht⟩ := hrest
      refine ⟨t, ts, rfl, ?_⟩
      rcases Bool.or_eq_true_iff.1 ht with helse | hend
      · exact reach_of_plain helse rfl
      · exact reach_of_plain hend rfl
  | branchesMore hwhen => exact ⟨_, _, rfl, reach_of_plain hwhen rfl⟩

theorem reads_branchesMore {cs rs : List Token} {u : Token} {d : Expr} {s₂ : Nat}
    {branches : List (Expr × Expr)} (ht : t.isKeyword "WHEN" = true) (hcondition : Runs s cs .or e s₁)
    (hu : u.isKeyword "THEN" = true) (hresult : Runs s₁ rs .or d s₂)
    (hbranches : Derives s₂ us (.branches branches) s')
    (hmore : (Phrase.branches branches).Read s₂ us s') :
    Reads 1 parseBranches (Next fun t => t.isKeyword "ELSE" || t.isKeyword "END") s
      (t :: (cs ++ u :: (rs ++ us))) ((e, d) :: branches) s' := by
  intro rest n c hc hrest hn
  simp only [List.append_assoc, List.cons_append, List.length_cons] at hc hn
  obtain ⟨m, rfl⟩ : ∃ m, n = m + 1 := ⟨n - 1, by omega⟩
  obtain ⟨c₂, hread₂, hc₂⟩ := hcondition.whole (At.advance hc) (reach_of_plain hu rfl) (n := m)
    (by omega)
  simp only [List.length_append, List.length_cons] at hn
  have hc₃ : At c₂.advance s₁ (rs ++ (us ++ rest)) := At.advance hc₂
  obtain ⟨c₃, hread₃, hc₃'⟩ : ∃ c₃, parseOr m c₂.advance = .ok (d, c₃) ∧ At c₃ s₂ (us ++ rest) := by
    obtain ⟨v, vs, hvs, hv⟩ := next_branch hbranches hrest
    have hlength := congrArg List.length hvs
    simp only [List.length_append, List.length_cons] at hlength
    rw [hvs] at hc₃ ⊢
    refine hresult.whole hc₃ hv ?_
    simp only [List.length_append, List.length_cons]
    omega
  obtain ⟨c₄, hread₄, hc₄⟩ := hmore hc₃' hrest (n := m) (by
    simp only [List.length_append]
    omega)
  have hmark : c.keyword? "WHEN" = some c.advance := At.mark hc ht
  have hthen : c₂.expectKeyword "THEN" = .ok c₂.advance := At.expect hc₂ hu
  refine ⟨c₄, ?_, hc₄⟩
  rw [parseBranches, hmark]
  simp only [bind, Except.bind, hread₂, hthen, hread₃, hread₄]
  rfl

theorem reads_operandNone :
    Reads 8 caseOperand (Next (Token.isKeyword "WHEN")) s [] (none : Option Expr) s := by
  rintro rest n c hc ⟨t, us, rfl, ht⟩ _
  refine ⟨c, ?_, hc⟩
  rw [caseOperand, At.current hc, if_pos ht]

theorem reads_operandSome (h : Runs s ts .or e s') (hbegun : (Phrase.expr .or e).Begun ts) :
    Reads 8 caseOperand (Next (Token.isKeyword "WHEN")) s ts (some e) s' := by
  rintro rest n c hc ⟨t, us, rfl, ht⟩ hn
  obtain ⟨c', hread, hc'⟩ := h.whole hc (reach_of_plain ht rfl) (n := n) hn
  obtain ⟨u, vs, rfl, hu⟩ := hbegun
  -- no expression starts with WHEN, which the parser takes for the first branch
  have hwhen : ¬c.current.isKeyword "WHEN" = true := by
    rw [At.current hc, hu.when_]
    simp
  refine ⟨c', ?_, hc'⟩
  rw [caseOperand, if_neg hwhen, hread]
  rfl

theorem reads_otherwiseNone :
    Reads 0 caseElse (Next (Token.isKeyword "END")) s [] (none : Option Expr) s := by
  rintro rest n c hc ⟨t, us, rfl, ht⟩ _
  refine ⟨c, ?_, hc⟩
  rw [caseElse, At.no_mark hc (keyword_ne ht "ELSE" (by decide))]

theorem reads_otherwiseSome (ht : t.isKeyword "ELSE" = true) (h : Runs s ts .or e s') :
    Reads 0 caseElse (Next (Token.isKeyword "END")) s (t :: ts) (some e) s' := by
  rintro rest n c hc ⟨u, us, rfl, hu⟩ hn
  simp only [List.cons_append, List.length_cons] at hn
  obtain ⟨c', hread, hc'⟩ := h.whole (At.advance hc) (reach_of_plain hu rfl) (n := n) (by omega)
  refine ⟨c', ?_, hc'⟩
  rw [caseElse, At.mark hc ht]
  simp only [hread, bind, Except.bind]

theorem runs_case {name : String} {os bs es : List Token} {s₂ s₃ : Nat}
    {operand otherwise : Option Expr} {branches : List (Expr × Expr)}
    (hname : Text.asciiUpper name = "CASE") (hoperand : (Phrase.operand operand).Read s os s₁)
    (hbranches : (Phrase.branches branches).Read s₁ bs s₂) (hwhen : Next (Token.isKeyword "WHEN") bs)
    (hnonempty : branches ≠ [])
    (hotherwise : (Phrase.otherwise otherwise).Read s₂ es s₃)
    (helse : Next (fun t => t.isKeyword "ELSE" || t.isKeyword "END") (es ++ [t]))
    (ht : t.isKeyword "END" = true) :
    Runs s (.ident name :: (os ++ (bs ++ (es ++ [t])))) .primary
      (.case operand branches otherwise) s₃ := by
  refine runs_name fun rest n c position hc _ hn => ?_
  simp only [List.append_assoc, List.cons_append, List.nil_append] at hc hn
  obtain ⟨m, rfl⟩ : ∃ m, n = m + 2 := ⟨n - 2, by omega⟩
  have hwhen' : Next (Token.isKeyword "WHEN") (bs ++ (es ++ t :: rest)) := by
    obtain ⟨u, us, rfl, hu⟩ := hwhen
    exact ⟨u, _, rfl, hu⟩
  have helse' : Next (fun t => t.isKeyword "ELSE" || t.isKeyword "END") (es ++ t :: rest) := by
    obtain ⟨u, us, heq, hu⟩ := helse
    refine ⟨u, us ++ rest, ?_, hu⟩
    rw [← List.cons_append, ← heq, List.append_assoc, List.singleton_append]
  obtain ⟨c₁, hread₁, hc₁⟩ := hoperand hc hwhen' (n := m) (by omega)
  simp only [List.length_append, List.length_cons] at hn
  obtain ⟨c₂, hread₂, hc₂⟩ := hbranches hc₁ helse' (n := m) (by
    simp only [List.length_append, List.length_cons]
    omega)
  obtain ⟨c₃, hread₃, hc₃⟩ := hotherwise hc₂ ⟨t, rest, rfl, ht⟩ (n := m) (by
    simp only [List.length_append, List.length_cons]
    omega)
  have hend : c₃.expectMark (Token.isKeyword "END") "END" = .ok c₃.advance := At.expect hc₃ ht
  have hempty : branches.isEmpty = false := by simpa using hnonempty
  refine ⟨c₃.advance, ?_, At.advance hc₃⟩
  rw [parseName_succ, hname, if_neg (by decide), if_neg (by decide), if_neg (by decide), if_pos rfl,
    parseCase_succ]
  simp only [bind, Except.bind, hread₁, caseBranches, hread₂, caseFrom, hempty, Bool.false_eq_true,
    if_false, hread₃, closeCase, hend]

/-! ## Operands -/

theorem runs_atom (h : atom? t = some e) : Runs s [t] .primary e s := by
  cases t with
  | ident name =>
      refine runs_name fun rest n c position hc hrest hn => ?_
      obtain ⟨m, rfl⟩ : ∃ m, n = m + 1 := ⟨n - 1, by omega⟩
      refine ⟨c, ?_, hc⟩
      rw [parseName_succ]
      rw [atom?] at h
      split at h
      · rename_i hnull
        rw [if_pos hnull, Option.some.inj h]
      rename_i hnull
      rw [if_neg hnull]
      split at h
      · rename_i htrue
        rw [if_pos htrue, Option.some.inj h]
      rename_i htrue
      rw [if_neg htrue]
      split at h
      · rename_i hfalse
        rw [if_pos hfalse, Option.some.inj h]
      rename_i hfalse
      rw [if_neg hfalse]
      split at h
      · cases h
      rename_i hfixed
      simp only [fixedWords, List.cons_append, List.nil_append, List.mem_cons, not_or] at hfixed
      obtain ⟨-, -, -, hcase, hreserved⟩ := hfixed
      -- a parenthesis would make a call of the name, so it does not follow
      have hparen : c.mark? Token.isLParen = none := by
        refine mark?_eq_none.2 (Bool.eq_false_iff.2 fun his => ?_)
        have hreach : reach c.current ≤ Level.primary.rank := At.reach_le hc hrest
        rw [eq_lparen his] at hreach
        exact absurd hreach (by decide)
      rw [if_neg hcase, hparen, Option.some.inj h, if_neg (by simpa [reservedWords] using hreserved)]
  | integer i | float x | string x | param name | quotedIdent name =>
      intro rest n c hc _ hn
      simp only [List.cons_append, List.nil_append, List.length_cons] at hn
      obtain ⟨m, rfl⟩ : ∃ m, n = m + 1 := ⟨n - 1, by omega⟩
      refine ⟨m, c.advance, by omega, At.advance hc, ?_⟩
      · show parsePrimary (m + 1) c = _
        rw [parsePrimary, At.current hc]
        cases h
        rfl
  | _ => cases h

theorem runs_paren (h : Runs s ts .or e s') :
    Runs s (.lparen :: (ts ++ [.rparen])) .primary e s' := by
  intro rest n c hc _ hn
  simp only [List.append_assoc, List.cons_append, List.nil_append, List.length_cons] at hc hn
  obtain ⟨m, rfl⟩ : ∃ m, n = m + 1 := ⟨n - 1, by omega⟩
  obtain ⟨c', hread, hc'⟩ := h.whole (At.advance hc) rfl (n := m) (by omega)
  have hclose : c'.expectMark Token.isRParen "')'" = .ok c'.advance := At.expect hc' rfl
  refine ⟨m, c'.advance, ?_, At.advance hc', ?_⟩
  · simp only [List.length_append, List.length_cons] at hn
    omega
  · show parsePrimary (m + 1) c = .ok (e, c'.advance)
    rw [parsePrimary, At.current hc]
    simp only [bind, Except.bind, hread, hclose]
    rfl

/-! ## Every derivation is read -/

theorem Derives.items_begun {es : List Expr} (h : Derives s ts (.items es) s') :
    ∃ t us, ts = t :: us ∧ t ≠ .rparen := by
  cases h with
  | itemsLast item | itemsMore item =>
      obtain ⟨t, us, rfl, ht⟩ := item.begun
      exact ⟨t, _, rfl, ht.close⟩

theorem Derives.order_begun {keys : List (OrderKey Expr)} (h : Derives s ts (.orderClause keys) s') :
    Next (fun t => t.isRParen || t.isKeyword "ORDER") (ts ++ [.rparen]) := by
  cases h with
  | orderNone => exact ⟨_, _, rfl, rfl⟩
  | orderSome word => exact ⟨_, _, rfl, by simp [word]⟩

theorem Derives.branches_begun {branches : List (Expr × Expr)}
    (h : Derives s ts (.branches branches) s') (hnonempty : branches ≠ []) :
    Next (Token.isKeyword "WHEN") ts := by
  cases h with
  | branchesNone => exact absurd rfl hnonempty
  | branchesMore when_ => exact ⟨_, _, rfl, when_⟩

theorem Derives.otherwise_begun {o : Option Expr} (h : Derives s ts (.otherwise o) s')
    (ht : t.isKeyword "END" = true) :
    Next (fun t => t.isKeyword "ELSE" || t.isKeyword "END") (ts ++ [t]) := by
  cases h with
  | otherwiseNone => exact ⟨_, _, rfl, by simp [ht]⟩
  | otherwiseSome word => exact ⟨_, _, rfl, by simp [word]⟩

/-- A clause that is left out is not read: what follows starts with none of its keywords. -/
theorem next_no_partition : ∀ rest, Next (fun t => t.isRParen || t.isKeyword "ORDER") rest →
    ∃ t us, rest = t :: us ∧ t.isKeyword "PARTITION" = false := by
  rintro rest ⟨t, us, rfl, ht⟩
  refine ⟨t, us, rfl, ?_⟩
  rcases Bool.or_eq_true_iff.1 ht with hclose | horder
  · rw [eq_rparen hclose]
    rfl
  · exact keyword_ne horder "PARTITION" (by decide)

theorem next_no_order : ∀ rest, Next Token.isRParen rest →
    ∃ t us, rest = t :: us ∧ t.isKeyword "ORDER" = false := by
  rintro rest ⟨t, us, rfl, ht⟩
  refine ⟨t, us, rfl, ?_⟩
  rw [eq_rparen ht]
  rfl

/-- The parser reads every phrase along its derivation. -/
theorem Derives.read {p : Phrase} (h : Derives s ts p s') : p.Read s ts s' := by
  -- one case per rule; where a rule may be left out, what stands behind it tells that it was
  induction h with
  | atom is => exact runs_atom is
  | paren _ ih => exact runs_paren ih
  | call ranking aggregate scalar accepts _ ih =>
      exact runs_scalar ranking aggregate scalar accepts ih
  | aggregate ranking aggregate _ ih => exact runs_aggregate ranking aggregate ih
  | windowed ranking aggregate _ word _ ihargument ihover =>
      exact runs_windowed ranking aggregate ihargument word ihover
  | ranking ranking word _ ih => exact runs_ranking ranking word ih
  | case word subject body nonempty last close ihsubject ihbody ihlast =>
      exact runs_case word ihsubject ihbody (body.branches_begun nonempty) nonempty ihlast
        (last.otherwise_begun close) close
  | minus _ ih => exact runs_minus ih
  | plus _ ih => exact runs_plus ih
  | not word _ ih => exact runs_not word ih
  | binary _ joins _ ihleft ihright => exact runs_binary ihleft joins ihright
  | isNull _ word negates null ih => exact runs_isNull ih word negates null
  | inList _ negates word _ ihsubject ihitems => exact runs_inList ihsubject negates word ihitems
  | between _ negates word _ and _ ihsubject ihlower ihupper =>
      exact runs_between ihsubject negates word ihlower and ihupper
  | like _ negates word _ ihsubject ihform => exact runs_like ihsubject negates word ihform
  | up tighter ih => exact runs_up ih tighter.begun
  | listNone => exact reads_listNone
  | listSome items ih => exact reads_listSome items.items_begun ih
  | itemsLast _ ih => exact reads_itemsLast ih
  | itemsMore _ _ ihitem ihmore => exact reads_itemsMore ihitem ihmore
  | star => exact fun _ _ => reads_star
  | plain item other ih => exact fun _ _ => reads_plain ih item.begun other
  | distinct word _ ih => exact fun _ _ => reads_distinct word ih
  | overWindow _ orderBy ihpartition ihorder => exact reads_over ihpartition ihorder orderBy.order_begun
  | partitionNone => exact reads_clauseNone next_no_partition
  | partitionSome word by_ _ ih => exact reads_clauseSome word by_ ih
  | partitionsLast _ ih => exact reads_partitionsLast ih
  | partitionsMore _ _ ihitem ihmore => exact reads_partitionsMore ihitem ihmore
  | orderNone => exact reads_clauseNone next_no_order
  | orderSome word by_ _ ih => exact reads_clauseSome word by_ ih
  | keysLast _ directs ih => exact reads_keysLast ih directs
  | keysMore _ directs _ ihitem ihmore => exact reads_keysMore ihitem directs ihmore
  | operandNone => exact reads_operandNone
  | operandSome item ih => exact reads_operandSome ih item.begun
  | branchesNone => exact reads_branchesNone
  | branchesMore when_ _ then_ _ more ihcondition ihresult ihmore =>
      exact reads_branchesMore when_ ihcondition then_ ihresult more ihmore
  | otherwiseNone => exact reads_otherwiseNone
  | otherwiseSome word _ ih => exact reads_otherwiseSome word ih

end Grammar

open Grammar RowPipeline.Parser Lexer

/-- A text whose tokens make up an expression is read as that expression. -/
theorem parse_of_tokens {text : String} {ps : List Spanned} {e : Expr} {s : Nat}
    (htokens : tokens text = .ok ps) (h : Derives 0 (ps.map Spanned.token) (.expr .or e) s) :
    Expr.parse text = .ok e := by
  obtain ⟨t, us, hstart, -⟩ := h.begun
  have hat : At ⟨ps, 0, text.toList.length⟩ 0 (ps.map Spanned.token ++ []) :=
    ⟨(List.append_nil _).symm, rfl⟩
  have hread : Runs 0 (ps.map Spanned.token) .or e s := h.read
  have hend : Grammar.Follows 0 [] := by simp [Grammar.Follows]
  obtain ⟨c, hparse, hc⟩ := hread.closed hat hend (by decide) (n := fuelFor ps.length) (by
    simp only [List.append_nil, List.length_map, fuelFor, Level.need, Level.rank]
    omega)
  refine parse_eq_ok.2 ⟨ps, c, htokens, ?_, hparse, ?_⟩
  · rintro rfl
    cases hstart
  · have hempty : c.tokens = [] := by simpa [Cursor.ahead] using hc.ahead
    rw [Cursor.current, hempty]
    rfl

theorem parse_of_derives {text : String} {ts : List Token} {e : Expr} {s : Nat}
    (hlexes : Lexes text.toList ts) (h : Derives 0 ts (.expr .or e) s) :
    Expr.parse text = .ok e := by
  obtain ⟨ps, htokens, rfl⟩ := hlexes.tokensFrom (Nat.le_refl _)
  exact parse_of_tokens htokens h

/-- A text is read as an expression exactly when the grammar derives the expression from its
tokens. -/
theorem parse_iff_derives {text : String} {e : Expr} : Expr.parse text = .ok e ↔
    ∃ ps s, tokens text = .ok ps ∧ Derives 0 (ps.map Spanned.token) (.expr .or e) s := by
  constructor
  · intro h
    obtain ⟨ps, s, htokens, -, hderives⟩ := derives_of_parse h
    exact ⟨ps, s, htokens, hderives⟩
  · rintro ⟨ps, s, htokens, hderives⟩
    exact parse_of_tokens htokens hderives

end RowPipeline
