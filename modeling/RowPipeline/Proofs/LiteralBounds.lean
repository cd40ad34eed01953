import RowPipeline.Proofs.Leaves

/-!
# Bounds of literals

A number in a text has no sign and is an integer only if it is in range, so no token is the least integer.
A sign turns an integer into its opposite, which is not the least one either. So whatever the parser builds
and however often a literal gets a sign, no opposite is out of range.
-/

namespace RowPipeline

open Lexer RowPipeline.Parser RowPipeline.Grammar

/-! ## Literals -/

/-- All integer literals among expressions are greater than the least integer. -/
def Expr.AboveLeast (es : List Expr) : Prop := ∀ i, .literal (.int i) ∈ es → Int64.minValue < i

namespace Expr

/-- Not the least integer as a literal. -/
def Bounded (e : Expr) : Prop := ∀ i, e = .literal (.int i) → Int64.minValue < i

theorem aboveLeast_iff {es : List Expr} : AboveLeast es ↔ ∀ e ∈ es, e.Bounded :=
  ⟨fun h _ he _ hi => h _ (hi ▸ he), fun h _ hi => h _ hi _ rfl⟩

theorem minValue_lt_iff {i : Int64} : Int64.minValue < i ↔ i ≠ Int64.minValue :=
  ⟨fun h => (Int64.ne_of_lt h).symm, fun h => Int64.lt_of_le_of_ne (Int64.minValue_le i) h.symm⟩

theorem settled_bounded : Settled Bounded where
  compound e he i hi := by
    rw [hi] at he
    cases he
  negate v hv := by
    cases v with
    | int i =>
        intro j hj
        obtain rfl : -i = j := by simpa [negate] using hj
        exact minValue_lt_iff.2 (neg_ne_minValue (minValue_lt_iff.1 (hv i rfl)))
    | _ => exact nofun

end Expr

/-! ## Readers -/

namespace Grammar

variable {fuel : Nat} {c c' c₁ : Cursor} {ℓ : Level} {e l : Expr} {ts : List Token} {p : Phrase}

/-- What comes next can have been read off a text. -/
def Legible (c : Cursor) : Prop := ∀ t ∈ c.ahead, t.Written

theorem Legible.advance (hc : Legible c) : Legible c.advance := by
  intro t ht
  rw [Cursor.ahead, Cursor.advance, List.map_tail] at ht
  exact hc t (List.mem_of_mem_tail ht)

theorem Legible.mark {is : Token → Bool} (hc : Legible c) (h : c.mark? is = some c₁) :
    Legible c₁ := by
  obtain ⟨-, rfl⟩ := mark?_eq_some h
  exact hc.advance

theorem Legible.expect {is : Token → Bool} {what : String} (hc : Legible c)
    (h : c.expectMark is what = .ok c₁) : Legible c₁ :=
  hc.mark (expectMark_ok h)

theorem Legible.optional (is : Token → Bool) (hc : Legible c) : Legible (Parser.optional is c).2 := by
  cases hmark : c.mark? is with
  | none => simpa only [Parser.optional, hmark] using hc
  | some c₁ => simpa only [Parser.optional, hmark] using hc.mark hmark

theorem Legible.negation (hc : Legible c) : Legible (negation c).2 := by
  rw [Parser.negation]
  dsimp only
  split
  · exact hc.advance
  · exact hc

theorem bounded_atom {t : Token} (ht : t.Written) (is : atom? t = some e) : e.Bounded := by
  rintro i rfl
  cases t with
  | integer j =>
      cases is
      exact Expr.minValue_lt_iff.2 fun hi => ht.2 (by rw [hi])
  | ident name =>
      rw [atom?] at is
      repeat' split at is
      all_goals cases is
  | _ => cases is

theorem Derives.bounded {s s' : Nat} (h : Derives s ts p s') (hts : ∀ t ∈ ts, t.Written) :
    p.Each Expr.Bounded :=
  h.each Expr.settled_bounded fun t ht _ is => bounded_atom (hts t ht) is

theorem Yields.bounded (h : Yields c p c') (hc : Legible c) : p.Each Expr.Bounded := by
  obtain ⟨ts, hahead, hderives⟩ := h
  exact hderives.bounded fun t ht => hc t (hahead ▸ List.mem_append_left _ ht)

theorem Yields.legible (h : Yields c p c') (hc : Legible c) : Legible c' := by
  obtain ⟨ts, hahead, -⟩ := h
  exact fun t ht => hc t (hahead ▸ List.mem_append_right ts ht)

/-- Whatever is read at a level is bounded, and what can have been read off a text goes on. -/
theorem Legible.read (hc : Legible c) (h : ℓ.read fuel c = .ok (e, c')) :
    (∀ sub ∈ e.subterms, sub.Bounded) ∧ Legible c' :=
  have hyields := (sound fuel).read h
  ⟨hyields.bounded hc, hyields.legible hc⟩

theorem GoesOn.bounded {s : Nat} (h : GoesOn s ts ℓ c e c') (hts : ∀ t ∈ ts, t.Written)
    (hc : Legible c) : ∀ sub ∈ e.subterms, sub.Bounded := by
  obtain ⟨us, hahead, hderives⟩ := h
  refine hderives.bounded fun t ht => ?_
  rcases List.mem_append.1 ht with ht | ht
  · exact hts t ht
  · exact hc t (hahead ▸ List.mem_append_left _ ht)

theorem written_ident (name : String) : (Token.ident name).Written := ⟨nofun, nofun⟩

/-! ## Chains -/

/-- What the loop of a level keeps: it starts with bounded literals and comes back with bounded ones. -/
def KeepsBounded (tail : Expr → Reader Expr) : Prop :=
  ∀ ⦃l c e c'⦄, Legible c → (∀ sub ∈ l.subterms, sub.Bounded) → tail l c = .ok (e, c') →
    ∀ sub ∈ e.subterms, sub.Bounded

theorem bounded_compound {parts : List Expr} (he : e.isLeaf = false)
    (h : e.subterms = e :: parts) (hparts : ∀ sub ∈ parts, sub.Bounded) :
    ∀ sub ∈ e.subterms, sub.Bounded := by
  rw [h]
  exact List.forall_mem_cons.2 ⟨Expr.settled_bounded.compound e he, hparts⟩

/-- One more operand behind an operator. -/
theorem keepsBounded_join {op : BinaryOp} (ih : KeepsBounded (ℓ.tail fuel)) (hc : Legible c)
    (hl : ∀ sub ∈ l.subterms, sub.Bounded) (hop : ℓ.joins c.current = some op)
    (hread : ℓ.tail (fuel + 1) l c = .ok (e, c')) : ∀ sub ∈ e.subterms, sub.Bounded := by
  rw [Level.tail_join hop] at hread
  obtain ⟨⟨r, c₁⟩, hright, hrest⟩ := bind_eq_ok hread
  obtain ⟨hr, hc₁⟩ := hc.advance.read hright
  exact ih hc₁ (bounded_compound rfl rfl (List.forall_mem_append.2 ⟨hl, hr⟩)) hrest

theorem keepsBounded_nullTest {negated : Bool} (ih : KeepsBounded (comparisonTail fuel))
    (hc : Legible c) (hl : ∀ sub ∈ l.subterms, sub.Bounded)
    (hread : nullTest fuel l negated c = .ok (e, c')) : ∀ sub ∈ e.subterms, sub.Bounded := by
  rw [nullTest] at hread
  obtain ⟨c₁, hnull, hrest⟩ := bind_eq_ok hread
  exact ih (hc.expect hnull) (bounded_compound rfl rfl hl) hrest

theorem keepsBounded_predicate {negated : Bool} (ih : KeepsBounded (comparisonTail fuel))
    (hc : Legible c) (hl : ∀ sub ∈ l.subterms, sub.Bounded)
    (hread : predicate fuel l negated c = .ok (e, c')) : ∀ sub ∈ e.subterms, sub.Bounded := by
  rw [predicate] at hread
  split at hread
  · rename_i c₁ hin
    obtain ⟨c₂, hparen, hrest⟩ := bind_eq_ok hread
    have hc₂ := (hc.mark hin).expect hparen
    obtain ⟨⟨es, c₃⟩, hlist, hrest⟩ := bind_eq_ok hrest
    have hyields := (sound fuel).list hlist
    have hes : ∀ sub ∈ Expr.subtermsOfList es, sub.Bounded := hyields.bounded hc₂
    refine ih (hyields.legible hc₂) ?_ hrest
    exact bounded_compound rfl rfl (List.forall_mem_append.2 ⟨hl, hes⟩)
  split at hread
  · rename_i c₁ hbetween
    obtain ⟨⟨low, c₂⟩, hlow, hrest⟩ := bind_eq_ok hread
    obtain ⟨hlow, hc₂⟩ := (hc.mark hbetween).read (ℓ := .additive) hlow
    obtain ⟨c₃, hand, hrest⟩ := bind_eq_ok hrest
    obtain ⟨⟨high, c₄⟩, hhigh, hrest⟩ := bind_eq_ok hrest
    obtain ⟨hhigh, hc₄⟩ := (hc₂.expect hand).read (ℓ := .additive) hhigh
    refine ih hc₄ (bounded_compound rfl rfl ?_) hrest
    exact List.forall_mem_append.2 ⟨List.forall_mem_append.2 ⟨hl, hlow⟩, hhigh⟩
  split at hread
  · rename_i c₁ hlike
    obtain ⟨⟨pattern, c₂⟩, hpattern, hrest⟩ := bind_eq_ok hread
    obtain ⟨hpattern, hc₂⟩ := (hc.mark hlike).read (ℓ := .additive) hpattern
    exact ih hc₂ (bounded_compound rfl rfl (List.forall_mem_append.2 ⟨hl, hpattern⟩)) hrest
  · cases hread
    exact hl

theorem keepsBounded_comparison (ih : KeepsBounded (comparisonTail fuel)) :
    KeepsBounded (comparisonTail (fuel + 1)) := by
  intro l c e c' hc hl hread
  cases hop : c.current.comparison? with
  | some op => exact keepsBounded_join (ℓ := .comparison) ih hc hl hop hread
  | none =>
  rw [comparisonTail_succ] at hread
  simp only [choose, hop] at hread
  split at hread
  · rename_i c₁ his
    exact keepsBounded_nullTest ih ((hc.mark his).optional _) hl hread
  · exact keepsBounded_predicate ih hc.negation hl hread

/-- Every loop keeps the bound, whatever operand it starts with. -/
theorem keepsBounded_tail (ℓ : Level) (fuel : Nat) : KeepsBounded (ℓ.tail fuel) := by
  induction fuel with
  | zero =>
      intro l c e c' _ hl hread
      cases hℓ : ℓ.isChain with
      | true => exact absurd hread (Level.tail_zero hℓ l _)
      | false =>
          rw [Level.tail_other hℓ] at hread
          cases hread
          exact hl
  | succ fuel ih =>
      intro l c e c' hc hl hread
      by_cases hcomparison : ℓ = .comparison
      · subst hcomparison
        exact keepsBounded_comparison ih hc hl hread
      cases hop : ℓ.joins c.current with
      | some op => exact keepsBounded_join ih hc hl hop hread
      | none =>
          rw [Level.tail_end hcomparison hop] at hread
          cases hread
          exact hl

/-! ## All that is built -/

/-- A parsing function that comes back: the expressions in what it was handed, and those in what it
builds. -/
inductive Builds (fuel : Nat) (c : Cursor) : List Expr → List Expr → Prop
  | read {ℓ : Level} {e : Expr} {c' : Cursor} (h : ℓ.read fuel c = .ok (e, c')) :
      Builds fuel c [] e.subterms
  | tail {ℓ : Level} {l e : Expr} {c' : Cursor} (h : ℓ.tail fuel l c = .ok (e, c')) :
      Builds fuel c l.subterms e.subterms
  | name {name : String} {position : Nat} {e : Expr} {c' : Cursor}
      (h : parseName fuel name position c = .ok (e, c')) : Builds fuel c [] e.subterms
  | list {es : List Expr} {c' : Cursor} (h : parseList fuel c = .ok (es, c')) :
      Builds fuel c [] (Expr.subtermsOfList es)
  | items {es : List Expr} {c' : Cursor} (h : parseItems fuel c = .ok (es, c')) :
      Builds fuel c [] (Expr.subtermsOfList es)
  | call {name : String} {position : Nat} {e : Expr} {c' : Cursor}
      (h : parseCall fuel name position c = .ok (e, c')) : Builds fuel c [] e.subterms
  | argument {func found : AggregateFunction} {name : String} {position : Nat} {arg : Option Expr}
      {c' : Cursor} (h : parseAggregateArgument fuel func name position c = .ok (found, arg, c')) :
      Builds fuel c [] (Expr.subtermsOfOption arg)
  | overWindow {func : WindowFunction Expr} {e : Expr} {c' : Cursor}
      (h : parseOver fuel func c = .ok (e, c')) :
      Builds fuel c (Expr.subtermsOfFunction func) e.subterms
  | partitions {es : List Expr} {c' : Cursor} (h : parsePartitions fuel c = .ok (es, c')) :
      Builds fuel c [] (Expr.subtermsOfList es)
  | keys {ks : List (OrderKey Expr)} {c' : Cursor} (h : parseOrderKeys fuel c = .ok (ks, c')) :
      Builds fuel c [] (Expr.subtermsOfKeys ks)
  | case {e : Expr} {c' : Cursor} (h : parseCase fuel c = .ok (e, c')) :
      Builds fuel c [] e.subterms
  | branches {bs : List (Expr × Expr)} {c' : Cursor} (h : parseBranches fuel c = .ok (bs, c')) :
      Builds fuel c [] (Expr.subtermsOfBranches bs)

/-- Whatever is built of bounded literals has bounded literals. -/
theorem Builds.aboveLeast {given built : List Expr} (h : Builds fuel c given built)
    (hc : Legible c) (hgiven : Expr.AboveLeast given) : Expr.AboveLeast built := by
  have hsound := sound fuel
  rw [Expr.aboveLeast_iff] at hgiven ⊢
  cases h with
  | read h => exact (hsound.read h).bounded hc
  | tail h => exact keepsBounded_tail _ fuel hc hgiven h
  | name h => exact (hsound.name h).bounded (List.forall_mem_singleton.2 (written_ident _)) hc
  | list h => exact (hsound.list h).bounded hc
  | items h => exact (hsound.items h).bounded hc
  | call h =>
      refine (hsound.call h).bounded ?_ hc
      exact List.forall_mem_cons.2 ⟨written_ident _, List.forall_mem_singleton.2 ⟨nofun, nofun⟩⟩
  | @argument func found name position arg c' h =>
      have hread : readArgument fuel func name position c = .ok ((found, arg), c') := by
        rw [readArgument, h]
        rfl
      exact (hsound.argument hread).bounded hc
  | overWindow h => exact (hsound.overWindow h).bounded hc hgiven
  | partitions h => exact (hsound.partitions h).bounded hc
  | keys h => exact (hsound.keys h).bounded hc
  | case h =>
      exact (hsound.case (show Text.asciiUpper "CASE" = "CASE" from rfl) h).bounded
        (List.forall_mem_singleton.2 (written_ident _)) hc
  | branches h => exact (hsound.branches h).bounded hc

end Grammar

variable {text : String} {ps : List Spanned}

theorem legible_of_tokens (h : Lexer.tokens text = .ok ps) {c : Cursor}
    (hc : ∀ p ∈ c.tokens, p ∈ ps) : Legible c := by
  intro t ht
  obtain ⟨p, hp, rfl⟩ := List.mem_map.1 ht
  exact tokensFrom_written h p (hc p hp)

/-- At whatever tokens of a text a parsing function is called, no integer literal that it builds is the
least integer, if none that it was handed is. So where a minus stands before an integer, its opposite is in
range, and no literal of the expression that a text is read as is the least integer. -/
theorem literals_above_least (h : Lexer.tokens text = .ok ps) :
    (∀ fuel c given built, (∀ p ∈ c.tokens, p ∈ ps) → Builds fuel c given built →
      Expr.AboveLeast given → Expr.AboveLeast built) ∧
    (∀ fuel c i c', (∀ p ∈ c.tokens, p ∈ ps) → c.current = .minus →
      parseUnary fuel c.advance = .ok (.literal (.int i), c') →
        parseUnary (fuel + 1) c = .ok (.literal (.int (-i)), c') ∧ (-i).toInt = -i.toInt) ∧
    ∀ e, Expr.parse text = .ok e → Expr.AboveLeast e.subterms := by
  refine ⟨fun fuel c given built hc hbuilds => hbuilds.aboveLeast (legible_of_tokens h hc), ?_, ?_⟩
  · intro fuel c i c' hc hminus hread
    have hbuilds : Builds fuel c.advance [] (Expr.literal (.int i)).subterms :=
      .read (ℓ := .unary) hread
    have hi := hbuilds.aboveLeast (legible_of_tokens h hc).advance nofun i (Expr.mem_subterms_self _)
    refine ⟨?_, toInt_neg_of_ne (Expr.minValue_lt_iff.1 hi)⟩
    rw [parseUnary_minus hminus, hread]
    rfl
  · intro e hparse
    obtain ⟨ps', c, htokens, -, hread, -⟩ := parse_eq_ok.1 hparse
    have hbuilds : Builds (fuelFor ps'.length) ⟨ps', 0, text.toList.length⟩ [] e.subterms :=
      .read (ℓ := .or) hread
    exact hbuilds.aboveLeast (legible_of_tokens htokens fun _ hp => hp) nofun

/-- The integer that an expression is as a literal. -/
def Expr.int? : Expr → Option Int64
  | .literal (.int i) => some i
  | _ => none

theorem Expr.eq_of_int? {e : Expr} {i : Int64} (h : e.int? = some i) : e = .literal (.int i) := by
  unfold int? at h
  split at h
  · rw [Option.some.inj h]
  · cases h

/-- The literal that comes back out of parentheses has a sign of its own and gets another one. -/
theorem literals_above_least_nested : ∃ ps c i c',
    Lexer.tokens "-(-9223372036854775807)" = .ok ps ∧ (∀ p ∈ c.tokens, p ∈ ps) ∧ c.current = .minus ∧
    parseUnary 12 c.advance = .ok (.literal (.int i), c') ∧ i.toInt = -9223372036854775807 ∧
    parseUnary 13 c = .ok (.literal (.int (-i)), c') ∧ (-i).toInt = 9223372036854775807 ∧
    ∃ e, Expr.parse "-(-9223372036854775807)" = .ok e ∧ Expr.AboveLeast e.subterms := by
  let ps : List Spanned := [⟨0, .minus⟩, ⟨1, .lparen⟩, ⟨2, .minus⟩, ⟨3, .integer 9223372036854775807⟩,
    ⟨22, .rparen⟩]
  have htokens : Lexer.tokens "-(-9223372036854775807)" = .ok ps := rfl
  obtain ⟨-, hsign, hread⟩ := literals_above_least htokens
  have hinner : (parseUnary 12 (Cursor.mk ps 0 23).advance).toOption.bind (fun p => p.1.int?) =
      some (-9223372036854775807) := by
    decide +kernel
  have hwhole : (Expr.parse "-(-9223372036854775807)").toOption.isSome = true := by decide +kernel
  cases hopposite : parseUnary 12 (Cursor.mk ps 0 23).advance with
  | error problem =>
      rw [hopposite] at hinner
      cases hinner
  | ok p =>
  cases hparse : Expr.parse "-(-9223372036854775807)" with
  | error problem =>
      rw [hparse] at hwhole
      cases hwhole
  | ok e =>
  obtain ⟨inner, c'⟩ := p
  rw [hopposite] at hinner
  obtain rfl : inner = .literal (.int (-9223372036854775807)) := Expr.eq_of_int? hinner
  obtain ⟨hnegated, hopposed⟩ := hsign 12 _ _ _ (fun _ hp => hp) rfl hopposite
  exact ⟨ps, ⟨ps, 0, 23⟩, _, c', htokens, fun _ hp => hp, rfl, hopposite, rfl, hnegated, hopposed,
    e, rfl, hread e hparse⟩

end RowPipeline
