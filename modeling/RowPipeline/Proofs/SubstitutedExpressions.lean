import RowPipeline.Proofs.FilledLexemes
import RowPipeline.Proofs.FilledParsing

/-!
# Expressions after substitution

An expression with its parameters as literals is read again and has the same value, as long as its
lexemes fit the parameters. Where one does not fit, the two may differ.
-/

namespace RowPipeline

variable {params : Parameters} {text : String} {e : Expr}

namespace Parser

variable {ps ps' : List Spanned} {c c' : Cursor} {stop stop' : Nat}

theorem current_of_isEof (h : c.current.isEof = true) : c.current = .eof := by
  cases hcurrent : c.current with
  | eof => rfl
  | _ => rw [hcurrent] at h; cases h

/-- At the end of written tokens none is left. -/
theorem tokens_of_isEof (hwritten : ∀ p ∈ c.tokens, p.token.Written)
    (h : c.current.isEof = true) : c.tokens = [] := by
  have hcurrent := current_of_isEof h
  obtain ⟨tokens, slot, stop⟩ := c
  cases tokens with
  | nil => rfl
  | cons p more => exact absurd hcurrent (hwritten p List.mem_cons_self).1

/-- The tokens of a whole expression, filled, are a whole expression with the same value. -/
theorem parseOr_filled (hwritten : ∀ p ∈ ps, p.token.Written)
    (h : parseOr (fuelFor ps.length) ⟨ps, 0, stop⟩ = .ok (e, c)) (hend : c.current.isEof = true)
    (hps' : ps'.map Spanned.token = (ps.map Spanned.token).flatMap (Token.fill params)) :
    Passes ps [] ∧ ∃ e' c', parseOr (fuelFor ps'.length) ⟨ps', 0, stop'⟩ = .ok (e', c') ∧
      Alike params e e' ∧ c'.current.isEof = true := by
  have hfilled : Filled params ⟨ps, 0, stop⟩ ⟨ps', 0, stop'⟩ := ⟨hps', rfl, hwritten⟩
  have hfree : c.Free := by rw [Cursor.Free, current_of_isEof hend]; rfl
  have hfuel : 16 * ps'.length + 8 ≤ fuelFor ps'.length := by
    rw [fuelFor]
    omega
  obtain ⟨e', c', hread, halike, hafter, hpass⟩ :=
    (simulated params (fuelFor ps.length)).or hfilled h hfree hfuel
  have hrest : c.tokens = [] := tokens_of_isEof hafter.written hend
  have hrest' : c'.tokens = [] := by
    have := hafter.tokens
    rw [hrest] at this
    simpa using this
  rw [hrest] at hpass
  refine ⟨hpass, e', c', hread, halike, ?_⟩
  rw [Cursor.current, hrest']
  rfl

theorem fill_ne_nil (t : Token) : t.fill params ≠ [] := by
  cases t with
  | param name =>
      rw [Token.fill]
      split
      · exact literalTokens_ne_nil (literal?_eq_some ‹_›).1
      · simp
  | _ => simp [Token.fill]

end Parser

open RowPipeline.Parser RowPipeline.Lexer

/-- Reading a text is splitting it into tokens and reading all of them. -/
theorem parse_eq_ok : Expr.parse text = .ok e ↔ ∃ ps c, tokens text = .ok ps ∧ ps ≠ [] ∧
    parseOr (fuelFor ps.length) ⟨ps, 0, text.toList.length⟩ = .ok (e, c) ∧
      c.current.isEof = true := by
  rw [Expr.parse]
  cases htokens : tokens text with
  | error problem => simp [bind, Except.bind]
  | ok ps =>
      cases ps with
      | nil => simp [bind, Except.bind, throw, throwThe, MonadExceptOf.throw]
      | cons p more =>
          cases hread : parseOr (fuelFor (more.length + 1)) ⟨p :: more, 0, text.toList.length⟩ with
          | error problem => simp [bind, Except.bind, hread]
          | ok r =>
              obtain ⟨e', c⟩ := r
              cases hend : c.current.isEof with
              | true => simp [bind, Except.bind, pure, Except.pure, hread, hend]
              | false =>
                  simp [bind, Except.bind, hread, hend, throw, throwThe, MonadExceptOf.throw]

theorem substituteValue_expression (params : Parameters) (text : String) :
    substituteValue params (.object [(expressionKey, .string text)])
      = .object [(expressionKey, .string (substituteExpression params text))] := by
  have hkey : expressionKey ≠ gateKey := by decide
  simp [substituteValue, substituteFields, hkey]

theorem substituteExpression_chars (params : Parameters) (text : String) :
    (substituteExpression params text).toList = Piece.fillChars (literalOf params) text.toList :=
  Piece.fill_eq text

/-- Whether the text of an expression is read again with its parameters as literals, and then has the
same value on every row. -/
def KeepsMeaning (params : Parameters) (text : String) : Prop :=
  ∀ e, Expr.parse text = .ok e →
    ∃ text' e', substituteValue params (.object [(expressionKey, .string text)])
        = .object [(expressionKey, .string text')] ∧
      Expr.parse text' = .ok e' ∧
      ∀ row window, e'.eval ⟨row, some params, window⟩ = e.eval ⟨row, some params, window⟩

/-- An expression whose lexemes fit the parameters keeps its meaning. -/
theorem substitution_keeps_meaning (hfits : ∀ l ∈ lexemes text, l.Fits params) :
    KeepsMeaning params text := by
  intro e hparse
  obtain ⟨ps, c, htokens, hnonempty, hread, hend⟩ := parse_eq_ok.1 hparse
  have hwritten := tokensFrom_written htokens
  -- the borders between the filled lexemes need a parse, which needs no positions
  have hpass : Passes ps [] := (@parseOr_filled params e ps
    (((ps.map Spanned.token).flatMap (Token.fill params)).map (Spanned.mk 0)) c _ 0 hwritten hread hend
    (by rw [List.map_map]; exact List.map_id _)).1
  obtain ⟨hlexes, -⟩ := lexes_filled (Nat.le_refl _) htokens hfits hpass
  rw [← substituteExpression_chars] at hlexes
  obtain ⟨ps', htokens', hps'⟩ := @Lexes.tokensFrom _ _ hlexes
    (substituteExpression params text).toList.length _ (Nat.le_refl _)
  obtain ⟨-, e', c', hread', halike, hend'⟩ := @parseOr_filled params e ps ps' c _
    (substituteExpression params text).toList.length hwritten hread hend hps'
  refine ⟨_, e', substituteValue_expression params text, parse_eq_ok.2 ⟨ps', c', htokens', ?_, hread',
    hend'⟩, halike.eval⟩
  rintro rfl
  obtain ⟨p, more, rfl⟩ := List.exists_cons_of_ne_nil hnonempty
  simp [fill_ne_nil] at hps'

def shopParameters : Parameters :=
  ⟨[("least", .int (-5)), ("shop", .string "Jo's")], by decide⟩

/-- A number below zero behind a sign, and a text with a quote in braces. -/
theorem substitution_keeps_shop :
    (Expr.parse "n-$least OR s=$\x7bshop\x7d").isOk = true ∧
      substituteExpression shopParameters "n-$least OR s=$\x7bshop\x7d" = "n--5 OR s='Jo''s'" ∧
      KeepsMeaning shopParameters "n-$least OR s=$\x7bshop\x7d" :=
  ⟨by decide +kernel, by decide +kernel, substitution_keeps_meaning (by decide +kernel)⟩

/-! ## Lexemes that do not fit -/

theorem not_keeps_of_unread (hread : (Expr.parse text).isOk = true)
    (hunread : (Expr.parse (substituteExpression params text)).isOk = false) :
    ¬KeepsMeaning params text := by
  intro h
  cases hparse : Expr.parse text with
  | error problem =>
      rw [hparse] at hread
      cases hread
  | ok e =>
      obtain ⟨text', e', hsub, hparse', -⟩ := h e hparse
      rw [substituteValue_expression] at hsub
      have htext : substituteExpression params text = text' := by simpa using hsub
      rw [htext, hparse'] at hunread
      cases hunread

/-- What a test on the value of a text says on a row. -/
def tested (test : Except ExpressionError Value → Bool) (params : Parameters) (row : Row)
    (text : String) : Option Bool :=
  (Expr.parse text).toOption.map fun e => test (e.eval ⟨some row, some params, fun _ => none⟩)

theorem not_keeps_of_tested {test : Except ExpressionError Value → Bool} {row : Row}
    (hread : tested test params row text = some true)
    (hother : tested test params row (substituteExpression params text) = some false) :
    ¬KeepsMeaning params text := by
  intro h
  cases hparse : Expr.parse text with
  | error problem =>
      rw [tested, hparse] at hread
      cases hread
  | ok e =>
      obtain ⟨text', e', hsub, hparse', heval⟩ := h e hparse
      rw [substituteValue_expression] at hsub
      have htext : substituteExpression params text = text' := by simpa using hsub
      rw [tested, hparse] at hread
      rw [tested, htext, hparse'] at hother
      have hsame := heval (some row) fun _ => none
      have hdiffer : true = false := by
        rw [← Option.some.inj hread, ← Option.some.inj hother]
        exact congrArg test hsame.symm
      cases hdiffer

def isTrue : Except ExpressionError Value → Bool
  | .ok v => v.isTruthy
  | .error _ => false

def isInteger : Except ExpressionError Value → Bool
  | .ok (.int _) => true
  | _ => false

/-- The literal of an array is no item of a list, a text that mentions a parameter changes with it,
the least integer becomes a double, and a constant runs into the word before or after it. -/
theorem substitution_changes_meaning :
    ¬KeepsMeaning ⟨[("ids", .array [.int 1, .int 2])], by decide⟩ "id IN ($ids)" ∧
      ¬KeepsMeaning ⟨[("p", .int 3)], by decide⟩ "s='$p'" ∧
      ¬KeepsMeaning ⟨[("p", .int Int64.minValue)], by decide⟩ "$p" ∧
      ¬KeepsMeaning ⟨[("p", .bool false)], by decide⟩ "NOT$p" ∧
      ¬KeepsMeaning ⟨[("p", .null)], by decide⟩ "$\x7bp\x7dIS NULL" := by
  refine ⟨?_, ?_, ?_, ?_, ?_⟩
  · exact not_keeps_of_unread (by decide +kernel) (by decide +kernel)
  · exact @not_keeps_of_tested _ _ isTrue ⟨[("s", .string "$p")], by decide⟩ (by decide +kernel)
      (by decide +kernel)
  · exact @not_keeps_of_tested _ _ isInteger .empty (by decide +kernel) (by decide +kernel)
  · exact @not_keeps_of_tested _ _ isTrue .empty (by decide +kernel) (by decide +kernel)
  · exact not_keeps_of_unread (by decide +kernel) (by decide +kernel)

end RowPipeline
