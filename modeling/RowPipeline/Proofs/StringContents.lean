import RowPipeline.Proofs.AnsiTokens
import RowPipeline.Proofs.Outcomes
import RowPipeline.Proofs.TokenTexts

/-!
# String values in SQL texts

The text of an expression is compared with that of the same expression with its strings emptied. Either
both are written or both fail, and two texts have the same tokens up to the contents of strings; the
strings in the first one are those of the expression, so none of them reaches out of its quotes. A text
is put together from pieces of which this holds, one behind the other, where each can stand behind any
other.
-/

namespace RowPipeline

open Sql Ansi

/-! ## Emptied strings -/

namespace Value

mutual

/-- A value with its strings emptied, those in objects aside. -/
def emptied : Value → Value
  | .null => .null
  | .bool b => .bool b
  | .int i => .int i
  | .float x => .float x
  | .string _ => .string ""
  | .array items => .array (emptiedItems items)
  | .object fields => .object fields

def emptiedItems : List Value → List Value
  | [] => []
  | v :: rest => v.emptied :: emptiedItems rest

end

mutual

/-- The strings in the literal of a value, an object's text among them. -/
def strings : Value → List String
  | .null | .bool _ | .int _ | .float _ => []
  | .string x => [x]
  | .array items => itemStrings items
  | .object fields => [canonicalKey (.object fields)]

def itemStrings : List Value → List String
  | [] => []
  | v :: rest => v.strings ++ itemStrings rest

end

end Value

namespace Expr

mutual

/-- An expression with the strings of its literals emptied. -/
def emptied : Expr → Expr
  | .literal v => .literal v.emptied
  | .field name => .field name
  | .param name => .param name
  | .unary op e => .unary op e.emptied
  | .binary op l r => .binary op l.emptied r.emptied
  | .call f args => .call f (emptiedEach args)
  | .aggregate f arg => .aggregate f (emptiedOption arg)
  | .window slot spec => .window slot (emptiedSpec spec)
  | .case operand branches otherwise =>
      .case (emptiedOption operand) (emptiedBranches branches) (emptiedOption otherwise)
  | .inList e list negated => .inList e.emptied (emptiedEach list) negated
  | .between e low high negated => .between e.emptied low.emptied high.emptied negated
  | .like e pattern negated => .like e.emptied pattern.emptied negated
  | .isNull e negated => .isNull e.emptied negated

def emptiedEach : List Expr → List Expr
  | [] => []
  | e :: rest => e.emptied :: emptiedEach rest

def emptiedOption : Option Expr → Option Expr
  | none => none
  | some e => some e.emptied

def emptiedBranches : List (Expr × Expr) → List (Expr × Expr)
  | [] => []
  | (whenExpr, thenExpr) :: rest => (whenExpr.emptied, thenExpr.emptied) :: emptiedBranches rest

def emptiedKeys : List (OrderKey Expr) → List (OrderKey Expr)
  | [] => []
  | ⟨e, descending⟩ :: rest => ⟨e.emptied, descending⟩ :: emptiedKeys rest

def emptiedFunction : WindowFunction Expr → WindowFunction Expr
  | .rowNumber => .rowNumber
  | .rank => .rank
  | .denseRank => .denseRank
  | .aggregate f arg => .aggregate f (emptiedOption arg)

def emptiedSpec : WindowSpec Expr → WindowSpec Expr
  | ⟨func, partitionBy, orderBy⟩ =>
      ⟨emptiedFunction func, emptiedEach partitionBy, emptiedKeys orderBy⟩

end

/-- The strings of an expression outside its parts. -/
def ownStrings : Expr → List String
  | .literal v => v.strings
  | _ => []

/-- The strings of some expressions, each without its parts. -/
def stringsOf (terms : List Expr) : List String := terms.flatMap ownStrings

/-- The strings of an expression, in the order of the text. -/
def strings (e : Expr) : List String := stringsOf e.subterms

end Expr

/-! ## Texts that differ in strings alone -/

/-- A text and another one with the same tokens up to the contents of strings, and the strings in the
first one. -/
structure Twin (text text₀ : String) (contents : List String) : Prop where
  whole : Whole text
  whole₀ : Whole text₀
  same : (tokens text).map Token.blank = (tokens text₀).map Token.blank
  strings : Ansi.strings text = contents

/-- Twins that can stand right behind any others. -/
structure Tail (text text₀ : String) (contents : List String) : Prop where
  twin : Twin text text₀ contents
  detached : Detached text
  detached₀ : Detached text₀

/-- Whether a text without strings ends in nothing, so that any text can follow. -/
def isLead (text : String) : Bool :=
  State.after (.code []) text.toList = .code [] && (Ansi.strings text).isEmpty

/-- Whether a text can stand between any two others. -/
def isJoint (text : String) : Bool := isLead text && text.toList.head?.any separates

/-- Whether a text is whole and without strings. -/
def isPlain (text : String) : Bool :=
  !(State.after (.code []) text.toList).isOpen && (Ansi.strings text).isEmpty

/-- Whether a text without strings can stand behind any other. -/
def isEnd (text : String) : Bool := isPlain text && text.toList.head?.all separates

variable {a a₀ b b₀ : String} {xs ys : List String}

theorem strings_append (h : tokens (a ++ b) = tokens a ++ tokens b) :
    Ansi.strings (a ++ b) = Ansi.strings a ++ Ansi.strings b := by
  rw [Ansi.strings, h, List.filterMap_append]
  rfl

namespace Twin

/-- A text without strings is its own twin. -/
theorem fixed (h : Whole a ∧ Ansi.strings a = []) : Twin a a [] := ⟨h.1, h.1, rfl, h.2⟩

theorem plain (g : String) (hg : isPlain g = true) : Twin g g [] := by
  obtain ⟨hwhole, hstrings⟩ : Whole g ∧ Ansi.strings g = [] := by
    simpa [isPlain, Whole] using hg
  exact .fixed ⟨hwhole, hstrings⟩

theorem quoted (x y : String) : Twin (quoteString x) (quoteString y) [x] := by
  obtain ⟨htokens, hwhole⟩ := quoteString_spec x
  obtain ⟨htokens₀, hwhole₀⟩ := quoteString_spec y
  refine ⟨hwhole, hwhole₀, by rw [htokens, htokens₀]; rfl, ?_⟩
  rw [Ansi.strings, htokens]
  rfl

theorem append (ha : Twin a a₀ xs) (hb : Tail b b₀ ys) : Twin (a ++ b) (a₀ ++ b₀) (xs ++ ys) := by
  -- both texts are cut at the same place
  obtain ⟨htokens, hwhole⟩ := tokens_append ha.whole hb.detached
  obtain ⟨htokens₀, hwhole₀⟩ := tokens_append ha.whole₀ hb.detached₀
  refine ⟨hwhole hb.twin.whole, hwhole₀ hb.twin.whole₀, ?_, ?_⟩
  · rw [htokens, htokens₀, List.map_append, List.map_append, ha.same, hb.twin.same]
  · rw [strings_append htokens, ha.strings, hb.twin.strings]

/-- A text behind another one that ends in nothing. -/
theorem behind (h : Twin b b₀ xs) (g : String) (hg : isLead g = true) : Twin (g ++ b) (g ++ b₀) xs := by
  obtain ⟨hafter, hstrings⟩ : State.after (.code []) g.toList = .code [] ∧ Ansi.strings g = [] := by
    simpa [isLead] using hg
  obtain ⟨htokens, hwhole⟩ := @tokens_append_fresh g b hafter
  obtain ⟨htokens₀, hwhole₀⟩ := @tokens_append_fresh g b₀ hafter
  refine ⟨hwhole h.whole, hwhole₀ h.whole₀, ?_, ?_⟩
  · rw [htokens, htokens₀, List.map_append, List.map_append, h.same]
  · rw [strings_append htokens, hstrings, h.strings, List.nil_append]

theorem joint (h : Twin b b₀ xs) (g : String) (hg : isJoint g = true) : Tail (g ++ b) (g ++ b₀) xs := by
  obtain ⟨hlead, hhead⟩ := Bool.and_eq_true_iff.1 hg
  have hdetached (text : String) : Detached (g ++ text) := by
    intro c hc
    rw [String.toList_append] at hc
    cases hchars : g.toList with
    | nil => simp [hchars] at hhead
    | cons d rest =>
        rw [hchars] at hc hhead
        obtain rfl : d = c := Option.some.inj hc
        exact hhead
  exact ⟨h.behind g hlead, hdetached b, hdetached b₀⟩

end Twin

namespace Tail

theorem fixed (g : String) (hg : isEnd g = true) : Tail g g [] := by
  obtain ⟨hplain, hhead⟩ := Bool.and_eq_true_iff.1 hg
  have hdetached : Detached g := fun c hc => by
    rw [Option.mem_def.1 hc] at hhead
    exact hhead
  exact ⟨.plain g hplain, hdetached, hdetached⟩

theorem append (ha : Tail a a₀ xs) (hb : Tail b b₀ ys) : Tail (a ++ b) (a₀ ++ b₀) (xs ++ ys) :=
  ⟨ha.twin.append hb, ha.detached.append hb.detached, ha.detached₀.append hb.detached₀⟩

end Tail

theorem Twin.closed (h : Twin a a₀ xs) (g : String) (hg : isEnd g = true) :
    Twin (a ++ g) (a₀ ++ g) xs := by
  have happend := h.append (.fixed g hg)
  rwa [List.append_nil] at happend

/-! ## Lists of texts -/

/-- Twins one by one. -/
inductive Twins : List String → List String → List String → Prop
  | nil : Twins [] [] []
  | cons {text text₀ : String} {texts texts₀ xs ys : List String} (first : Twin text text₀ xs)
      (rest : Twins texts texts₀ ys) : Twins (text :: texts) (text₀ :: texts₀) (xs ++ ys)

/-- Twins, or nothing on both sides. -/
inductive OptionTwin : Option String → Option String → List String → Prop
  | none : OptionTwin none none []
  | some {text text₀ : String} {xs : List String} (h : Twin text text₀ xs) :
      OptionTwin (some text) (some text₀) xs

namespace Twins

variable {texts texts₀ others others₀ : List String}

theorem append (h : Twins texts texts₀ xs) (hothers : Twins others others₀ ys) :
    Twins (texts ++ others) (texts₀ ++ others₀) (xs ++ ys) := by
  induction h with
  | nil => exact hothers
  | cons first _ ih =>
      rw [List.append_assoc]
      exact .cons first ih

theorem single (h : Twin a a₀ xs) : Twins [a] [a₀] xs := by
  have hcons := Twins.cons h .nil
  rwa [List.append_nil] at hcons

/-- Twins with a text between that can stand between any. -/
theorem intercalate (h : Twins texts texts₀ xs) (g : String) (hg : isJoint g = true) :
    Twin (g.intercalate texts) (g.intercalate texts₀) xs := by
  induction h with
  | nil => exact .fixed ⟨rfl, rfl⟩
  | cons first rest ih =>
      cases rest with
      | nil => simpa using first
      | cons second more =>
          rw [String.intercalate_cons_cons, String.intercalate_cons_cons, String.append_assoc,
            String.append_assoc]
          exact first.append (ih.joint g hg)

/-- Twins after the words of a clause, which is left out when there are none. -/
theorem clause (h : Twins texts texts₀ xs) (g : String) (hg : isLead g = true) :
    Twins (if texts.isEmpty then [] else [g ++ ", ".intercalate texts])
      (if texts₀.isEmpty then [] else [g ++ ", ".intercalate texts₀]) xs := by
  have hcommas := h.intercalate ", " (by decide)
  cases h with
  | nil => exact .nil
  | cons first rest => exact .single (hcommas.behind g hg)

end Twins

/-! ## Results -/

/-- The same error twice, or two results in a relation. -/
inductive Paired {α : Type} (R : α → α → List String → Prop) :
    Except SqlError α → Except SqlError α → List String → Prop
  | error {xs : List String} (e : SqlError) : Paired R (.error e) (.error e) xs
  | ok {r r₀ : α} {xs : List String} (h : R r r₀ xs) : Paired R (.ok r) (.ok r₀) xs

namespace Paired

variable {α β : Type} {R : α → α → List String → Prop} {S : β → β → List String → Prop}
  {x x₀ : Except SqlError α} {f f₀ : α → Except SqlError β}

/-- After a part that succeeds, what it gave is known. -/
theorem chain (h : Paired R x x₀ xs)
    (hf : ∀ r r₀, x = .ok r → R r r₀ xs → Paired S (f r) (f₀ r₀) ys) :
    Paired S (x >>= f) (x₀ >>= f₀) ys := by
  cases h with
  | error e => exact .error e
  | ok h => exact hf _ _ rfl h

theorem bind (h : Paired R x x₀ xs) (hf : ∀ r r₀, R r r₀ xs → Paired S (f r) (f₀ r₀) ys) :
    Paired S (x >>= f) (x₀ >>= f₀) ys := h.chain fun r r₀ _ => hf r r₀

end Paired

/-! ## Names -/

theorem isHarmless_wordChar {c : Char} (h : Lexer.isWordChar c = true) : isHarmless c = true := by
  rw [isHarmless_iff]
  refine ⟨?_, ?_, ?_, ?_, ?_⟩ <;> (rintro rfl; cases h)

theorem isHarmless_identifier {name : String} (h : isValidIdentifier name = true) :
    ∀ c ∈ name.toList, isHarmless c = true := by
  have hpart {cs : List Char} (hcs : isIdentifierPart cs = true) : ∀ c ∈ cs, isHarmless c = true :=
    fun c hc => isHarmless_wordChar
      (Piece.wordChar_of_nameChar (Piece.isName_chars (isName_of_part hcs) c hc))
  rcases part_or_pair h with hname | ⟨table, column, hname, htable, hcolumn⟩
  · exact hpart hname
  · intro c hc
    rw [hname] at hc
    rcases List.mem_append.1 hc with hc | hc
    · exact hpart htable c hc
    · rcases List.mem_cons.1 hc with rfl | hc
      · decide
      · exact hpart hcolumn c hc

theorem identifier_paired (name : String) :
    Paired Twin (identifier name) (identifier name) [] := by
  rw [identifier]
  split
  · exact .ok (.fixed (harmless_spec (isHarmless_identifier ‹_›)))
  · exact .error _

/-! ## Literals -/

theorem isHarmless_digit {c : Char} (h : Text.isAsciiDigit c = true) : isHarmless c = true :=
  @Lexer.digit_forall (fun c => isHarmless c = true) _ (by decide) c h

theorem isHarmless_toString (n : ℕ) : ∀ c ∈ (toString n).toList, isHarmless c = true := fun c hc =>
  isHarmless_digit ((Decimal.digits_toString n).all c hc)

theorem isHarmless_magnitude (d : Dyadic) :
    ∀ c ∈ (Lexer.magnitude d).toList, isHarmless c = true := by
  obtain ⟨v, whole, fraction, htext, hwhole, hfraction, -⟩ := Lexer.pointed_magnitude d
  have hpointed : ∀ c ∈ (Lexer.pointed (Lexer.magnitude d)).toList, isHarmless c = true := by
    rw [htext]
    intro c hc
    rcases List.mem_append.1 hc with hc | hc
    · exact isHarmless_digit (hwhole.all c hc)
    · rcases List.mem_cons.1 hc with rfl | hc
      · decide
      · exact isHarmless_digit (hfraction.all c hc)
  intro c hc
  refine hpointed c ?_
  rw [Lexer.pointed]
  split
  · exact hc
  · rw [String.toList_append]
    exact List.mem_append_left _ hc

theorem twin_float {x : Float} (hx : x.isFinite = true) :
    Twin (Decimal.plainLayout.write x) (Decimal.plainLayout.write x) [] := by
  rw [← Binary64.decode?_isSome] at hx
  obtain ⟨d, hd⟩ := Option.isSome_iff_exists.1 hx
  rw [Lexer.write_eq hd]
  exact .fixed (signed_spec d.negative (isHarmless_magnitude d))

theorem twin_int (i : ℤ) : Twin (toString i) (toString i) [] := by
  have hsigned := signed_spec (decide (i < 0)) (isHarmless_toString i.natAbs)
  have htext : toString i = (if decide (i < 0) then "-" else "") ++ toString i.natAbs := by
    rw [Int.toString_eq_repr, Int.repr_eq_if]
    by_cases hneg : i < 0
    · have hsize : (-i).toNat = i.natAbs := by omega
      rw [if_neg (by omega), hsize]
      simp [hneg]
    · have hsize : i.toNat = i.natAbs := by omega
      rw [if_pos (by omega), hsize]
      simp [hneg]
  -- the sign stands before a digit, so it starts no comment
  rw [htext]
  exact .fixed hsigned

mutual

theorem twin_literal (d : Dialect) : ∀ v : Value,
    Twin (Sql.literal d v) (Sql.literal d v.emptied) v.strings
  | .null => by
      rw [Value.emptied, Value.strings, Sql.literal]
      exact .plain "NULL" (by decide)
  | .bool b => by
      rw [Value.emptied, Value.strings, Sql.literal]
      refine .plain _ ?_
      cases d <;> cases b <;> decide
  | .int i => by
      rw [Value.emptied, Value.strings, Sql.literal]
      exact twin_int i.toInt
  | .float x => by
      rw [Value.emptied, Value.strings, Sql.literal]
      split
      · exact twin_float ‹_›
      · exact .plain "NULL" (by decide)
  | .string x => by
      rw [Value.emptied, Value.strings, Sql.literal, Sql.literal]
      exact .quoted x ""
  | .array items => by
      rw [Value.emptied, Value.strings, Sql.literal, Sql.literal]
      have hitems := (twins_literals d items).intercalate ", " (by decide)
      simpa only [String.append_assoc] using (hitems.closed ")" (by decide)).behind "(" (by decide)
  | .object fields => by
      rw [Value.emptied, Value.strings, Sql.literal]
      exact .quoted _ _

theorem twins_literals (d : Dialect) : ∀ items : List Value,
    Twins (literals d items) (literals d (Value.emptiedItems items)) (Value.itemStrings items)
  | [] => by
      rw [Value.emptiedItems, Value.itemStrings, literals]
      exact .nil
  | v :: rest => by
      rw [Value.emptiedItems, Value.itemStrings, literals, literals]
      exact .cons (twin_literal d v) (twins_literals d rest)

end

/-! ## Expressions -/

namespace Expr

theorem stringsOf_cons {e : Expr} (terms : List Expr) (h : e.ownStrings = []) :
    stringsOf (e :: terms) = stringsOf terms := by
  rw [stringsOf, List.flatMap_cons, h]
  rfl

theorem stringsOf_append (terms others : List Expr) :
    stringsOf (terms ++ others) = stringsOf terms ++ stringsOf others := List.flatMap_append

end Expr

theorem Twin.aggregateCall (h : Twin a a₀ xs) (f : AggregateFunction) :
    Twin (Sql.aggregateCall f a) (Sql.aggregateCall f a₀) xs := by
  have hclosed := h.closed ")" (by decide)
  by_cases hf : f = .countDistinct
  · subst hf
    rw [Sql.aggregateCall_countDistinct, Sql.aggregateCall_countDistinct]
    simpa only [String.append_assoc] using hclosed.behind "COUNT(DISTINCT " (by decide)
  · have hlead : isLead (f.sqlName ++ "(") = true := by cases f <;> decide
    rw [Sql.aggregateCall_of_ne hf, Sql.aggregateCall_of_ne hf]
    simpa only [String.append_assoc] using hclosed.behind _ hlead

/-- A text behind a joint, or nothing. -/
theorem OptionTwin.attached {o o₀ : Option String} (h : OptionTwin o o₀ xs) (g : String)
    (hg : isJoint g = true) : Tail (behind g o) (behind g o₀) xs := by
  cases h with
  | none => exact .fixed "" (by decide)
  | some h => exact h.joint g hg

mutual

/-- The text of an expression and that of the same one with its strings emptied. -/
theorem toSql_paired (d : Dialect) : ∀ e : Expr,
    Paired Twin (e.toSqlWith d identifier) (e.emptied.toSqlWith d identifier)
      (Expr.stringsOf e.subterms)
  | .literal v => by
      rw [Expr.emptied, Expr.toSqlWith, Expr.toSqlWith, Expr.subterms]
      have hstrings : Expr.stringsOf [.literal v] = v.strings := List.append_nil _
      rw [hstrings]
      exact .ok (twin_literal d v)
  | .field name => by
      rw [Expr.emptied, Expr.subterms, Expr.toSqlWith]
      exact identifier_paired name
  | .param name => by
      rw [Expr.emptied, Expr.toSqlWith]
      exact .error _
  | .unary op e => by
      rw [Expr.emptied, Expr.subterms]
      cases op with
      | neg =>
          rw [Expr.toSqlWith, Expr.toSqlWith]
          refine (toSql_paired d e).bind fun sql sql₀ h => .ok ?_
          exact (h.closed ")" (by decide)).behind "-(" (by decide)
      | not =>
          rw [Expr.toSqlWith, Expr.toSqlWith]
          refine (toSql_paired d e).bind fun sql sql₀ h => .ok ?_
          exact (h.closed ")" (by decide)).behind "NOT (" (by decide)
  | .binary op l r => by
      rw [Expr.emptied, Expr.toSqlWith, Expr.toSqlWith, Expr.subterms, Expr.stringsOf_cons _ rfl,
        Expr.stringsOf_append]
      refine (toSql_paired d l).bind fun left left₀ hleft => ?_
      refine (toSql_paired d r).bind fun right right₀ hright => .ok ?_
      -- a sign by itself might start a comment, the blanks around it cut it off
      have hsign : isJoint (" " ++ operatorSymbol op ++ " ") = true := by cases op <;> decide
      have hpair := hleft.append ((hright.closed ")" (by decide)).joint _ hsign)
      simpa only [String.append_assoc] using hpair.behind "(" (by decide)
  | .call f args => by
      rw [Expr.emptied, Expr.toSqlWith, Expr.toSqlWith, Expr.subterms, Expr.stringsOf_cons _ rfl]
      refine (listToSql_paired d args).bind fun texts texts₀ h => .ok ?_
      have hlead : isLead (functionName d f ++ "(") = true := by cases d <;> cases f <;> decide
      have hargs := ((h.intercalate ", " (by decide)).closed ")" (by decide)).behind _ hlead
      simpa only [String.append_assoc] using hargs
  | .aggregate f arg => by
      rw [Expr.emptied, Expr.toSqlWith, Expr.toSqlWith, Expr.subterms, Expr.stringsOf_cons _ rfl]
      exact (argumentToSql_paired d arg).bind fun inner inner₀ h => .ok (h.aggregateCall f)
  | .window slot spec => by
      rw [Expr.emptied, Expr.toSqlWith, Expr.toSqlWith, Expr.subterms, Expr.stringsOf_cons _ rfl]
      exact specToSql_paired d spec
  | .case operand branches otherwise => by
      rw [Expr.emptied, Expr.toSqlWith, Expr.toSqlWith, Expr.subterms, Expr.stringsOf_cons _ rfl,
        Expr.stringsOf_append, Expr.stringsOf_append]
      refine (optionToSql_paired d operand).bind fun subject subject₀ hsubject => ?_
      refine (branchesToSql_paired d branches).bind fun cases cases₀ hcases => ?_
      refine (optionToSql_paired d otherwise).bind fun last last₀ hlast => .ok ?_
      have hstart := (Twin.plain "CASE" (by decide)).append (hsubject.attached " " (by decide))
      have hbranches := (hstart.append hcases).append (hlast.attached " ELSE " (by decide))
      exact hbranches.closed " END" (by decide)
  | .inList e list negated => by
      rw [Expr.emptied, Expr.toSqlWith, Expr.toSqlWith, Expr.subterms, Expr.stringsOf_cons _ rfl,
        Expr.stringsOf_append]
      refine (toSql_paired d e).bind fun subject subject₀ hsubject => ?_
      refine (listToSql_paired d list).bind fun items items₀ hitems => .ok ?_
      have hlist := (hitems.intercalate ", " (by decide)).closed ")" (by decide)
      have hwords : isJoint (" " ++ negation negated ++ "IN (") = true := by cases negated <;> decide
      simpa only [String.append_assoc] using hsubject.append (hlist.joint _ hwords)
  | .between e low high negated => by
      rw [Expr.emptied, Expr.toSqlWith, Expr.toSqlWith, Expr.subterms, Expr.stringsOf_cons _ rfl,
        Expr.stringsOf_append, Expr.stringsOf_append]
      refine (toSql_paired d e).bind fun subject subject₀ hsubject => ?_
      refine (toSql_paired d low).bind fun lower lower₀ hlower => ?_
      refine (toSql_paired d high).bind fun upper upper₀ hupper => .ok ?_
      have hbounds := hlower.append (hupper.joint " AND " (by decide))
      have hwords : isJoint (" " ++ negation negated ++ "BETWEEN ") = true := by
        cases negated <;> decide
      simpa only [String.append_assoc, List.append_assoc] using
        hsubject.append (hbounds.joint _ hwords)
  | .like e pattern negated => by
      rw [Expr.emptied, Expr.toSqlWith, Expr.toSqlWith, Expr.subterms, Expr.stringsOf_cons _ rfl,
        Expr.stringsOf_append]
      refine (toSql_paired d e).bind fun subject subject₀ hsubject => ?_
      refine (toSql_paired d pattern).bind fun form form₀ hform => .ok ?_
      have hwords : isJoint (" " ++ negation negated ++ "LIKE ") = true := by
        cases negated <;> decide
      simpa only [String.append_assoc] using hsubject.append (hform.joint _ hwords)
  | .isNull e negated => by
      rw [Expr.emptied, Expr.toSqlWith, Expr.toSqlWith, Expr.subterms, Expr.stringsOf_cons _ rfl]
      refine (toSql_paired d e).bind fun subject subject₀ hsubject => .ok ?_
      have hwords : isEnd (" IS " ++ negation negated ++ "NULL") = true := by
        cases negated <;> decide
      simpa only [String.append_assoc] using hsubject.closed _ hwords

theorem listToSql_paired (d : Dialect) : ∀ es : List Expr,
    Paired Twins (Expr.listToSql d identifier es) (Expr.listToSql d identifier (Expr.emptiedEach es))
      (Expr.stringsOf (Expr.subtermsOfList es))
  | [] => by
      rw [Expr.emptiedEach, Expr.listToSql]
      exact .ok .nil
  | e :: rest => by
      rw [Expr.emptiedEach, Expr.listToSql, Expr.listToSql, Expr.subtermsOfList, Expr.stringsOf_append]
      refine (toSql_paired d e).bind fun text text₀ h => ?_
      exact (listToSql_paired d rest).bind fun texts texts₀ hrest => .ok (.cons h hrest)

theorem optionToSql_paired (d : Dialect) : ∀ o : Option Expr,
    Paired OptionTwin (Expr.optionToSql d identifier o)
      (Expr.optionToSql d identifier (Expr.emptiedOption o)) (Expr.stringsOf (Expr.subtermsOfOption o))
  | none => by
      rw [Expr.emptiedOption, Expr.optionToSql]
      exact .ok .none
  | some e => by
      rw [Expr.emptiedOption, Expr.optionToSql, Expr.optionToSql, Expr.subtermsOfOption]
      exact (toSql_paired d e).bind fun text text₀ h => .ok (.some h)

theorem argumentToSql_paired (d : Dialect) : ∀ o : Option Expr,
    Paired Twin (Expr.argumentToSql d identifier o)
      (Expr.argumentToSql d identifier (Expr.emptiedOption o))
      (Expr.stringsOf (Expr.subtermsOfOption o))
  | none => by
      rw [Expr.emptiedOption, Expr.argumentToSql]
      exact .ok (.plain "*" (by decide))
  | some e => by
      rw [Expr.emptiedOption, Expr.argumentToSql, Expr.argumentToSql, Expr.subtermsOfOption]
      exact toSql_paired d e

theorem branchesToSql_paired (d : Dialect) : ∀ branches : List (Expr × Expr),
    Paired (fun texts texts₀ => Tail (String.join texts) (String.join texts₀))
      (Expr.branchesToSql d identifier branches)
      (Expr.branchesToSql d identifier (Expr.emptiedBranches branches))
      (Expr.stringsOf (Expr.subtermsOfBranches branches))
  | [] => by
      rw [Expr.emptiedBranches, Expr.branchesToSql]
      exact .ok (.fixed "" (by decide))
  | (whenExpr, thenExpr) :: rest => by
      rw [Expr.emptiedBranches, Expr.branchesToSql, Expr.branchesToSql, Expr.subtermsOfBranches,
        Expr.stringsOf_append, Expr.stringsOf_append]
      refine (toSql_paired d whenExpr).bind fun condition condition₀ hcondition => ?_
      refine (toSql_paired d thenExpr).bind fun result result₀ hresult => ?_
      refine (branchesToSql_paired d rest).bind fun texts texts₀ hrest => .ok ?_
      have hbranch := hcondition.append (hresult.joint " THEN " (by decide))
      have hbranches := (hbranch.joint " WHEN " (by decide)).append hrest
      simpa only [String.join_cons, String.append_assoc] using hbranches

theorem keysToSql_paired (d : Dialect) : ∀ keys : List (OrderKey Expr),
    Paired Twins (Expr.keysToSql d identifier keys)
      (Expr.keysToSql d identifier (Expr.emptiedKeys keys))
      (Expr.stringsOf (Expr.subtermsOfKeys keys))
  | [] => by
      rw [Expr.emptiedKeys, Expr.keysToSql]
      exact .ok .nil
  | ⟨e, descending⟩ :: rest => by
      rw [Expr.emptiedKeys, Expr.keysToSql, Expr.keysToSql, Expr.subtermsOfKeys, Expr.stringsOf_append]
      refine (toSql_paired d e).bind fun text text₀ h => ?_
      refine (keysToSql_paired d rest).bind fun texts texts₀ hrest => .ok ?_
      have hend : isEnd (if descending then " DESC" else " ASC") = true := by
        cases descending <;> decide
      exact .cons (h.closed _ hend) hrest

theorem functionToSql_paired (d : Dialect) : ∀ func : WindowFunction Expr,
    Paired Twin (Expr.functionToSql d identifier func)
      (Expr.functionToSql d identifier (Expr.emptiedFunction func))
      (Expr.stringsOf (Expr.subtermsOfFunction func))
  | .rowNumber => by
      rw [Expr.emptiedFunction, Expr.functionToSql]
      exact .ok (.plain "ROW_NUMBER()" (by decide))
  | .rank => by
      rw [Expr.emptiedFunction, Expr.functionToSql]
      exact .ok (.plain "RANK()" (by decide))
  | .denseRank => by
      rw [Expr.emptiedFunction, Expr.functionToSql]
      exact .ok (.plain "DENSE_RANK()" (by decide))
  | .aggregate f arg => by
      rw [Expr.emptiedFunction, Expr.functionToSql, Expr.functionToSql, Expr.subtermsOfFunction]
      exact (argumentToSql_paired d arg).bind fun inner inner₀ h => .ok (h.aggregateCall f)

theorem specToSql_paired (d : Dialect) : ∀ spec : WindowSpec Expr,
    Paired Twin (Expr.specToSql d identifier spec)
      (Expr.specToSql d identifier (Expr.emptiedSpec spec))
      (Expr.stringsOf (Expr.subtermsOfSpec spec))
  | ⟨func, partitionBy, orderBy⟩ => by
      rw [Expr.emptiedSpec, Expr.specToSql, Expr.specToSql, Expr.subtermsOfSpec,
        Expr.stringsOf_append, Expr.stringsOf_append]
      refine (functionToSql_paired d func).bind fun head head₀ hhead => ?_
      refine (listToSql_paired d partitionBy).bind fun partitions partitions₀ hpartitions => ?_
      refine (keysToSql_paired d orderBy).bind fun keys keys₀ hkeys => .ok ?_
      have hclauses := (hpartitions.clause "PARTITION BY " (by decide)).append
        (hkeys.clause "ORDER BY " (by decide))
      have hwindow := (hclauses.intercalate " " (by decide)).closed ")" (by decide)
      simpa only [String.append_assoc, List.append_assoc] using
        hhead.append (hwindow.joint " OVER (" (by decide))

end

end RowPipeline
