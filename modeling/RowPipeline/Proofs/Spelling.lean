import RowPipeline.Proofs.GrammarCompleteness
import RowPipeline.Proofs.Leaves

/-!
# Spelling expressions

An expression is spelled as tokens, with parentheses where a style asks for them. If an operand without
parentheses has the level that its place requires, the spelled tokens make up the expression again, with
the same slots.
-/

namespace RowPipeline

open Grammar

/-! ## Levels of expressions -/

namespace BinaryOp

def level : BinaryOp → Level
  | .or => .or
  | .and => .and
  | .eq | .notEq | .lt | .ltEq | .gt | .gtEq => .comparison
  | .add | .sub => .additive
  | .mul | .div | .mod => .multiplicative

def token : BinaryOp → Token
  | .or => .ident "OR"
  | .and => .ident "AND"
  | .eq => .eq
  | .notEq => .notEq
  | .lt => .lt
  | .ltEq => .ltEq
  | .gt => .gt
  | .gtEq => .gtEq
  | .add => .plus
  | .sub => .minus
  | .mul => .star
  | .div => .slash
  | .mod => .percent

theorem joins_token (op : BinaryOp) : op.level.joins op.token = some op := by
  cases op <;> rfl

end BinaryOp

namespace Expr

/-- The level of an expression without parentheses around it. A number below zero has the level of
its sign. -/
def level : Expr → Level
  | .binary op _ _ => op.level
  | .unary .not _ => .not
  | .unary .neg _ => .unary
  | .inList .. | .between .. | .like .. | .isNull .. => .comparison
  | .literal (.int i) => if i < 0 then .unary else .primary
  | _ => .primary

end Expr

/-- Where an expression stands in another one: between delimiters, beside an operator, behind a sign or
NOT, before a predicate, or in another place that takes no comparison (the bounds of BETWEEN, a
pattern, a key of a window). -/
inductive Place where
  | whole
  | left (op : BinaryOp)
  | right (op : BinaryOp)
  | operand (op : UnaryOp)
  | subject
  | bound
deriving DecidableEq

/-- The level that a place requires. Operators associate to the left. -/
def Place.level : Place → Level
  | .whole => .or
  | .left op => op.level
  | .right op => op.level.next
  | .operand .neg => .unary
  | .operand .not => .not
  | .subject => .comparison
  | .bound => .additive

/-- The operands whose places require more than a whole expression. -/
def Expr.operands : Expr → List (Place × Expr)
  | .unary op e => [(.operand op, e)]
  | .binary op l r => [(.left op, l), (.right op, r)]
  | .window _ ⟨_, partitionBy, orderBy⟩ =>
      partitionBy.map (.bound, ·) ++ orderBy.map fun key => (.bound, key.expr)
  | .inList e _ _ | .isNull e _ => [(.subject, e)]
  | .between e low high _ => [(.subject, e), (.bound, low), (.bound, high)]
  | .like e pattern _ => [(.subject, e), (.bound, pattern)]
  | _ => []

/-- How many pairs of parentheses stand around an expression in a place, and how a field is written. -/
structure Style where
  pairs : Place → Expr → Nat
  column : String → Token

/-! ## Tokens of expressions -/

namespace Spelling

/-- Some pairs of parentheses around tokens. -/
def enclose : Nat → List Token → List Token
  | 0, ts => ts
  | n + 1, ts => .lparen :: (enclose n ts ++ [.rparen])

def separated (items : List (List Token)) : List Token := [Token.comma].intercalate items

/-- A list behind a keyword and BY; an empty one is left out with its keyword. -/
def clause (word : String) (items : List (List Token)) : List Token :=
  if items.isEmpty then [] else .ident word :: .ident "BY" :: separated items

def negation (negated : Bool) : List Token := if negated then [.ident "NOT"] else []

/-- An aggregate of an argument. -/
def aggregateCall (func : AggregateFunction) (inner : List Token) : List Token :=
  .ident func.sqlName :: .lparen ::
    ((if func = .countDistinct then [.ident "DISTINCT"] else []) ++ (inner ++ [.rparen]))

end Spelling

open Spelling

namespace Expr

mutual

/-- The tokens of an expression in a style. -/
def spell (style : Style) : Expr → List Token
  | .literal v => v.literalTokens
  | .field name => [style.column name]
  | .param name => [.param name]
  | .unary .neg e => .minus :: enclose (style.pairs (.operand .neg) e) (e.spell style)
  | .unary .not e => .ident "NOT" :: enclose (style.pairs (.operand .not) e) (e.spell style)
  | .binary op l r =>
      enclose (style.pairs (.left op) l) (l.spell style) ++
        op.token :: enclose (style.pairs (.right op) r) (r.spell style)
  | .call f args => .ident f.name :: .lparen :: (separated (spellEach style .whole args) ++ [.rparen])
  | .aggregate f arg => aggregateCall f (spellArgument style arg)
  | .window _ spec => spellSpec style spec
  | .case operand branches otherwise =>
      .ident "CASE" :: (spellOption style [] operand ++ (spellBranches style branches ++
        (spellOption style [.ident "ELSE"] otherwise ++ [.ident "END"])))
  | .inList e list negated =>
      enclose (style.pairs .subject e) (e.spell style) ++ (Spelling.negation negated ++
        .ident "IN" :: .lparen :: (separated (spellEach style .whole list) ++ [.rparen]))
  | .between e low high negated =>
      enclose (style.pairs .subject e) (e.spell style) ++ (Spelling.negation negated ++
        .ident "BETWEEN" :: (enclose (style.pairs .bound low) (low.spell style) ++
          .ident "AND" :: enclose (style.pairs .bound high) (high.spell style)))
  | .like e pattern negated =>
      enclose (style.pairs .subject e) (e.spell style) ++ (Spelling.negation negated ++
        .ident "LIKE" :: enclose (style.pairs .bound pattern) (pattern.spell style))
  | .isNull e negated =>
      enclose (style.pairs .subject e) (e.spell style) ++
        .ident "IS" :: (Spelling.negation negated ++ [.ident "NULL"])

/-- The tokens of each expression of a list. -/
def spellEach (style : Style) (place : Place) : List Expr → List (List Token)
  | [] => []
  | e :: rest => enclose (style.pairs place e) (e.spell style) :: spellEach style place rest

def spellOption (style : Style) (lead : List Token) : Option Expr → List Token
  | none => []
  | some e => lead ++ enclose (style.pairs .whole e) (e.spell style)

def spellArgument (style : Style) : Option Expr → List Token
  | none => [.star]
  | some e => enclose (style.pairs .whole e) (e.spell style)

def spellBranches (style : Style) : List (Expr × Expr) → List Token
  | [] => []
  | (whenExpr, thenExpr) :: rest =>
      .ident "WHEN" :: (enclose (style.pairs .whole whenExpr) (whenExpr.spell style) ++
        .ident "THEN" :: (enclose (style.pairs .whole thenExpr) (thenExpr.spell style) ++
          spellBranches style rest))

def spellKeys (style : Style) : List (OrderKey Expr) → List (List Token)
  | [] => []
  | ⟨e, descending⟩ :: rest =>
      (enclose (style.pairs .bound e) (e.spell style) ++
        [.ident (if descending then "DESC" else "ASC")]) :: spellKeys style rest

def spellFunction (style : Style) : WindowFunction Expr → List Token
  | .rowNumber => [.ident "ROW_NUMBER", .lparen, .rparen]
  | .rank => [.ident "RANK", .lparen, .rparen]
  | .denseRank => [.ident "DENSE_RANK", .lparen, .rparen]
  | .aggregate f arg => aggregateCall f (spellArgument style arg)

def spellSpec (style : Style) : WindowSpec Expr → List Token
  | ⟨func, partitionBy, orderBy⟩ =>
      spellFunction style func ++ .ident "OVER" :: .lparen ::
        (Spelling.clause "PARTITION" (spellEach style .bound partitionBy) ++
          (Spelling.clause "ORDER" (spellKeys style orderBy) ++ [.rparen]))

end

/-- The tokens of an expression as a text of its own, with its parentheses. -/
def spellWhole (style : Style) (e : Expr) : List Token :=
  enclose (style.pairs .whole e) (e.spell style)

end Expr

/-! ## When a style suits an expression -/

/-- Whether an operand has the level that its place requires, or parentheses. -/
def Style.Fits (style : Style) (place : Place) (e : Expr) : Prop :=
  style.pairs place e = 0 → place.level.rank ≤ e.level.rank

/-- What a style has to do for one expression: its operands fit their places, and a field is a token
that is read as this field, also behind the parenthesis of an aggregate. Doubles are left aside. -/
structure Style.Suits (style : Style) (e : Expr) : Prop where
  operands : ∀ o ∈ e.operands, style.Fits o.1 o.2
  column : ∀ name, e = .field name →
    atom? (style.column name) = some e ∧ (style.column name).isKeyword "DISTINCT" = false
  double : ∀ x, e ≠ .literal (.float x)

variable {style : Style} {s s' : Nat} {ts us : List Token} {e : Expr} {es : List Expr} {ℓ : Level}
  {place : Place} {negated : Bool}

theorem fits_whole (style : Style) (e : Expr) : style.Fits .whole e := by
  intro _
  cases e.level <;> decide

/-! ## Spelled tokens -/

theorem separated_cons (ts us : List Token) (rest : List (List Token)) :
    separated (ts :: us :: rest) = ts ++ .comma :: separated (us :: rest) := by
  rw [separated, List.intercalate_cons_cons, List.append_assoc, List.singleton_append, separated]

theorem derives_enclose (h : Derives s ts (.expr ℓ e) s') (n : Nat) {k : Level}
    (hfits : n = 0 → k.rank ≤ ℓ.rank) : Derives s (enclose n ts) (.expr k e) s' := by
  induction n generalizing k with
  | zero => exact h.loosen (hfits rfl)
  | succ n ih =>
      have hinner : Derives s (enclose n ts) (.expr .or e) s' := ih fun _ => by
        cases ℓ <;> decide
      exact (Derives.paren hinner).loosen (Level.rank_le k)

theorem derives_place (h : Derives s (e.spell style) (.expr e.level e) s')
    (hfits : style.Fits place e) :
    Derives s (enclose (style.pairs place e) (e.spell style)) (.expr place.level e) s' :=
  derives_enclose h _ hfits

theorem negates_negation (negated : Bool) : Negates negated (Spelling.negation negated) := by
  cases negated with
  | false => exact .no
  | true => exact .yes rfl

/-- What holds of a literal that is derived: it takes no slot, and it is no list and no object. -/
def Grammar.Phrase.Constant : Phrase → Nat → Nat → Prop
  | .expr _ (.literal (.array _)), _, _ | .expr _ (.literal (.object _)), _, _ => False
  | .expr _ (.literal _), s, s' => s' = s
  | _, _, _ => True

theorem Grammar.Derives.constant {p : Phrase} (h : Derives s ts p s') : p.Constant s s' := by
  induction h with
  | @atom s t e is =>
      cases t with
      | ident name =>
          rw [atom?] at is
          repeat' split at is
          all_goals first
            | (cases is; done)
            | (cases is; rfl)
            | (cases is; trivial)
      | integer i | float x | string x | param x | quotedIdent x =>
          cases is
          first | rfl | trivial
      | _ => cases is
  | @paren _ _ _ e _ ih | @plus _ _ _ e _ ih | @up _ _ _ _ e _ ih =>
      cases e with
      | literal v => cases v <;> exact ih
      | _ => trivial
  | @minus _ _ _ e _ ih =>
      cases e with
      | literal v => cases v <;> first | exact ih | exact ih.elim | trivial
      | _ => trivial
  | windowed _ _ _ _ window | ranking _ _ window =>
      -- a window takes a slot, but it is no literal
      cases window
      trivial
  | _ => trivial

/-- The tokens of a literal are derived, a number below zero as a sign before its size. -/
theorem derives_literal {v : Value} (h : Derives s ts (.expr ℓ (.literal v)) s')
    (hfloat : ∀ x, v ≠ .float x) :
    Derives s v.literalTokens (.expr (Expr.literal v).level (.literal v)) s' := by
  have hconstant := h.constant
  cases v with
  | null =>
      obtain rfl : s' = s := hconstant
      exact .atom rfl
  | bool b =>
      obtain rfl : s' = s := hconstant
      cases b <;> exact .atom rfl
  | int i =>
      obtain rfl : s' = s := hconstant
      rw [Value.literalTokens, Expr.level]
      split
      · have hminus := Derives.minus (.up (.atom (t := .integer (-i)) (s := s') rfl))
        rwa [Parser.negate, Int64.neg_neg] at hminus
      · exact .atom rfl
  | float x => exact absurd rfl (hfloat x)
  | string x =>
      obtain rfl : s' = s := hconstant
      exact .atom rfl
  | array items => exact hconstant.elim
  | object fields => exact hconstant.elim

/-! ## First tokens -/

section Heads

variable {P : Token → Prop}

theorem head_append (hts : ∀ t ∈ ts.head?, P t) (hus : ∀ t ∈ us.head?, P t) :
    ∀ t ∈ (ts ++ us).head?, P t := by
  cases ts with
  | nil => exact hus
  | cons t more => exact hts

theorem head_enclose (n : Nat) (hparen : P .lparen) (hts : ∀ t ∈ ts.head?, P t) :
    ∀ t ∈ (enclose n ts).head?, P t := by
  cases n with
  | zero => exact hts
  | succ n =>
      intro t ht
      obtain rfl : Token.lparen = t := Option.some.inj ht
      exact hparen

theorem head_cons {t : Token} (ht : P t) : ∀ u ∈ (t :: ts).head?, P u := by
  intro u hu
  obtain rfl : t = u := Option.some.inj hu
  exact ht

end Heads

/-- No spelled expression starts with DISTINCT, unless a field is written so. -/
theorem spell_begins (style : Style) : ∀ e : Expr,
    (∀ name, .field name ∈ e.subterms → (style.column name).isKeyword "DISTINCT" = false) →
      ∀ t ∈ (e.spell style).head?, t.isKeyword "DISTINCT" = false
  | .literal v, _ => by
      rw [Expr.spell]
      cases v with
      | bool b => cases b <;> exact head_cons rfl
      | int i =>
          rw [Value.literalTokens]
          split <;> exact head_cons rfl
      | float x =>
          rw [Value.literalTokens]
          split <;> exact head_cons rfl
      | null => exact head_cons rfl
      | string s => exact head_cons rfl
      | array items => simp [Value.literalTokens]
      | object fields => simp [Value.literalTokens]
  | .field name, h => by
      rw [Expr.spell]
      exact head_cons (h name (by simp [Expr.subterms]))
  | .param name, _ => by
      rw [Expr.spell]
      exact head_cons rfl
  | .unary .neg e, _ => by
      rw [Expr.spell]
      exact head_cons rfl
  | .unary .not e, _ => by
      rw [Expr.spell]
      exact head_cons rfl
  | .binary op l r, h => by
      rw [Expr.spell]
      have hleft := spell_begins style l fun name hname => h name (by simp [Expr.subterms, hname])
      refine head_append (head_enclose _ rfl hleft) (head_cons ?_)
      cases op <;> rfl
  | .call f args, _ => by
      rw [Expr.spell]
      cases f <;> exact head_cons rfl
  | .aggregate f arg, _ => by
      rw [Expr.spell, aggregateCall]
      cases f <;> exact head_cons rfl
  | .window slot ⟨func, partitionBy, orderBy⟩, _ => by
      rw [Expr.spell, Expr.spellSpec]
      refine head_append ?_ (head_cons rfl)
      cases func with
      | aggregate f arg =>
          rw [Expr.spellFunction, aggregateCall]
          cases f <;> exact head_cons rfl
      | _ =>
          rw [Expr.spellFunction]
          exact head_cons rfl
  | .case operand branches otherwise, _ => by
      rw [Expr.spell]
      exact head_cons rfl
  | .inList e _ negated, h | .between e _ _ negated, h | .like e _ negated, h => by
      rw [Expr.spell]
      have hsubject := spell_begins style e fun name hname => h name (by simp [Expr.subterms, hname])
      refine head_append (head_enclose _ rfl hsubject) ?_
      cases negated <;> exact head_cons rfl
  | .isNull e negated, h => by
      rw [Expr.spell]
      have hsubject := spell_begins style e fun name hname => h name (by simp [Expr.subterms, hname])
      exact head_append (head_enclose _ rfl hsubject) (head_cons rfl)

/-! ## Spelled phrases -/

theorem ofName?_name (f : ScalarFunction) :
    Parser.rankingOfName? (Text.asciiUpper f.name) = none ∧
      Parser.aggregateOfSqlName? (Text.asciiUpper f.name) = none ∧
      ScalarFunction.ofName? (Text.asciiUpper f.name) = some f := by
  cases f <;> exact ⟨rfl, rfl, rfl⟩

theorem rankingOfName?_sqlName (f : AggregateFunction) :
    Parser.rankingOfName? (Text.asciiUpper f.sqlName) = none := by
  cases f <;> rfl

/-- No name stands for counting distinct values; DISTINCT does. -/
theorem ne_countDistinct {func : AggregateFunction} {name : String}
    (hname : Parser.aggregateOfSqlName? name = some func) : func ≠ .countDistinct := by
  rintro rfl
  rw [Parser.aggregateOfSqlName?.eq_def] at hname
  split at hname <;> cases hname

/-- An aggregate goes by the name of the function that its argument was read for. -/
theorem aggregateOfSqlName?_sqlName {func found : AggregateFunction} {arg : Option Expr}
    (h : Derives s ts (.argument func found arg) s') (hfunc : func ≠ .countDistinct) :
    Parser.aggregateOfSqlName? (Text.asciiUpper found.sqlName) = some func := by
  cases h with
  | star => rfl
  | distinct => rfl
  | plain =>
      cases func with
      | countDistinct => exact absurd rfl hfunc
      | _ => rfl

/-- The tokens of a phrase in a style make up the phrase again, as long as the style suits all
expressions in it. -/
def Grammar.Phrase.Spelled (style : Style) : Phrase → Nat → Nat → Prop
  | .expr _ e, s, s' => (∀ sub ∈ e.subterms, style.Suits sub) →
      Derives s (e.spell style) (.expr e.level e) s'
  | .list es, s, s' => (∀ sub ∈ Expr.subtermsOfList es, style.Suits sub) →
      Derives s (separated (Expr.spellEach style .whole es) ++ [.rparen]) (.list es) s'
  | .items es, s, s' => (∀ sub ∈ Expr.subtermsOfList es, style.Suits sub) →
      Derives s (separated (Expr.spellEach style .whole es) ++ [.rparen]) (.items es) s'
  | .argument func found arg, s, s' => func ≠ .countDistinct →
      (∀ sub ∈ Expr.subtermsOfOption arg, style.Suits sub) →
      Derives s ((if found = .countDistinct then [.ident "DISTINCT"] else []) ++
        (Expr.spellArgument style arg ++ [.rparen])) (.argument func found arg) s'
  | .overWindow func e, s, s' => ∃ slot partitions keys, e = .window slot ⟨func, partitions, keys⟩ ∧
      ((∀ sub ∈ e.subterms, style.Suits sub) →
        Derives s (.lparen :: (Spelling.clause "PARTITION" (Expr.spellEach style .bound partitions) ++
          (Spelling.clause "ORDER" (Expr.spellKeys style keys) ++ [.rparen]))) (.overWindow func e) s')
  | .partitions es, s, s' => (∀ sub ∈ Expr.subtermsOfList es, style.Suits sub) →
      (∀ e ∈ es, style.Fits .bound e) →
      Derives s (separated (Expr.spellEach style .bound es)) (.partitions es) s'
  | .keys ks, s, s' => (∀ sub ∈ Expr.subtermsOfKeys ks, style.Suits sub) →
      (∀ k ∈ ks, style.Fits .bound k.expr) →
      Derives s (separated (Expr.spellKeys style ks)) (.keys ks) s'
  | .partitionClause es, s, s' => (∀ sub ∈ Expr.subtermsOfList es, style.Suits sub) →
      (∀ e ∈ es, style.Fits .bound e) →
      Derives s (Spelling.clause "PARTITION" (Expr.spellEach style .bound es)) (.partitionClause es) s'
  | .orderClause ks, s, s' => (∀ sub ∈ Expr.subtermsOfKeys ks, style.Suits sub) →
      (∀ k ∈ ks, style.Fits .bound k.expr) →
      Derives s (Spelling.clause "ORDER" (Expr.spellKeys style ks)) (.orderClause ks) s'
  | .operand o, s, s' => (∀ sub ∈ Expr.subtermsOfOption o, style.Suits sub) →
      Derives s (Expr.spellOption style [] o) (.operand o) s'
  | .branches bs, s, s' => (∀ sub ∈ Expr.subtermsOfBranches bs, style.Suits sub) →
      Derives s (Expr.spellBranches style bs) (.branches bs) s'
  | .otherwise o, s, s' => (∀ sub ∈ Expr.subtermsOfOption o, style.Suits sub) →
      Derives s (Expr.spellOption style [.ident "ELSE"] o) (.otherwise o) s'

section Phrases

variable {l r low high d : Expr} {s₁ s₂ : Nat} {ns : List Token} {t u : Token}

theorem spelled_atom {t : Token} (is : atom? t = some e) :
    (Phrase.expr .primary e).Spelled style s s := by
  intro hsuits
  have hself := hsuits e e.mem_subterms_self
  rcases atom?_eq_some is with ⟨v, rfl⟩ | ⟨name, rfl⟩ | ⟨name, rfl⟩
  · rw [Expr.spell]
    refine derives_literal (.atom is) fun x hx => ?_
    exact hself.double x (by rw [hx])
  · rw [Expr.spell]
    exact .atom (hself.column name rfl).1
  · rw [Expr.spell]
    exact .atom rfl

theorem spelled_negate (hd : Derives s ts (.expr .unary e) s')
    (ih : (Phrase.expr .unary e).Spelled style s s') :
    (Phrase.expr .unary (Parser.negate e)).Spelled style s s' := by
  intro hsuits
  by_cases hunary : Parser.negate e = .unary .neg e
  · rw [hunary] at hsuits ⊢
    have hself := hsuits _ (Expr.mem_subterms_self _)
    have hoperand := derives_place (ih fun sub hsub => hsuits sub (by simp [Expr.subterms, hsub]))
      (hself.operands (.operand .neg, e) (by simp [Expr.operands]))
    have hminus := Derives.minus hoperand
    rw [hunary] at hminus
    rw [Expr.spell]
    exact hminus
  · -- the sign of a number became part of it
    cases e with
    | literal v =>
        cases v with
        | int i => exact derives_literal (.minus hd) (by simp)
        | float x => exact absurd rfl ((hsuits _ (Expr.mem_subterms_self _)).double (-x))
        | _ => exact absurd rfl hunary
    | _ => exact absurd rfl hunary

theorem spelled_not (ih : (Phrase.expr .not e).Spelled style s s') :
    (Phrase.expr .not (.unary .not e)).Spelled style s s' := by
  intro hsuits
  have hself := hsuits _ (Expr.mem_subterms_self _)
  have hoperand := derives_place (ih fun sub hsub => hsuits sub (by simp [Expr.subterms, hsub]))
    (hself.operands (.operand .not, e) (by simp [Expr.operands]))
  rw [Expr.spell]
  exact .not rfl hoperand

theorem spelled_binary {op : BinaryOp} (ihl : (Phrase.expr ℓ l).Spelled style s s₁)
    (ihr : (Phrase.expr ℓ.next r).Spelled style s₁ s') :
    (Phrase.expr ℓ (.binary op l r)).Spelled style s s' := by
  intro hsuits
  have hself := hsuits _ (Expr.mem_subterms_self _)
  have hleft := derives_place (ihl fun sub hsub => hsuits sub (by simp [Expr.subterms, hsub]))
    (hself.operands (.left op, l) (by simp [Expr.operands]))
  have hright := derives_place (ihr fun sub hsub => hsuits sub (by simp [Expr.subterms, hsub]))
    (hself.operands (.right op, r) (by simp [Expr.operands]))
  rw [Expr.spell]
  exact .binary hleft op.joins_token hright

theorem spelled_subject (hself : style.Suits e) (hmem : (.subject, l) ∈ e.operands)
    (hsub : ∀ sub ∈ l.subterms, style.Suits sub)
    (ih : (Phrase.expr .comparison l).Spelled style s s') :
    Derives s (enclose (style.pairs .subject l) (l.spell style)) (.expr .comparison l) s' :=
  derives_place (ih hsub) (hself.operands (.subject, l) hmem)

theorem spelled_isNull (ih : (Phrase.expr .comparison l).Spelled style s s') :
    (Phrase.expr .comparison (.isNull l negated)).Spelled style s s' := by
  intro hsuits
  have hself := hsuits _ (Expr.mem_subterms_self _)
  have hsubject := spelled_subject hself (by simp [Expr.operands])
    (fun sub hsub => hsuits sub (by simp [Expr.subterms, hsub])) ih
  rw [Expr.spell]
  exact .isNull hsubject rfl (negates_negation negated) rfl

theorem spelled_inList (ihl : (Phrase.expr .comparison l).Spelled style s s₁)
    (ihes : (Phrase.list es).Spelled style s₁ s') :
    (Phrase.expr .comparison (.inList l es negated)).Spelled style s s' := by
  intro hsuits
  have hself := hsuits _ (Expr.mem_subterms_self _)
  have hsubject := spelled_subject hself (by simp [Expr.operands])
    (fun sub hsub => hsuits sub (by simp [Expr.subterms, hsub])) ihl
  have hlist := ihes fun sub hsub => hsuits sub (by simp [Expr.subterms, hsub])
  rw [Expr.spell]
  exact .inList hsubject (negates_negation negated) rfl hlist

theorem spelled_between (ihl : (Phrase.expr .comparison l).Spelled style s s₁)
    (ihlow : (Phrase.expr .additive low).Spelled style s₁ s₂)
    (ihhigh : (Phrase.expr .additive high).Spelled style s₂ s') :
    (Phrase.expr .comparison (.between l low high negated)).Spelled style s s' := by
  intro hsuits
  have hself := hsuits _ (Expr.mem_subterms_self _)
  have hsubject := spelled_subject hself (by simp [Expr.operands])
    (fun sub hsub => hsuits sub (by simp [Expr.subterms, hsub])) ihl
  have hlow := derives_place (ihlow fun sub hsub => hsuits sub (by simp [Expr.subterms, hsub]))
    (hself.operands (.bound, low) (by simp [Expr.operands]))
  have hhigh := derives_place (ihhigh fun sub hsub => hsuits sub (by simp [Expr.subterms, hsub]))
    (hself.operands (.bound, high) (by simp [Expr.operands]))
  rw [Expr.spell]
  exact .between hsubject (negates_negation negated) rfl hlow rfl hhigh

theorem spelled_like (ihl : (Phrase.expr .comparison l).Spelled style s s₁)
    (ihr : (Phrase.expr .additive r).Spelled style s₁ s') :
    (Phrase.expr .comparison (.like l r negated)).Spelled style s s' := by
  intro hsuits
  have hself := hsuits _ (Expr.mem_subterms_self _)
  have hsubject := spelled_subject hself (by simp [Expr.operands])
    (fun sub hsub => hsuits sub (by simp [Expr.subterms, hsub])) ihl
  have hpattern := derives_place (ihr fun sub hsub => hsuits sub (by simp [Expr.subterms, hsub]))
    (hself.operands (.bound, r) (by simp [Expr.operands]))
  rw [Expr.spell]
  exact .like hsubject (negates_negation negated) rfl hpattern

theorem derives_whole (h : Derives s (e.spell style) (.expr e.level e) s') :
    Derives s (enclose (style.pairs .whole e) (e.spell style)) (.expr .or e) s' :=
  derives_place h (fits_whole style e)

theorem spelled_itemsLast (ih : (Phrase.expr .or e).Spelled style s s') :
    (Phrase.items [e]).Spelled style s s' := by
  intro hsuits
  have hitem := derives_whole (ih fun sub hsub => hsuits sub (by simp [Expr.subtermsOfList, hsub]))
  rw [Expr.spellEach, Expr.spellEach, separated, List.intercalate_singleton]
  exact .itemsLast hitem

theorem spelled_itemsMore (hmore : Derives s₁ us (.items es) s')
    (ih : (Phrase.expr .or e).Spelled style s s₁) (ihes : (Phrase.items es).Spelled style s₁ s') :
    (Phrase.items (e :: es)).Spelled style s s' := by
  intro hsuits
  have hitem := derives_whole (ih fun sub hsub => hsuits sub (by simp [Expr.subtermsOfList, hsub]))
  have hrest := ihes fun sub hsub => hsuits sub (by simp [Expr.subtermsOfList, hsub])
  obtain ⟨e', es, rfl⟩ : ∃ e' es', es = e' :: es' := by cases hmore <;> exact ⟨_, _, rfl⟩
  rw [Expr.spellEach, Expr.spellEach, separated_cons, List.append_assoc, List.cons_append,
    ← Expr.spellEach]
  exact .itemsMore hitem hrest

theorem spelled_partitionsLast (ih : (Phrase.expr .additive e).Spelled style s s') :
    (Phrase.partitions [e]).Spelled style s s' := by
  intro hsuits hfits
  have hitem := derives_place
    (ih fun sub hsub => hsuits sub (by simp [Expr.subtermsOfList, hsub])) (hfits e (by simp))
  rw [Expr.spellEach, Expr.spellEach, separated, List.intercalate_singleton]
  exact .partitionsLast hitem

theorem spelled_partitionsMore (hmore : Derives s₁ us (.partitions es) s')
    (ih : (Phrase.expr .additive e).Spelled style s s₁)
    (ihes : (Phrase.partitions es).Spelled style s₁ s') :
    (Phrase.partitions (e :: es)).Spelled style s s' := by
  intro hsuits hfits
  have hitem := derives_place
    (ih fun sub hsub => hsuits sub (by simp [Expr.subtermsOfList, hsub])) (hfits e (by simp))
  have hrest := ihes (fun sub hsub => hsuits sub (by simp [Expr.subtermsOfList, hsub]))
    fun e' he' => hfits e' (List.mem_cons_of_mem _ he')
  obtain ⟨e', es, rfl⟩ : ∃ e' es', es = e' :: es' := by cases hmore <;> exact ⟨_, _, rfl⟩
  rw [Expr.spellEach, Expr.spellEach, separated_cons, ← Expr.spellEach]
  exact .partitionsMore hitem hrest

theorem directs_direction (descending : Bool) :
    Directs descending [.ident (if descending then "DESC" else "ASC")] := by
  cases descending with
  | false => exact .ascending rfl
  | true => exact .descending rfl

theorem spelled_keysLast {descending : Bool} (ih : (Phrase.expr .additive e).Spelled style s s') :
    (Phrase.keys [⟨e, descending⟩]).Spelled style s s' := by
  intro hsuits hfits
  have hitem := derives_place (ih fun sub hsub => hsuits sub (by simp [Expr.subtermsOfKeys, hsub]))
    (hfits ⟨e, descending⟩ List.mem_cons_self)
  rw [Expr.spellKeys, Expr.spellKeys, separated, List.intercalate_singleton]
  exact .keysLast hitem (directs_direction descending)

theorem spelled_keysMore {descending : Bool} {keys : List (OrderKey Expr)}
    (hmore : Derives s₁ us (.keys keys) s') (ih : (Phrase.expr .additive e).Spelled style s s₁)
    (ihkeys : (Phrase.keys keys).Spelled style s₁ s') :
    (Phrase.keys (⟨e, descending⟩ :: keys)).Spelled style s s' := by
  intro hsuits hfits
  have hitem := derives_place (ih fun sub hsub => hsuits sub (by simp [Expr.subtermsOfKeys, hsub]))
    (hfits ⟨e, descending⟩ List.mem_cons_self)
  have hrest := ihkeys (fun sub hsub => hsuits sub (by simp [Expr.subtermsOfKeys, hsub]))
    fun k hk => hfits k (List.mem_cons_of_mem _ hk)
  obtain ⟨⟨e', descending'⟩, keys, rfl⟩ : ∃ k ks, keys = k :: ks := by
    cases hmore <;> exact ⟨_, _, rfl⟩
  rw [Expr.spellKeys, Expr.spellKeys, separated_cons, List.append_assoc, ← Expr.spellKeys]
  exact .keysMore hitem (directs_direction descending) hrest

theorem spelled_over {func : WindowFunction Expr} {partitions : List Expr}
    {keys : List (OrderKey Expr)}
    (ihpartitions : (Phrase.partitionClause partitions).Spelled style s s₁)
    (ihkeys : (Phrase.orderClause keys).Spelled style s₁ s₂) :
    (Phrase.overWindow func (.window s₂ ⟨func, partitions, keys⟩)).Spelled style s (s₂ + 1) := by
  refine ⟨s₂, partitions, keys, rfl, fun hsuits => ?_⟩
  have hself := hsuits _ (Expr.mem_subterms_self _)
  refine .overWindow (ihpartitions (fun sub hsub => ?_) fun e he => ?_)
    (ihkeys (fun sub hsub => ?_) fun k hk => ?_)
  · exact hsuits sub (by simp [Expr.subterms, Expr.subtermsOfSpec, hsub])
  · exact hself.operands (.bound, e) (by simp [Expr.operands, he])
  · exact hsuits sub (by simp [Expr.subterms, Expr.subtermsOfSpec, hsub])
  · refine hself.operands (.bound, k.expr) (List.mem_append_right _ ?_)
    exact List.mem_map_of_mem hk

theorem spelled_aggregate {func found : AggregateFunction} {arg : Option Expr} {name : String}
    (hargument : Derives s ts (.argument func found arg) s')
    (hname : Parser.aggregateOfSqlName? name = some func)
    (ih : (Phrase.argument func found arg).Spelled style s s') :
    (Phrase.expr .primary (.aggregate found arg)).Spelled style s s' := by
  intro hsuits
  rw [Expr.spell, aggregateCall]
  have hfunc := ne_countDistinct hname
  exact .aggregate (rankingOfName?_sqlName found) (aggregateOfSqlName?_sqlName hargument hfunc)
    (ih hfunc fun sub hsub => hsuits sub (by simp [Expr.subterms, hsub]))

theorem spelled_windowed {func found : AggregateFunction} {arg : Option Expr} {name : String}
    (hargument : Derives s ts (.argument func found arg) s₁)
    (hname : Parser.aggregateOfSqlName? name = some func)
    (iharg : (Phrase.argument func found arg).Spelled style s s₁)
    (ihover : (Phrase.overWindow (.aggregate found arg) e).Spelled style s₁ s') :
    (Phrase.expr .primary e).Spelled style s s' := by
  intro hsuits
  obtain ⟨slot, partitions, keys, rfl, hover⟩ := ihover
  rw [Expr.spell, Expr.spellSpec, Expr.spellFunction, aggregateCall]
  have hfunc := ne_countDistinct hname
  refine .windowed (rankingOfName?_sqlName found) (aggregateOfSqlName?_sqlName hargument hfunc)
    (iharg hfunc fun sub hsub => hsuits sub ?_) rfl (hover hsuits)
  simp [Expr.subterms, Expr.subtermsOfSpec, Expr.subtermsOfFunction, hsub]

theorem spelled_ranking {func : WindowFunction Expr} {name : String}
    (hname : Parser.rankingOfName? name = some func)
    (ih : (Phrase.overWindow func e).Spelled style s s') :
    (Phrase.expr .primary e).Spelled style s s' := by
  intro hsuits
  obtain ⟨slot, partitions, keys, rfl, hover⟩ := ih
  rw [Expr.spell, Expr.spellSpec]
  rw [Parser.rankingOfName?.eq_def] at hname
  split at hname
  all_goals first
    | (cases hname; done)
    | (cases hname
       rw [Expr.spellFunction]
       exact .ranking rfl rfl (hover hsuits))

theorem spelled_plain {func : AggregateFunction}
    (ih : (Phrase.expr .or e).Spelled style s s') :
    (Phrase.argument func func (some e)).Spelled style s s' := by
  intro hfunc hsuits
  have hitem := derives_whole (ih hsuits)
  rw [if_neg hfunc, List.nil_append, Expr.spellArgument]
  -- a DISTINCT in front would make another aggregate of it
  refine .plain hitem (head_enclose _ rfl (spell_begins style e fun name hname => ?_))
  exact ((hsuits (.field name) (by simpa [Expr.subtermsOfOption] using hname)).column name rfl).2

theorem spelled_distinct (ih : (Phrase.expr .or e).Spelled style s s') :
    (Phrase.argument .count .countDistinct (some e)).Spelled style s s' := by
  intro _ hsuits
  have hitem := derives_whole (ih hsuits)
  rw [if_pos rfl, Expr.spellArgument]
  exact .distinct rfl hitem

theorem spelled_call {f : ScalarFunction} {args : List Expr}
    (haccepts : f.accepts args.length = true) (ih : (Phrase.list args).Spelled style s s') :
    (Phrase.expr .primary (.call f args)).Spelled style s s' := by
  intro hsuits
  have hargs := ih fun sub hsub => hsuits sub (by simp [Expr.subterms, hsub])
  obtain ⟨hranking, haggregate, hscalar⟩ := ofName?_name f
  rw [Expr.spell]
  exact .call hranking haggregate hscalar haccepts hargs

theorem spelled_partitionSome (hes : Derives s ts (.partitions es) s')
    (ih : (Phrase.partitions es).Spelled style s s') :
    (Phrase.partitionClause es).Spelled style s s' := by
  intro hsuits hfits
  obtain ⟨e, es, rfl⟩ : ∃ e' es', es = e' :: es' := by cases hes <;> exact ⟨_, _, rfl⟩
  exact .partitionSome rfl rfl (ih hsuits hfits)

theorem spelled_orderSome {keys : List (OrderKey Expr)} (hkeys : Derives s ts (.keys keys) s')
    (ih : (Phrase.keys keys).Spelled style s s') : (Phrase.orderClause keys).Spelled style s s' := by
  intro hsuits hfits
  obtain ⟨⟨e, descending⟩, keys, rfl⟩ : ∃ k ks, keys = k :: ks := by
    cases hkeys <;> exact ⟨_, _, rfl⟩
  exact .orderSome rfl rfl (ih hsuits hfits)

theorem spelled_branchesMore {branches : List (Expr × Expr)}
    (ihe : (Phrase.expr .or e).Spelled style s s₁) (ihd : (Phrase.expr .or d).Spelled style s₁ s₂)
    (ih : (Phrase.branches branches).Spelled style s₂ s') :
    (Phrase.branches ((e, d) :: branches)).Spelled style s s' := by
  intro hsuits
  have hwhen := derives_whole
    (ihe fun sub hsub => hsuits sub (by simp [Expr.subtermsOfBranches, hsub]))
  have hthen := derives_whole
    (ihd fun sub hsub => hsuits sub (by simp [Expr.subtermsOfBranches, hsub]))
  have hrest := ih fun sub hsub => hsuits sub (by simp [Expr.subtermsOfBranches, hsub])
  rw [Expr.spellBranches]
  exact .branchesMore rfl hwhen rfl hthen hrest

theorem spelled_operandSome (ih : (Phrase.expr .or e).Spelled style s s') :
    (Phrase.operand (some e)).Spelled style s s' := by
  intro hsuits
  have hitem := derives_whole (ih hsuits)
  rw [Expr.spellOption, List.nil_append]
  exact .operandSome hitem

theorem spelled_otherwiseSome (ih : (Phrase.expr .or e).Spelled style s s') :
    (Phrase.otherwise (some e)).Spelled style s s' := by
  intro hsuits
  have hitem := derives_whole (ih hsuits)
  rw [Expr.spellOption]
  exact .otherwiseSome rfl hitem

theorem spelled_case {operand otherwise : Option Expr} {branches : List (Expr × Expr)}
    (hnonempty : branches ≠ []) (ihoperand : (Phrase.operand operand).Spelled style s s₁)
    (ihbranches : (Phrase.branches branches).Spelled style s₁ s₂)
    (ihotherwise : (Phrase.otherwise otherwise).Spelled style s₂ s') :
    (Phrase.expr .primary (.case operand branches otherwise)).Spelled style s s' := by
  intro hsuits
  have hoperand := ihoperand fun sub hsub => hsuits sub (by simp [Expr.subterms, hsub])
  have hbranches := ihbranches fun sub hsub => hsuits sub (by simp [Expr.subterms, hsub])
  have hotherwise := ihotherwise fun sub hsub => hsuits sub (by simp [Expr.subterms, hsub])
  rw [Expr.spell]
  exact .case rfl hoperand hbranches hnonempty hotherwise rfl

end Phrases

/-- A derived phrase is derived from its spelled tokens as well, between the same slots. -/
theorem Grammar.Derives.spelled {p : Phrase} (h : Derives s ts p s') : p.Spelled style s s' := by
  -- parentheses, plus signs and levels leave no trace in an expression: the style adds its own
  induction h with
  | atom is => exact spelled_atom is
  | paren _ ih => exact ih
  | call _ _ _ accepts _ ih => exact spelled_call accepts ih
  | aggregate _ aggregate argument ih => exact spelled_aggregate argument aggregate ih
  | windowed _ aggregate argument _ _ iharg ihover =>
      exact spelled_windowed argument aggregate iharg ihover
  | ranking ranking _ _ ih => exact spelled_ranking ranking ih
  | case _ _ _ nonempty _ _ ihsubject ihbody ihlast =>
      exact spelled_case nonempty ihsubject ihbody ihlast
  | minus operand ih => exact spelled_negate operand ih
  | plus _ ih => exact ih
  | not _ _ ih => exact spelled_not ih
  | binary _ _ _ ihleft ihright => exact spelled_binary ihleft ihright
  | isNull _ _ _ _ ih => exact spelled_isNull ih
  | inList _ _ _ _ ihsubject ihitems => exact spelled_inList ihsubject ihitems
  | between _ _ _ _ _ _ ihsubject ihlower ihupper => exact spelled_between ihsubject ihlower ihupper
  | like _ _ _ _ ihsubject ihform => exact spelled_like ihsubject ihform
  | up _ ih => exact ih
  | listNone => exact fun _ => .listNone
  | listSome _ ih => exact fun hsuits => .listSome (ih hsuits)
  | itemsLast _ ih => exact spelled_itemsLast ih
  | itemsMore _ more ihitem ihmore => exact spelled_itemsMore more ihitem ihmore
  | star => exact fun _ _ => .star
  | plain _ _ ih => exact spelled_plain ih
  | distinct _ _ ih => exact spelled_distinct ih
  | overWindow _ _ ihpartition ihorder => exact spelled_over ihpartition ihorder
  | partitionNone => exact fun _ _ => .partitionNone
  | partitionSome _ _ list ih => exact spelled_partitionSome list ih
  | partitionsLast _ ih => exact spelled_partitionsLast ih
  | partitionsMore _ more ihitem ihmore => exact spelled_partitionsMore more ihitem ihmore
  | orderNone => exact fun _ _ => .orderNone
  | orderSome _ _ list ih => exact spelled_orderSome list ih
  | keysLast _ _ ih => exact spelled_keysLast ih
  | keysMore _ _ more ihitem ihmore => exact spelled_keysMore more ihitem ihmore
  | operandNone => exact fun _ => .operandNone
  | operandSome _ ih => exact spelled_operandSome ih
  | branchesNone => exact fun _ => .branchesNone
  | branchesMore _ _ _ _ _ ihcondition ihresult ihmore =>
      exact spelled_branchesMore ihcondition ihresult ihmore
  | otherwiseNone => exact fun _ => .otherwiseNone
  | otherwiseSome _ _ ih => exact spelled_otherwiseSome ih

end RowPipeline
