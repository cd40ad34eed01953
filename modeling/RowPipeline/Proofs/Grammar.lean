import RowPipeline.Proofs.Parsing

/-!
# The grammar of expressions

What the tokens of an expression are, without a parser. Every level has its own operators; an operand
on the left of one may be of the same level, an operand on the right is of the next level up. Windows
take their slots in the order in which they close, so every phrase has the slot before it and the slot
after it.
-/

namespace RowPipeline

namespace Grammar

/-- The levels, the loosest first. -/
inductive Level where
  | or
  | and
  | not
  | comparison
  | additive
  | multiplicative
  | unary
  | primary
deriving DecidableEq

namespace Level

def rank : Level → Nat
  | .or => 1
  | .and => 2
  | .not => 3
  | .comparison => 4
  | .additive => 5
  | .multiplicative => 6
  | .unary => 7
  | .primary => 8

/-- The level above, where the operand on the right of an operator stands. -/
def next : Level → Level
  | .or => .and
  | .and => .not
  | .not => .comparison
  | .comparison => .additive
  | .additive => .multiplicative
  | .multiplicative => .unary
  | .unary | .primary => .primary

/-- The operator that a token is between operands of a level. -/
def joins : Level → Token → Option BinaryOp
  | .or, t => if t.isOr then some .or else none
  | .and, t => if t.isAnd then some .and else none
  | .comparison, t => t.comparison?
  | .additive, t => t.additive?
  | .multiplicative, t => t.multiplicative?
  | .not, _ | .unary, _ | .primary, _ => none

theorem rank_le (ℓ : Level) : ℓ.rank ≤ Level.primary.rank := by
  cases ℓ <;> decide

theorem rank_next_le (ℓ : Level) : ℓ.rank ≤ ℓ.next.rank := by
  cases ℓ <;> decide

theorem rank_next {ℓ : Level} (h : ℓ ≠ .primary) : ℓ.next.rank = ℓ.rank + 1 := by
  cases ℓ <;> first | rfl | exact absurd rfl h

theorem rank_injective {ℓ ℓ' : Level} (h : ℓ.rank = ℓ'.rank) : ℓ = ℓ' := by
  cases ℓ <;> cases ℓ' <;> first | rfl | cases h

end Level

/-- Words that are no field: constants, CASE, and the reserved words. -/
def fixedWords : List String := ["NULL", "TRUE", "FALSE", "CASE"] ++ Parser.reservedWords

/-- The operand that a token is by itself. A word can also be the name of a function, which is told by
the parenthesis behind it. -/
def atom? : Token → Option Expr
  | .integer i => some (.literal (.int i))
  | .float x => some (.literal (.float x))
  | .string s => some (.literal (.string s))
  | .param name => some (.param name)
  | .quotedIdent name => some (.field name)
  | .ident name =>
      if Text.asciiUpper name = "NULL" then some (.literal .null)
      else if Text.asciiUpper name = "TRUE" then some (.literal (.bool true))
      else if Text.asciiUpper name = "FALSE" then some (.literal (.bool false))
      else if Text.asciiUpper name ∈ fixedWords then none
      else some (.field name)
  | _ => none

/-- A token by itself is a literal, a field or a parameter. -/
theorem atom?_eq_some {t : Token} {e : Expr} (h : atom? t = some e) :
    (∃ v, e = .literal v) ∨ (∃ name, e = .field name) ∨ ∃ name, e = .param name := by
  cases t with
  | ident name =>
      rw [atom?] at h
      repeat' split at h
      all_goals first
        | (cases h; done)
        | (cases h; simp)
  | integer i | float x | string x | param x | quotedIdent x =>
      cases h
      simp
  | _ => cases h

theorem atom?_ident {name : String} (h : Text.asciiUpper name ∉ fixedWords) :
    atom? (.ident name) = some (.field name) := by
  have hother {word : String} (hword : word ∈ fixedWords) : Text.asciiUpper name ≠ word := by
    rintro rfl
    exact h hword
  rw [atom?, if_neg (hother (by decide)), if_neg (hother (by decide)), if_neg (hother (by decide)),
    if_neg h]

/-- NOT before a predicate, or nothing. -/
inductive Negates : Bool → List Token → Prop
  | no : Negates false []
  | yes {t : Token} (word : t.isKeyword "NOT" = true) : Negates true [t]

/-- The direction of an order key; ascending may be left out. -/
inductive Directs : Bool → List Token → Prop
  | implied : Directs false []
  | ascending {t : Token} (word : t.isKeyword "ASC" = true) : Directs false [t]
  | descending {t : Token} (word : t.isKeyword "DESC" = true) : Directs true [t]

/-- What some tokens stand for. A list, the items of one and an argument end in their closing
parenthesis. -/
inductive Phrase where
  | expr (level : Level) (e : Expr)
  | list (es : List Expr)
  | items (es : List Expr)
  /-- The argument of an aggregate called by the name of `func`, and what DISTINCT makes of it. -/
  | argument (func found : AggregateFunction) (arg : Option Expr)
  /-- The window behind OVER. -/
  | overWindow (func : WindowFunction Expr) (e : Expr)
  | partitions (es : List Expr)
  | keys (keys : List (OrderKey Expr))
  | partitionClause (es : List Expr)
  | orderClause (keys : List (OrderKey Expr))
  | operand (e : Option Expr)
  | branches (branches : List (Expr × Expr))
  | otherwise (e : Option Expr)

/-- Which tokens make up a phrase, between the slot before it and the slot after it. -/
inductive Derives : Nat → List Token → Phrase → Nat → Prop
  | atom {s : Nat} {t : Token} {e : Expr} (is : atom? t = some e) :
      Derives s [t] (.expr .primary e) s
  | paren {s s' : Nat} {ts : List Token} {e : Expr} (inner : Derives s ts (.expr .or e) s') :
      Derives s (.lparen :: (ts ++ [.rparen])) (.expr .primary e) s'
  | call {s s' : Nat} {name : String} {func : ScalarFunction} {ts : List Token} {args : List Expr}
      (ranking : Parser.rankingOfName? (Text.asciiUpper name) = none)
      (aggregate : Parser.aggregateOfSqlName? (Text.asciiUpper name) = none)
      (scalar : ScalarFunction.ofName? (Text.asciiUpper name) = some func)
      (accepts : func.accepts args.length = true) (list : Derives s ts (.list args) s') :
      Derives s (.ident name :: .lparen :: ts) (.expr .primary (.call func args)) s'
  | aggregate {s s' : Nat} {name : String} {func found : AggregateFunction} {ts : List Token}
      {arg : Option Expr} (ranking : Parser.rankingOfName? (Text.asciiUpper name) = none)
      (aggregate : Parser.aggregateOfSqlName? (Text.asciiUpper name) = some func)
      (argument : Derives s ts (.argument func found arg) s') :
      Derives s (.ident name :: .lparen :: ts) (.expr .primary (.aggregate found arg)) s'
  | windowed {s s₁ s' : Nat} {name : String} {func found : AggregateFunction} {ts us : List Token}
      {t : Token} {arg : Option Expr} {e : Expr}
      (ranking : Parser.rankingOfName? (Text.asciiUpper name) = none)
      (aggregate : Parser.aggregateOfSqlName? (Text.asciiUpper name) = some func)
      (argument : Derives s ts (.argument func found arg) s₁) (word : t.isKeyword "OVER" = true)
      (window : Derives s₁ us (.overWindow (.aggregate found arg) e) s') :
      Derives s (.ident name :: .lparen :: (ts ++ t :: us)) (.expr .primary e) s'
  | ranking {s s' : Nat} {name : String} {func : WindowFunction Expr} {us : List Token} {t : Token}
      {e : Expr} (ranking : Parser.rankingOfName? (Text.asciiUpper name) = some func)
      (word : t.isKeyword "OVER" = true) (window : Derives s us (.overWindow func e) s') :
      Derives s (.ident name :: .lparen :: .rparen :: t :: us) (.expr .primary e) s'
  | case {s s₁ s₂ s' : Nat} {name : String} {os bs es : List Token} {t : Token}
      {operand otherwise : Option Expr} {branches : List (Expr × Expr)}
      (word : Text.asciiUpper name = "CASE") (subject : Derives s os (.operand operand) s₁)
      (body : Derives s₁ bs (.branches branches) s₂) (nonempty : branches ≠ [])
      (last : Derives s₂ es (.otherwise otherwise) s') (close : t.isKeyword "END" = true) :
      Derives s (.ident name :: (os ++ (bs ++ (es ++ [t]))))
        (.expr .primary (.case operand branches otherwise)) s'
  | minus {s s' : Nat} {ts : List Token} {e : Expr} (operand : Derives s ts (.expr .unary e) s') :
      Derives s (.minus :: ts) (.expr .unary (Parser.negate e)) s'
  | plus {s s' : Nat} {ts : List Token} {e : Expr} (operand : Derives s ts (.expr .unary e) s') :
      Derives s (.plus :: ts) (.expr .unary e) s'
  | not {s s' : Nat} {ts : List Token} {t : Token} {e : Expr} (word : t.isNot = true)
      (operand : Derives s ts (.expr .not e) s') :
      Derives s (t :: ts) (.expr .not (.unary .not e)) s'
  | binary {s s₁ s' : Nat} {ls rs : List Token} {t : Token} {ℓ : Level} {op : BinaryOp}
      {l r : Expr} (left : Derives s ls (.expr ℓ l) s₁) (joins : ℓ.joins t = some op)
      (right : Derives s₁ rs (.expr ℓ.next r) s') :
      Derives s (ls ++ t :: rs) (.expr ℓ (.binary op l r)) s'
  | isNull {s s' : Nat} {ls ns : List Token} {t u : Token} {e : Expr} {negated : Bool}
      (subject : Derives s ls (.expr .comparison e) s') (word : t.isKeyword "IS" = true)
      (negates : Negates negated ns) (null : u.isKeyword "NULL" = true) :
      Derives s (ls ++ t :: (ns ++ [u])) (.expr .comparison (.isNull e negated)) s'
  | inList {s s₁ s' : Nat} {ls ns ts : List Token} {t : Token} {e : Expr} {list : List Expr}
      {negated : Bool} (subject : Derives s ls (.expr .comparison e) s₁)
      (negates : Negates negated ns) (word : t.isKeyword "IN" = true)
      (items : Derives s₁ ts (.list list) s') :
      Derives s (ls ++ (ns ++ t :: .lparen :: ts)) (.expr .comparison (.inList e list negated)) s'
  | between {s s₁ s₂ s' : Nat} {ls ns as bs : List Token} {t u : Token} {e low high : Expr}
      {negated : Bool} (subject : Derives s ls (.expr .comparison e) s₁)
      (negates : Negates negated ns) (word : t.isKeyword "BETWEEN" = true)
      (lower : Derives s₁ as (.expr .additive low) s₂) (and : u.isKeyword "AND" = true)
      (upper : Derives s₂ bs (.expr .additive high) s') :
      Derives s (ls ++ (ns ++ t :: (as ++ u :: bs)))
        (.expr .comparison (.between e low high negated)) s'
  | like {s s₁ s' : Nat} {ls ns ps : List Token} {t : Token} {e pattern : Expr} {negated : Bool}
      (subject : Derives s ls (.expr .comparison e) s₁) (negates : Negates negated ns)
      (word : t.isKeyword "LIKE" = true) (form : Derives s₁ ps (.expr .additive pattern) s') :
      Derives s (ls ++ (ns ++ t :: ps)) (.expr .comparison (.like e pattern negated)) s'
  /-- What stands at a level stands at the looser one as well. -/
  | up {s s' : Nat} {ts : List Token} {ℓ : Level} {e : Expr}
      (tighter : Derives s ts (.expr ℓ.next e) s') : Derives s ts (.expr ℓ e) s'
  | listNone {s : Nat} : Derives s [.rparen] (.list []) s
  | listSome {s s' : Nat} {ts : List Token} {es : List Expr} (items : Derives s ts (.items es) s') :
      Derives s ts (.list es) s'
  | itemsLast {s s' : Nat} {ts : List Token} {e : Expr} (item : Derives s ts (.expr .or e) s') :
      Derives s (ts ++ [.rparen]) (.items [e]) s'
  | itemsMore {s s₁ s' : Nat} {ts us : List Token} {e : Expr} {es : List Expr}
      (item : Derives s ts (.expr .or e) s₁) (more : Derives s₁ us (.items es) s') :
      Derives s (ts ++ .comma :: us) (.items (e :: es)) s'
  | star {s : Nat} : Derives s [.star, .rparen] (.argument .count .count none) s
  | plain {s s' : Nat} {ts : List Token} {func : AggregateFunction} {e : Expr}
      (item : Derives s ts (.expr .or e) s')
      (other : ∀ t ∈ ts.head?, t.isKeyword "DISTINCT" = false) :
      Derives s (ts ++ [.rparen]) (.argument func func (some e)) s'
  | distinct {s s' : Nat} {ts : List Token} {t : Token} {e : Expr}
      (word : t.isKeyword "DISTINCT" = true) (item : Derives s ts (.expr .or e) s') :
      Derives s (t :: (ts ++ [.rparen])) (.argument .count .countDistinct (some e)) s'
  | overWindow {s s₁ s₂ : Nat} {ps os : List Token} {func : WindowFunction Expr}
      {partitions : List Expr} {keys : List (OrderKey Expr)}
      (partitionBy : Derives s ps (.partitionClause partitions) s₁)
      (orderBy : Derives s₁ os (.orderClause keys) s₂) :
      Derives s (.lparen :: (ps ++ (os ++ [.rparen])))
        (.overWindow func (.window s₂ ⟨func, partitions, keys⟩)) (s₂ + 1)
  | partitionNone {s : Nat} : Derives s [] (.partitionClause []) s
  | partitionSome {s s' : Nat} {ts : List Token} {t u : Token} {es : List Expr}
      (word : t.isKeyword "PARTITION" = true) (by_ : u.isKeyword "BY" = true)
      (list : Derives s ts (.partitions es) s') :
      Derives s (t :: u :: ts) (.partitionClause es) s'
  | partitionsLast {s s' : Nat} {ts : List Token} {e : Expr}
      (item : Derives s ts (.expr .additive e) s') : Derives s ts (.partitions [e]) s'
  | partitionsMore {s s₁ s' : Nat} {ts us : List Token} {e : Expr} {es : List Expr}
      (item : Derives s ts (.expr .additive e) s₁) (more : Derives s₁ us (.partitions es) s') :
      Derives s (ts ++ .comma :: us) (.partitions (e :: es)) s'
  | orderNone {s : Nat} : Derives s [] (.orderClause []) s
  | orderSome {s s' : Nat} {ts : List Token} {t u : Token} {keys : List (OrderKey Expr)}
      (word : t.isKeyword "ORDER" = true) (by_ : u.isKeyword "BY" = true)
      (list : Derives s ts (.keys keys) s') : Derives s (t :: u :: ts) (.orderClause keys) s'
  | keysLast {s s' : Nat} {ts ds : List Token} {e : Expr} {descending : Bool}
      (item : Derives s ts (.expr .additive e) s') (directs : Directs descending ds) :
      Derives s (ts ++ ds) (.keys [⟨e, descending⟩]) s'
  | keysMore {s s₁ s' : Nat} {ts ds us : List Token} {e : Expr} {descending : Bool}
      {keys : List (OrderKey Expr)} (item : Derives s ts (.expr .additive e) s₁)
      (directs : Directs descending ds) (more : Derives s₁ us (.keys keys) s') :
      Derives s (ts ++ (ds ++ .comma :: us)) (.keys (⟨e, descending⟩ :: keys)) s'
  | operandNone {s : Nat} : Derives s [] (.operand none) s
  | operandSome {s s' : Nat} {ts : List Token} {e : Expr} (item : Derives s ts (.expr .or e) s') :
      Derives s ts (.operand (some e)) s'
  | branchesNone {s : Nat} : Derives s [] (.branches []) s
  | branchesMore {s s₁ s₂ s' : Nat} {cs rs us : List Token} {t u : Token} {e d : Expr}
      {branches : List (Expr × Expr)} (when_ : t.isKeyword "WHEN" = true)
      (condition : Derives s cs (.expr .or e) s₁) (then_ : u.isKeyword "THEN" = true)
      (result : Derives s₁ rs (.expr .or d) s₂) (more : Derives s₂ us (.branches branches) s') :
      Derives s (t :: (cs ++ u :: (rs ++ us))) (.branches ((e, d) :: branches)) s'
  | otherwiseNone {s : Nat} : Derives s [] (.otherwise none) s
  | otherwiseSome {s s' : Nat} {ts : List Token} {t : Token} {e : Expr}
      (word : t.isKeyword "ELSE" = true) (item : Derives s ts (.expr .or e) s') :
      Derives s (t :: ts) (.otherwise (some e)) s'

variable {s s' : Nat} {ts : List Token} {t : Token} {e : Expr} {ℓ ℓ' : Level} {p : Phrase}
  {word other name : String}

/-- What stands at a level stands at every looser one. -/
theorem Derives.loosen (h : Derives s ts (.expr ℓ e) s') (hle : ℓ'.rank ≤ ℓ.rank) :
    Derives s ts (.expr ℓ' e) s' := by
  induction hgap : ℓ.rank - ℓ'.rank generalizing ℓ' with
  | zero =>
      obtain rfl : ℓ' = ℓ := Level.rank_injective (by omega)
      exact h
  | succ gap ih =>
      have hnext : ℓ'.next.rank = ℓ'.rank + 1 := by
        refine Level.rank_next fun hlast => ?_
        have hmost := Level.rank_le ℓ
        rw [hlast] at hgap
        omega
      exact .up (ih (by omega) (by omega))

/-! ## Words -/

/-- A word that is one keyword is no other. -/
theorem isKeyword_congr (h : t.isKeyword word = true) :
    t.isKeyword other = Text.sameIgnoringCase word other := by
  cases t with
  | ident name =>
      have hsame : name.toList.map Char.toLower = word.toList.map Char.toLower := by
        simpa [Token.isKeyword, Text.sameIgnoringCase] using h
      simp only [Token.isKeyword, Text.sameIgnoringCase, hsame]
  | _ => cases h

theorem toUpper_toLower (c : Char) : c.toLower.toUpper = c.toUpper := by
  by_cases h : c.val ≥ 'A'.val ∧ c.val ≤ 'Z'.val
  · have hlow : 65 ≤ c.toNat := UInt32.le_iff_toNat_le.1 h.1
    have hhigh : c.toNat ≤ 90 := UInt32.le_iff_toNat_le.1 h.2
    have hall : ∀ n : Fin 26, (Char.ofNat (n.val + 65)).toLower.toUpper
        = (Char.ofNat (n.val + 65)).toUpper := by decide
    have hletter := hall ⟨c.toNat - 65, by omega⟩
    simpa only [Nat.sub_add_cancel hlow, Char.ofNat_toNat] using hletter
  · have hsame : c.toLower = c := dif_neg h
    rw [hsame]

/-- A keyword is a word with its letters, in any case. -/
theorem ident_of_isKeyword (h : t.isKeyword word = true) :
    ∃ name, t = .ident name ∧ Text.asciiUpper name = Text.asciiUpper word := by
  cases t with
  | ident name =>
      refine ⟨name, rfl, ?_⟩
      have hsame : name.toList.map Char.toLower = word.toList.map Char.toLower := by
        simpa [Token.isKeyword, Text.sameIgnoringCase] using h
      have hupper := congrArg (List.map Char.toUpper) hsame
      simp only [List.map_map] at hupper
      have hcomp : Char.toUpper ∘ Char.toLower = Char.toUpper := funext toUpper_toLower
      rw [hcomp] at hupper
      rw [Text.asciiUpper, Text.asciiUpper, hupper]
  | _ => cases h

theorem isKeyword_eq_false (hword : Text.asciiUpper word = word)
    (h : Text.asciiUpper name ≠ word) : (Token.ident name).isKeyword word = false := by
  refine Bool.eq_false_iff.2 fun hkeyword => ?_
  obtain ⟨name', hname, hupper⟩ := ident_of_isKeyword hkeyword
  cases hname
  exact h (hupper.trans hword)

/-! ## First tokens -/

/-- What the first token of an expression is not, at its level. -/
structure Begins (ℓ : Level) (t : Token) : Prop where
  close : t ≠ .rparen
  star : t ≠ .star
  when_ : t.isKeyword "WHEN" = false
  not : Level.not.rank < ℓ.rank → t.isNot = false
  sign : Level.unary.rank < ℓ.rank → t ≠ .minus ∧ t ≠ .plus

theorem Begins.loosen (h : Begins ℓ t) (hle : ℓ'.rank ≤ ℓ.rank) : Begins ℓ' t where
  close := h.close
  star := h.star
  when_ := h.when_
  not hlt := h.not (by omega)
  sign hlt := h.sign (by omega)

/-- A word that is neither WHEN nor NOT begins an operand. -/
theorem begins_ident (hwhen : Text.asciiUpper name ≠ "WHEN") (hnot : Text.asciiUpper name ≠ "NOT") :
    Begins ℓ (.ident name) where
  close := by simp
  star := by simp
  when_ := isKeyword_eq_false rfl hwhen
  not _ := isKeyword_eq_false rfl hnot
  sign _ := by simp

/-- The name of a function begins a call, as WHEN and NOT are no such names. -/
theorem begins_name {α : Type} {find : String → Option α} {a : α}
    (h : find (Text.asciiUpper name) = some a) (hwhen : find "WHEN" = none)
    (hnot : find "NOT" = none) : Begins ℓ (.ident name) := by
  refine begins_ident (fun hword => ?_) (fun hword => ?_)
  · rw [hword, hwhen] at h
    cases h
  · rw [hword, hnot] at h
    cases h

theorem begins_atom (h : atom? t = some e) : Begins ℓ t := by
  cases t with
  | ident name =>
      rw [atom?] at h
      refine begins_ident (fun hword => ?_) (fun hword => ?_)
      all_goals
        rw [hword] at h
        cases h
  | integer i => exact ⟨by simp, by simp, rfl, fun _ => rfl, by simp⟩
  | float x => exact ⟨by simp, by simp, rfl, fun _ => rfl, by simp⟩
  | string x => exact ⟨by simp, by simp, rfl, fun _ => rfl, by simp⟩
  | param x => exact ⟨by simp, by simp, rfl, fun _ => rfl, by simp⟩
  | quotedIdent x => exact ⟨by simp, by simp, rfl, fun _ => rfl, by simp⟩
  | _ => cases h

theorem begins_isNot (h : t.isNot = true) (hle : ℓ.rank ≤ Level.not.rank) : Begins ℓ t := by
  cases t with
  | ident name =>
      obtain ⟨name', hname, hupper⟩ := ident_of_isKeyword (t := .ident name) h
      cases hname
      have hnot : Text.asciiUpper name = "NOT" := hupper
      refine ⟨by simp, by simp, isKeyword_eq_false rfl (by rw [hnot]; decide), fun hlt => ?_,
        by simp⟩
      omega
  | bang =>
      refine ⟨by simp, by simp, rfl, fun hlt => ?_, by simp⟩
      omega
  | _ => cases h

/-- How the tokens of a phrase start, if it is an expression. -/
def Phrase.Begun : Phrase → List Token → Prop
  | .expr ℓ _, ts => ∃ t us, ts = t :: us ∧ Begins ℓ t
  | _, _ => True

theorem Derives.begun (h : Derives s ts p s') : p.Begun ts := by
  induction h with
  | atom is => exact ⟨_, _, rfl, begins_atom is⟩
  | paren => exact ⟨_, _, rfl, by simp, by simp, rfl, fun _ => rfl, by simp⟩
  | call _ _ scalar => exact ⟨_, _, rfl, begins_name scalar rfl rfl⟩
  | aggregate _ aggregate | windowed _ aggregate =>
      exact ⟨_, _, rfl, begins_name aggregate rfl rfl⟩
  | ranking ranking => exact ⟨_, _, rfl, begins_name ranking rfl rfl⟩
  | case word => exact ⟨_, _, rfl, begins_ident (by rw [word]; decide) (by rw [word]; decide)⟩
  | minus | plus =>
      exact ⟨_, _, rfl, by simp, by simp, rfl, fun _ => rfl, fun h => absurd h (by decide)⟩
  | not word => exact ⟨_, _, rfl, begins_isNot word (Nat.le_refl _)⟩
  | binary _ _ _ ihleft =>
      obtain ⟨t, us, rfl, ht⟩ := ihleft
      exact ⟨t, _, rfl, ht⟩
  | isNull _ _ _ _ ihsubject | inList _ _ _ _ ihsubject | between _ _ _ _ _ _ ihsubject
  | like _ _ _ _ ihsubject =>
      obtain ⟨t, us, rfl, ht⟩ := ihsubject
      exact ⟨t, _, rfl, ht⟩
  | up _ ih =>
      obtain ⟨t, us, rfl, ht⟩ := ih
      exact ⟨t, us, rfl, ht.loosen (Level.rank_next_le _)⟩
  | _ => trivial

end Grammar

end RowPipeline
