import RowPipeline.Proofs.TokenTexts

/-!
# Printed expressions

An expression is printed with parentheses around an operand exactly where its level is lower than its
place requires. The printed text of an expression that was read off a text is read as this expression.
-/

namespace RowPipeline

open Grammar Lexer Spelling

/-! ## Texts of tokens -/

/-- The text that a token is read off again: a quoted name between back quotes, a parameter in braces,
and a string between single quotes. -/
def Token.text : Token → String
  | .integer i => toString i.toInt
  | .float x => Decimal.plainLayout.write x
  | .string s => String.ofList ('\'' :: (escaped s.toList ++ ['\'']))
  | .ident name => name
  | .quotedIdent name => String.ofList (Char.ofNat 0x60 :: (name.toList ++ [Char.ofNat 0x60]))
  | .param name => String.ofList ('$' :: '\x7b' :: (name.toList ++ ['\x7d']))
  | .plus => "+"
  | .minus => "-"
  | .star => "*"
  | .slash => "/"
  | .percent => "%"
  | .eq => "="
  | .notEq => "!="
  | .lt => "<"
  | .ltEq => "<="
  | .gt => ">"
  | .gtEq => ">="
  | .andAnd => "&&"
  | .orOr => "||"
  | .bang => "!"
  | .lparen => "("
  | .rparen => ")"
  | .comma => ","
  | .eof => ""

/-- Whether the text of a token is read as this token. -/
def Token.Prints (t : Token) : Prop := Spelt t.text [t]

variable {s s' : Nat} {ts : List Token} {t : Token} {e : Expr} {style : Style}

/-! ## Tokens that print -/

/-- The size of a number below zero, the least one aside. -/
theorem opposite_nonneg {i : Int64} (hneg : i < 0) (hi : i ≠ Int64.minValue) : 0 ≤ -i := by
  have hneg' : i.toInt < 0 := Int64.lt_iff_toInt_lt.1 hneg
  refine Int64.le_iff_toInt_le.2 ?_
  rw [Parser.toInt_neg_of_ne hi]
  show (0 : Int) ≤ -i.toInt
  omega

theorem prints_integer {i : Int64} (hi : 0 ≤ i) : (Token.integer i).Prints := by
  have hleast : i ≠ Int64.minValue := by
    rintro rfl
    exact absurd hi (by decide)
  have hint := spelt_int hleast
  rwa [Value.literalTokens, if_neg (Int64.not_lt.2 hi)] at hint

theorem prints_string (x : String) : (Token.string x).Prints := by
  intro left us hleft next
  have hstring := lexes_string (s := x.toList) hleft.unquoted next
  rw [String.ofList_toList] at hstring
  simpa [Token.text] using hstring

theorem takeQuotedIdent_clean_append {name : List Char} (h : ∀ c ∈ name, c.toNat ≠ 0x60)
    (left : List Char) : takeQuotedIdent (name ++ Char.ofNat 0x60 :: left) = some (name, left) := by
  induction name with
  | nil => rfl
  | cons c name ih =>
      rw [List.cons_append, takeQuotedIdent, if_neg (h c List.mem_cons_self),
        ih fun d hd => h d (List.mem_cons_of_mem _ hd)]
      rfl

theorem prints_quotedIdent {name : String} (h : ∀ c ∈ name.toList, c.toNat ≠ 0x60) :
    (Token.quotedIdent name).Prints := by
  intro left us hleft next
  have hread := takeQuotedIdent_clean_append h left
  have hskip : ((Token.quotedIdent name).text.toList ++ left).dropWhile Text.isBlank
      = Char.ofNat 0x60 :: (name.toList ++ Char.ofNat 0x60 :: left) := by
    simp [Token.text, Text.isBlank]
  refine .cons hskip (fun total => ?_) next
  have htoken := @takeToken_back total (Char.ofNat 0x60) _ _ _ rfl hread
  rwa [String.ofList_toList] at htoken

theorem prints_param {name : String} (h : (Token.param name).Named) :
    (Token.param name).Prints := by
  intro left us hleft next
  have hskip : ((Token.param name).text.toList ++ left).dropWhile Text.isBlank
      = '$' :: '\x7b' :: (name.toList ++ '\x7d' :: left) := by
    simp [Token.text, Text.isBlank]
  refine .cons hskip (fun total => ?_) next
  rw [takeToken_dollar, h left]

/-- A mark that expressions are spelled with, or a word that is a plain name. -/
def Token.Plain : Token → Prop
  | .ident name => Sql.isValidIdentifier name = true
  | .plus | .minus | .star | .slash | .percent => True
  | .eq | .notEq | .lt | .ltEq | .gt | .gtEq => True
  | .lparen | .rparen | .comma => True
  | _ => False

theorem prints_plain (h : t.Plain) : t.Prints := by
  have hmark {sign : String} {c : Char} {u : Token} (hsign : sign.toList = [c]) (hc : c ∈ markChars)
      (hu : ∀ rest, takeMark? (c :: rest) = some (u, rest)) : Spelt sign [u] :=
    spelt_sign hsign hc fun left _ => hu left
  cases t with
  | ident name => exact spelt_identifier h
  | plus | minus | star | slash | percent | lparen | rparen | comma =>
      exact hmark rfl (by decide) fun _ => rfl
  | notEq | ltEq | gtEq => exact spelt_sign rfl (by decide) fun _ _ => rfl
  | eq => exact spelt_eq
  | lt => exact spelt_lt
  | gt => exact spelt_gt
  | _ => exact h.elim

/-! ## Every spelled token -/

/-- What holds of the tokens that an expression is spelled with besides marks, words and its parts. -/
structure Style.Writes (style : Style) (P : Token → Prop) (e : Expr) : Prop where
  literal : ∀ v, e = .literal v → ∀ t ∈ v.literalTokens, P t
  column : ∀ name, e = .field name → P (style.column name)
  param : ∀ name, e = .param name → P (.param name)

theorem plain_word (word : String) (h : Sql.isValidIdentifier word = true) :
    (Token.ident word).Plain := h

theorem plain_operator (op : BinaryOp) : op.token.Plain := by
  cases op with
  | or | and => exact plain_word _ (by decide)
  | _ => trivial

theorem plain_scalar (f : ScalarFunction) : (Token.ident f.name).Plain := by
  cases f <;> exact plain_word _ (by decide)

theorem plain_aggregate (f : AggregateFunction) : (Token.ident f.sqlName).Plain := by
  cases f <;> exact plain_word _ (by decide)

section Spelled

variable {P : Token → Prop} {us : List Token} {tss : List (List Token)}
  (hplain : ∀ t, t.Plain → P t)

include hplain

theorem forall_cons_plain (ht : t.Plain) (h : ∀ u ∈ ts, P u) : ∀ u ∈ t :: ts, P u :=
  List.forall_mem_cons.2 ⟨hplain t ht, h⟩

theorem forall_single_plain (ht : t.Plain) : ∀ u ∈ [t], P u :=
  List.forall_mem_singleton.2 (hplain t ht)

theorem forall_enclose (n : Nat) (h : ∀ t ∈ ts, P t) : ∀ t ∈ enclose n ts, P t := by
  induction n with
  | zero => exact h
  | succ n ih =>
      have hclose := forall_single_plain hplain (t := .rparen) trivial
      exact forall_cons_plain hplain trivial (List.forall_mem_append.2 ⟨ih, hclose⟩)

theorem forall_separated (h : ∀ ts ∈ tss, ∀ t ∈ ts, P t) : ∀ t ∈ separated tss, P t := by
  induction tss with
  | nil => simp [separated]
  | cons ts tss ih =>
      obtain ⟨hts, htss⟩ := List.forall_mem_cons.1 h
      cases tss with
      | nil =>
          rw [separated, List.intercalate_singleton]
          exact hts
      | cons us tss =>
          rw [separated_cons]
          exact List.forall_mem_append.2 ⟨hts, forall_cons_plain hplain trivial (ih htss)⟩

/-- A list in parentheses, the opening one aside. -/
theorem forall_list (h : ∀ ts ∈ tss, ∀ t ∈ ts, P t) : ∀ t ∈ separated tss ++ [.rparen], P t :=
  List.forall_mem_append.2 ⟨forall_separated hplain h, forall_single_plain hplain trivial⟩

theorem forall_clause (word : String) (hword : Sql.isValidIdentifier word = true)
    (h : ∀ ts ∈ tss, ∀ t ∈ ts, P t) : ∀ t ∈ Spelling.clause word tss, P t := by
  rw [Spelling.clause]
  split
  · simp
  · refine forall_cons_plain hplain (plain_word word hword) ?_
    exact forall_cons_plain hplain (plain_word _ (by decide)) (forall_separated hplain h)

theorem forall_negation (negated : Bool) : ∀ t ∈ Spelling.negation negated, P t := by
  cases negated with
  | false => simp [Spelling.negation]
  | true => exact forall_single_plain hplain (plain_word _ (by decide))

theorem forall_aggregateCall (f : AggregateFunction) (h : ∀ t ∈ ts, P t) :
    ∀ t ∈ aggregateCall f ts, P t := by
  have hinner : ∀ t ∈ ts ++ [.rparen], P t :=
    List.forall_mem_append.2 ⟨h, forall_single_plain hplain trivial⟩
  refine forall_cons_plain hplain (plain_aggregate f) (forall_cons_plain hplain trivial ?_)
  split
  · exact forall_cons_plain hplain (plain_word _ (by decide)) hinner
  · exact hinner

mutual

/-- Every token of an expression is a mark, a word, or a token of a leaf. -/
theorem spell_forall : ∀ e : Expr, (∀ sub ∈ e.subterms, style.Writes P sub) →
    ∀ t ∈ e.spell style, P t
  | .literal v, h => by
      rw [Expr.spell]
      exact (h _ (Expr.mem_subterms_self _)).literal v rfl
  | .field name, h => by
      rw [Expr.spell]
      exact List.forall_mem_singleton.2 ((h _ (Expr.mem_subterms_self _)).column name rfl)
  | .param name, h => by
      rw [Expr.spell]
      exact List.forall_mem_singleton.2 ((h _ (Expr.mem_subterms_self _)).param name rfl)
  | .unary .neg e, h => by
      rw [Expr.subterms, List.forall_mem_cons] at h
      rw [Expr.spell]
      exact forall_cons_plain hplain trivial (forall_enclose hplain _ (spell_forall e h.2))
  | .unary .not e, h => by
      rw [Expr.subterms, List.forall_mem_cons] at h
      rw [Expr.spell]
      exact forall_cons_plain hplain (plain_word _ (by decide))
        (forall_enclose hplain _ (spell_forall e h.2))
  | .binary op l r, h => by
      rw [Expr.subterms, List.forall_mem_cons, List.forall_mem_append] at h
      have hl := forall_enclose hplain (style.pairs (.left op) l) (spell_forall l h.2.1)
      have hr := forall_enclose hplain (style.pairs (.right op) r) (spell_forall r h.2.2)
      rw [Expr.spell]
      exact List.forall_mem_append.2 ⟨hl, forall_cons_plain hplain (plain_operator op) hr⟩
  | .call f args, h => by
      rw [Expr.subterms, List.forall_mem_cons] at h
      rw [Expr.spell]
      refine forall_cons_plain hplain (plain_scalar f) (forall_cons_plain hplain trivial ?_)
      exact forall_list hplain (spellEach_forall .whole args h.2)
  | .aggregate f arg, h => by
      rw [Expr.subterms, List.forall_mem_cons] at h
      rw [Expr.spell]
      exact forall_aggregateCall hplain f (spellArgument_forall arg h.2)
  | .window slot spec, h => by
      rw [Expr.subterms, List.forall_mem_cons] at h
      rw [Expr.spell]
      exact spellSpec_forall spec h.2
  | .case operand branches otherwise, h => by
      rw [Expr.subterms, List.forall_mem_cons, List.forall_mem_append, List.forall_mem_append] at h
      obtain ⟨-, ⟨hoperand, hbranches⟩, hotherwise⟩ := h
      have hoperand := spellOption_forall [] (by simp) operand hoperand
      have hbranches := spellBranches_forall branches hbranches
      have hotherwise := spellOption_forall [.ident "ELSE"]
        (forall_single_plain hplain (plain_word _ (by decide))) otherwise hotherwise
      have hend := forall_single_plain hplain (plain_word "END" (by decide))
      rw [Expr.spell]
      refine forall_cons_plain hplain (plain_word _ (by decide))
        (List.forall_mem_append.2 ⟨hoperand, ?_⟩)
      refine List.forall_mem_append.2 ⟨hbranches, ?_⟩
      exact List.forall_mem_append.2 ⟨hotherwise, hend⟩
  | .inList e list negated, h => by
      rw [Expr.subterms, List.forall_mem_cons, List.forall_mem_append] at h
      have he := forall_enclose hplain (style.pairs .subject e) (spell_forall e h.2.1)
      have hlist := forall_list hplain (spellEach_forall .whole list h.2.2)
      rw [Expr.spell]
      refine List.forall_mem_append.2 ⟨he, List.forall_mem_append.2 ⟨forall_negation hplain _, ?_⟩⟩
      exact forall_cons_plain hplain (plain_word _ (by decide)) (forall_cons_plain hplain trivial hlist)
  | .between e low high negated, h => by
      rw [Expr.subterms, List.forall_mem_cons, List.forall_mem_append, List.forall_mem_append] at h
      obtain ⟨-, ⟨he, hlow⟩, hhigh⟩ := h
      have he := forall_enclose hplain (style.pairs .subject e) (spell_forall e he)
      have hlow := forall_enclose hplain (style.pairs .bound low) (spell_forall low hlow)
      have hhigh := forall_enclose hplain (style.pairs .bound high) (spell_forall high hhigh)
      rw [Expr.spell]
      refine List.forall_mem_append.2 ⟨he, List.forall_mem_append.2 ⟨forall_negation hplain _, ?_⟩⟩
      refine forall_cons_plain hplain (plain_word _ (by decide)) (List.forall_mem_append.2 ⟨hlow, ?_⟩)
      exact forall_cons_plain hplain (plain_word _ (by decide)) hhigh
  | .like e pattern negated, h => by
      rw [Expr.subterms, List.forall_mem_cons, List.forall_mem_append] at h
      have he := forall_enclose hplain (style.pairs .subject e) (spell_forall e h.2.1)
      have hpattern := forall_enclose hplain (style.pairs .bound pattern) (spell_forall pattern h.2.2)
      rw [Expr.spell]
      refine List.forall_mem_append.2 ⟨he, List.forall_mem_append.2 ⟨forall_negation hplain _, ?_⟩⟩
      exact forall_cons_plain hplain (plain_word _ (by decide)) hpattern
  | .isNull e negated, h => by
      rw [Expr.subterms, List.forall_mem_cons] at h
      have he := forall_enclose hplain (style.pairs .subject e) (spell_forall e h.2)
      have hnull := forall_single_plain hplain (plain_word "NULL" (by decide))
      rw [Expr.spell]
      refine List.forall_mem_append.2 ⟨he, forall_cons_plain hplain (plain_word _ (by decide)) ?_⟩
      exact List.forall_mem_append.2 ⟨forall_negation hplain _, hnull⟩

theorem spellEach_forall (place : Place) : ∀ es : List Expr,
    (∀ sub ∈ Expr.subtermsOfList es, style.Writes P sub) →
      ∀ ts ∈ Expr.spellEach style place es, ∀ t ∈ ts, P t
  | [], _ => by simp [Expr.spellEach]
  | e :: rest, h => by
      rw [Expr.subtermsOfList, List.forall_mem_append] at h
      rw [Expr.spellEach]
      exact List.forall_mem_cons.2 ⟨forall_enclose hplain _ (spell_forall e h.1),
        spellEach_forall place rest h.2⟩

theorem spellOption_forall (lead : List Token) (hlead : ∀ t ∈ lead, P t) : ∀ o : Option Expr,
    (∀ sub ∈ Expr.subtermsOfOption o, style.Writes P sub) →
      ∀ t ∈ Expr.spellOption style lead o, P t
  | none, _ => by simp [Expr.spellOption]
  | some e, h => by
      rw [Expr.subtermsOfOption] at h
      rw [Expr.spellOption]
      exact List.forall_mem_append.2 ⟨hlead, forall_enclose hplain _ (spell_forall e h)⟩

theorem spellArgument_forall : ∀ o : Option Expr,
    (∀ sub ∈ Expr.subtermsOfOption o, style.Writes P sub) → ∀ t ∈ Expr.spellArgument style o, P t
  | none, _ => by
      rw [Expr.spellArgument]
      exact forall_single_plain hplain trivial
  | some e, h => by
      rw [Expr.subtermsOfOption] at h
      rw [Expr.spellArgument]
      exact forall_enclose hplain _ (spell_forall e h)

theorem spellBranches_forall : ∀ branches : List (Expr × Expr),
    (∀ sub ∈ Expr.subtermsOfBranches branches, style.Writes P sub) →
      ∀ t ∈ Expr.spellBranches style branches, P t
  | [], _ => by simp [Expr.spellBranches]
  | (whenExpr, thenExpr) :: rest, h => by
      rw [Expr.subtermsOfBranches, List.forall_mem_append, List.forall_mem_append] at h
      have hwhen := forall_enclose hplain (style.pairs .whole whenExpr) (spell_forall whenExpr h.1.1)
      have hthen := forall_enclose hplain (style.pairs .whole thenExpr) (spell_forall thenExpr h.1.2)
      rw [Expr.spellBranches]
      refine forall_cons_plain hplain (plain_word _ (by decide)) (List.forall_mem_append.2 ⟨hwhen, ?_⟩)
      refine forall_cons_plain hplain (plain_word _ (by decide)) (List.forall_mem_append.2 ⟨hthen, ?_⟩)
      exact spellBranches_forall rest h.2

theorem spellKeys_forall : ∀ keys : List (OrderKey Expr),
    (∀ sub ∈ Expr.subtermsOfKeys keys, style.Writes P sub) →
      ∀ ts ∈ Expr.spellKeys style keys, ∀ t ∈ ts, P t
  | [], _ => by simp [Expr.spellKeys]
  | ⟨e, descending⟩ :: rest, h => by
      rw [Expr.subtermsOfKeys, List.forall_mem_append] at h
      have hdirection : (Token.ident (if descending then "DESC" else "ASC")).Plain := by
        cases descending <;> exact plain_word _ (by decide)
      rw [Expr.spellKeys]
      refine List.forall_mem_cons.2 ⟨List.forall_mem_append.2 ⟨?_, ?_⟩, spellKeys_forall rest h.2⟩
      · exact forall_enclose hplain _ (spell_forall e h.1)
      · exact forall_single_plain hplain hdirection

theorem spellFunction_forall : ∀ func : WindowFunction Expr,
    (∀ sub ∈ Expr.subtermsOfFunction func, style.Writes P sub) →
      ∀ t ∈ Expr.spellFunction style func, P t
  | .rowNumber, _ | .rank, _ | .denseRank, _ => by
      have hparens := forall_cons_plain hplain (t := .lparen) trivial
        (forall_single_plain hplain (t := .rparen) trivial)
      rw [Expr.spellFunction]
      exact forall_cons_plain hplain (plain_word _ (by decide)) hparens
  | .aggregate f arg, h => by
      rw [Expr.subtermsOfFunction] at h
      rw [Expr.spellFunction]
      exact forall_aggregateCall hplain f (spellArgument_forall arg h)

theorem spellSpec_forall : ∀ spec : WindowSpec Expr,
    (∀ sub ∈ Expr.subtermsOfSpec spec, style.Writes P sub) → ∀ t ∈ Expr.spellSpec style spec, P t
  | ⟨func, partitionBy, orderBy⟩, h => by
      rw [Expr.subtermsOfSpec, List.forall_mem_append, List.forall_mem_append] at h
      have hfunc := spellFunction_forall func h.1.1
      have hpartitions := forall_clause hplain "PARTITION" (by decide)
        (spellEach_forall .bound partitionBy h.1.2)
      have hkeys := forall_clause hplain "ORDER" (by decide) (spellKeys_forall orderBy h.2)
      rw [Expr.spellSpec]
      refine List.forall_mem_append.2 ⟨hfunc, forall_cons_plain hplain (plain_word _ (by decide)) ?_⟩
      refine forall_cons_plain hplain trivial (List.forall_mem_append.2 ⟨hpartitions, ?_⟩)
      exact List.forall_mem_append.2 ⟨hkeys, forall_single_plain hplain trivial⟩

end

end Spelled

/-! ## Printing -/

/-- Parentheses around an operand exactly where its level is lower than its place requires, and fields
between back quotes. -/
def Style.least : Style where
  pairs place e := if e.level.rank < place.level.rank then 1 else 0
  column := .quotedIdent

/-- The text of an expression: its tokens with the fewest parentheses, and blanks between them. -/
def Expr.print (e : Expr) : String := " ".intercalate ((e.spellWhole .least).map Token.text)

theorem Spelt.tokens (h : ∀ t ∈ ts, t.Prints) : Spelt (" ".intercalate (ts.map Token.text)) ts := by
  have hall : List.Forall₂ Spelt (ts.map Token.text) (ts.map fun t => [t]) := by
    rw [List.forall₂_map_left_iff, List.forall₂_map_right_iff]
    exact List.forall₂_same.2 h
  have hspelt := Spelt.blanks hall
  rwa [← List.flatMap_def, List.flatMap_singleton'] at hspelt

theorem Style.least_suits (hfloat : ∀ x, e ≠ .literal (.float x)) : Style.least.Suits e where
  operands o _ hnone := by
    by_contra hlow
    have hpair : Style.least.pairs o.1 o.2 = 1 := if_pos (Nat.lt_of_not_le hlow)
    rw [hpair] at hnone
    cases hnone
  column name he := ⟨by rw [he]; rfl, rfl⟩
  double := hfloat

/-- The tokens of a leaf that can be written again. -/
theorem Style.least_writes (h : e.Writable) (hfloat : ∀ x, e ≠ .literal (.float x)) :
    Style.least.Writes Token.Prints e where
  literal v he := by
    subst he
    cases v with
    | null => exact List.forall_mem_singleton.2 (prints_plain (plain_word _ (by decide)))
    | bool b => cases b <;> exact List.forall_mem_singleton.2 (prints_plain (plain_word _ (by decide)))
    | int i =>
        rw [Value.literalTokens]
        split
        · rename_i hneg
          have hsize := prints_integer (opposite_nonneg hneg h)
          exact forall_cons_plain (fun _ => prints_plain) trivial (List.forall_mem_singleton.2 hsize)
        · rename_i hneg
          exact List.forall_mem_singleton.2 (prints_integer (Int64.not_lt.1 hneg))
    | float x => exact absurd rfl (hfloat x)
    | string x => exact List.forall_mem_singleton.2 (prints_string x)
    | array items => exact List.forall_mem_nil _
    | object fields => exact List.forall_mem_nil _
  column name he := prints_quotedIdent (by subst he; exact h)
  param name he := prints_param (by subst he; exact h)

/-- An expression that was read off a text is read off its printed text as well, with the same slots. -/
theorem parse_print {text : String} (h : Expr.parse text = .ok e)
    (hfloat : ∀ x, .literal (.float x) ∉ e.subterms) : Expr.parse e.print = .ok e := by
  obtain ⟨ps, s, -, -, hderives⟩ := derives_of_parse h
  have hwritable := writable_of_parse h
  have hnofloat : ∀ sub ∈ e.subterms, ∀ x, sub ≠ .literal (.float x) := by
    rintro sub hsub x rfl
    exact hfloat x hsub
  have hspelled : Derives 0 (e.spellWhole .least) (.expr .or e) s :=
    derives_whole (hderives.spelled fun sub hsub => Style.least_suits (hnofloat sub hsub))
  have hprints : ∀ t ∈ e.spellWhole .least, t.Prints :=
    forall_enclose (fun _ => prints_plain) _ (spell_forall (fun _ => prints_plain) e fun sub hsub =>
      Style.least_writes (hwritable sub hsub) (hnofloat sub hsub))
  exact parse_of_derives (Spelt.tokens hprints).lexes hspelled

/-- Parentheses that are not needed are left out; the window inside another one has the slot before
it. -/
theorem parse_print_windows : ∃ e,
    Expr.parse "(not(a or $p)) and RANK() over (order by -(sum(a) over ())) between -1 and (1 in (2))"
      = .ok e ∧
    e.print = "NOT ( `a` OR $\x7bp\x7d ) AND RANK ( ) OVER ( ORDER BY - SUM ( `a` ) OVER ( ) ASC )" ++
      " BETWEEN - 1 AND ( 1 IN ( 2 ) )" ∧
    (∀ x, .literal (.float x) ∉ e.subterms) ∧ Expr.parse e.print = .ok e := by
  -- the text stays a variable wherever it is not to be computed with
  obtain ⟨text, htext⟩ : ∃ text, text =
      "(not(a or $p)) and RANK() over (order by -(sum(a) over ())) between -1 and (1 in (2))" :=
    ⟨_, rfl⟩
  have hchecked : (Expr.parse text).toOption.map (fun e => (e.print, e.subterms.any Expr.isDouble))
      = some ("NOT ( `a` OR $\x7bp\x7d ) AND RANK ( ) OVER ( ORDER BY - SUM ( `a` ) OVER ( ) ASC )" ++
        " BETWEEN - 1 AND ( 1 IN ( 2 ) )", false) := by
    rw [htext]
    decide +kernel
  rw [← htext]
  cases hparse : Expr.parse text with
  | error problem =>
      rw [hparse] at hchecked
      cases hchecked
  | ok e =>
      rw [hparse] at hchecked
      obtain ⟨hprint, hnone⟩ := Prod.mk.inj (Option.some.inj hchecked)
      have hfloat : ∀ x, .literal (.float x) ∉ e.subterms := by
        intro x hx
        exact absurd rfl (List.any_eq_false.1 hnone _ hx)
      exact ⟨e, rfl, hprint, hfloat, parse_print hparse hfloat⟩

end RowPipeline
