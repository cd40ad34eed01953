import RowPipeline.Proofs.Outcomes
import RowPipeline.Proofs.TokenTexts

/-!
# The SQL text of an expression

The text has parentheses around binary operators and around the operands of a sign and of NOT, and no
others. It is read as the expression again if every operand without them has the level that its place
requires.
-/

namespace RowPipeline

open Grammar Spelling Sql

/-! ## The style of SQL texts -/

/-- The parentheses that an expression has wherever it stands. -/
def Expr.ownPairs : Expr → Nat
  | .binary .. => 1
  | _ => 0

/-- The parentheses that an operand of a sign or of NOT has besides its own. -/
def Place.pairs : Place → Nat
  | .operand _ => 1
  | _ => 0

def Style.sql : Style where
  pairs place e := e.ownPairs + place.pairs
  column := .ident

/-- What has an SQL text that can be read again: plain literals, fields with a plain name, and no
parameters. -/
def Expr.HasSql : Expr → Prop
  | .literal v => v.Plain
  | .field name => isValidIdentifier name = true
  | .param _ => False
  | _ => True

/-- A text of an expression with its own parentheses. -/
def Expr.Renders (e : Expr) (text : String) : Prop := Spelt text (enclose e.ownPairs (e.spell .sql))

variable {a b : String} {ts us : List Token} {e : Expr}

/-! ## Pieces of the text -/

/-- The arguments of a function behind its name. -/
theorem Spelt.called (h : Spelt b ts) (name : String) (hname : isValidIdentifier name = true) :
    Spelt (name ++ ("(" ++ (b ++ ")"))) (.ident name :: .lparen :: (ts ++ [.rparen])) :=
  (spelt_word name hname).append h.parens

theorem spelt_aggregateCall (f : AggregateFunction) (h : Spelt b ts) :
    Spelt (Sql.aggregateCall f b) (Spelling.aggregateCall f ts) := by
  have hname : isValidIdentifier f.sqlName = true := by cases f <;> decide
  cases f with
  | countDistinct =>
      have hdistinct := (h.after "DISTINCT" (by decide)).called "COUNT" (by decide)
      exact hdistinct.of_text (by simp [Sql.aggregateCall_countDistinct])
  | _ => exact (h.called _ hname).of_text (by simp [Sql.aggregateCall_of_ne])

/-- A list behind a keyword and BY; an empty one has no text. -/
theorem forall₂_clause (word : String) (hword : isValidIdentifier word = true) {texts : List String}
    {tss : List (List Token)} (h : List.Forall₂ Spelt texts tss) :
    List.Forall₂ Spelt (if texts.isEmpty then [] else [word ++ " BY " ++ ", ".intercalate texts])
      (if tss.isEmpty then [] else [Spelling.clause word tss]) := by
  cases h with
  | nil => exact .nil
  | @cons text ts texts tss hfirst hrest =>
      have hlist := ((Spelt.commas (.cons hfirst hrest)).after "BY" (by decide)).after word hword
      exact .cons (hlist.of_text (by simp)) .nil

theorem flatten_clause (word : String) (tss : List (List Token)) :
    (if tss.isEmpty then [] else [Spelling.clause word tss]).flatten = Spelling.clause word tss := by
  cases tss <;> simp [Spelling.clause]

/-! ## The text of an expression -/

mutual

/-- The SQL text of an expression exists and is split into its tokens. -/
theorem toSql_renders : ∀ e : Expr, (∀ sub ∈ e.subterms, sub.HasSql) →
    ∃ text, e.toSqlWith .generic identifier = .ok text ∧ e.Renders text
  | .literal v, h => by
      have hplain : v.Plain := h _ (Expr.mem_subterms_self _)
      refine ⟨_, rfl, ?_⟩
      rw [Expr.Renders, Expr.spell]
      exact spelt_literal hplain
  | .field name, h => by
      have hname : isValidIdentifier name = true := h _ (Expr.mem_subterms_self _)
      refine ⟨name, ?_, ?_⟩
      · rw [Expr.toSqlWith, identifier, if_pos hname]
      · rw [Expr.Renders, Expr.spell]
        exact spelt_identifier hname
  | .param name, h => (h _ (Expr.mem_subterms_self _)).elim
  | .unary .neg e, h => by
      rw [Expr.subterms, List.forall_mem_cons] at h
      obtain ⟨text, htext, he⟩ := toSql_renders e h.2
      refine ⟨_, by rw [Expr.toSqlWith, htext]; rfl, ?_⟩
      rw [Expr.Renders, Expr.spell]
      have hminus : Spelt ("-" ++ ("(" ++ (text ++ ")"))) (.minus :: enclose (e.ownPairs + 1) _) :=
        he.parens.spelt.mark rfl (by decide) fun _ => rfl
      exact hminus.of_text (by simp)
  | .unary .not e, h => by
      rw [Expr.subterms, List.forall_mem_cons] at h
      obtain ⟨text, htext, he⟩ := toSql_renders e h.2
      refine ⟨_, by rw [Expr.toSqlWith, htext]; rfl, ?_⟩
      rw [Expr.Renders, Expr.spell]
      exact (he.parens.spelt.after "NOT" (by decide)).of_text (by simp)
  | .binary op l r, h => by
      rw [Expr.subterms, List.forall_mem_cons, List.forall_mem_append] at h
      obtain ⟨left, hleft, hl⟩ := toSql_renders l h.2.1
      obtain ⟨right, hright, hr⟩ := toSql_renders r h.2.2
      refine ⟨_, by rw [Expr.toSqlWith, hleft, hright]; rfl, ?_⟩
      rw [Expr.Renders, Expr.spell]
      exact (hl.spaced ((spelt_operator op).spaced hr)).parens.spelt.of_text (by simp)
  | .call f args, h => by
      rw [Expr.subterms, List.forall_mem_cons] at h
      obtain ⟨texts, htexts, hargs⟩ := listToSql_renders .whole rfl args h.2
      refine ⟨_, by rw [Expr.toSqlWith, htexts]; rfl, ?_⟩
      rw [Expr.Renders, Expr.spell]
      have hname : isValidIdentifier f.name = true := by cases f <;> decide
      have hfunction : functionName .generic f = f.name := rfl
      exact ((Spelt.commas hargs).called f.name hname).of_text (by simp [hfunction])
  | .aggregate f arg, h => by
      rw [Expr.subterms, List.forall_mem_cons] at h
      obtain ⟨text, htext, harg⟩ := argumentToSql_renders arg h.2
      refine ⟨_, by rw [Expr.toSqlWith, htext]; rfl, ?_⟩
      rw [Expr.Renders, Expr.spell]
      exact spelt_aggregateCall f harg
  | .window _ spec, h => by
      rw [Expr.subterms, List.forall_mem_cons] at h
      obtain ⟨text, htext, hspec⟩ := specToSql_renders spec h.2
      refine ⟨text, by rw [Expr.toSqlWith, htext], ?_⟩
      rw [Expr.Renders, Expr.spell]
      exact hspec
  | .case operand branches otherwise, h => by
      rw [Expr.subterms, List.forall_mem_cons, List.forall_mem_append, List.forall_mem_append] at h
      obtain ⟨-, ⟨hoperand, hbranches⟩, hotherwise⟩ := h
      obtain ⟨subject, hsubject, hoperand, -⟩ := optionToSql_renders operand hoperand
      obtain ⟨cases, hcases, hbranches⟩ := branchesToSql_renders branches hbranches
      obtain ⟨last, hlast, -, hotherwise⟩ := optionToSql_renders otherwise hotherwise
      refine ⟨_, by rw [Expr.toSqlWith, hsubject, hcases, hlast]; rfl, ?_⟩
      rw [Expr.Renders, Expr.spell]
      -- a subject and ELSE bring a blank along where they are there
      have hend := (spelt_word "END" (by decide)).blank
      have hparts := hoperand.append (hbranches.append (hotherwise.append hend))
      exact ((spelt_word "CASE" (by decide)).append hparts).of_text (by
        cases subject <;> cases last <;> simp [behind])
  | .inList e list negated, h => by
      rw [Expr.subterms, List.forall_mem_cons, List.forall_mem_append] at h
      obtain ⟨subject, hsubject, he⟩ := toSql_renders e h.2.1
      obtain ⟨items, hitems, hlist⟩ := listToSql_renders .whole rfl list h.2.2
      refine ⟨_, by rw [Expr.toSqlWith, hsubject, hitems]; rfl, ?_⟩
      rw [Expr.Renders, Expr.spell]
      have hlist := (Spelt.commas hlist).parens.spelt.after "IN" (by decide)
      exact (he.spaced (spelt_negated negated hlist)).of_text (by simp)
  | .between e low high negated, h => by
      rw [Expr.subterms, List.forall_mem_cons, List.forall_mem_append, List.forall_mem_append] at h
      obtain ⟨-, ⟨he, hlow⟩, hhigh⟩ := h
      obtain ⟨subject, hsubject, he⟩ := toSql_renders e he
      obtain ⟨lower, hlower, hlow⟩ := toSql_renders low hlow
      obtain ⟨upper, hupper, hhigh⟩ := toSql_renders high hhigh
      refine ⟨_, by rw [Expr.toSqlWith, hsubject, hlower, hupper]; rfl, ?_⟩
      rw [Expr.Renders, Expr.spell]
      have hbounds := (hlow.spaced (hhigh.after "AND" (by decide))).after "BETWEEN" (by decide)
      exact (he.spaced (spelt_negated negated hbounds)).of_text (by simp)
  | .like e pattern negated, h => by
      rw [Expr.subterms, List.forall_mem_cons, List.forall_mem_append] at h
      obtain ⟨subject, hsubject, he⟩ := toSql_renders e h.2.1
      obtain ⟨form, hform, hpattern⟩ := toSql_renders pattern h.2.2
      refine ⟨_, by rw [Expr.toSqlWith, hsubject, hform]; rfl, ?_⟩
      rw [Expr.Renders, Expr.spell]
      have hform := hpattern.after "LIKE" (by decide)
      exact (he.spaced (spelt_negated negated hform)).of_text (by simp)
  | .isNull e negated, h => by
      rw [Expr.subterms, List.forall_mem_cons] at h
      obtain ⟨subject, hsubject, he⟩ := toSql_renders e h.2
      refine ⟨_, by rw [Expr.toSqlWith, hsubject]; rfl, ?_⟩
      rw [Expr.Renders, Expr.spell]
      have hnull := spelt_negated negated (spelt_word "NULL" (by decide))
      exact (he.spaced (hnull.after "IS" (by decide))).of_text (by simp)

theorem listToSql_renders (place : Place) (hplace : place.pairs = 0) : ∀ es : List Expr,
    (∀ sub ∈ Expr.subtermsOfList es, sub.HasSql) →
      ∃ texts, Expr.listToSql .generic identifier es = .ok texts ∧
        List.Forall₂ Spelt texts (Expr.spellEach .sql place es)
  | [], _ => by
      refine ⟨[], rfl, ?_⟩
      rw [Expr.spellEach]
      exact .nil
  | e :: rest, h => by
      rw [Expr.subtermsOfList, List.forall_mem_append] at h
      obtain ⟨text, htext, he⟩ := toSql_renders e h.1
      obtain ⟨texts, htexts, hrest⟩ := listToSql_renders place hplace rest h.2
      refine ⟨text :: texts, by rw [Expr.listToSql, htext, htexts]; rfl, ?_⟩
      have hpairs : Style.sql.pairs place e = e.ownPairs := congrArg (e.ownPairs + ·) hplace
      rw [Expr.spellEach, hpairs]
      exact .cons he hrest

theorem optionToSql_renders : ∀ o : Option Expr,
    (∀ sub ∈ Expr.subtermsOfOption o, sub.HasSql) →
      ∃ found, Expr.optionToSql .generic identifier o = .ok found ∧
        Attaches (behind " " found) (Expr.spellOption .sql [] o) ∧
        Attaches (behind " ELSE " found) (Expr.spellOption .sql [.ident "ELSE"] o)
  | none, _ => by
      refine ⟨none, rfl, ?_⟩
      rw [Expr.spellOption, Expr.spellOption]
      exact ⟨.nil, .nil⟩
  | some e, h => by
      rw [Expr.subtermsOfOption] at h
      obtain ⟨text, htext, he⟩ := toSql_renders e h
      refine ⟨some text, by rw [Expr.optionToSql, htext]; rfl, ?_⟩
      rw [Expr.spellOption, Expr.spellOption]
      have helse := (he.after "ELSE" (by decide)).blank
      exact ⟨he.blank, helse.of_text (by simp [behind])⟩

theorem argumentToSql_renders : ∀ o : Option Expr,
    (∀ sub ∈ Expr.subtermsOfOption o, sub.HasSql) →
      ∃ text, Expr.argumentToSql .generic identifier o = .ok text ∧
        Spelt text (Expr.spellArgument .sql o)
  | none, _ => by
      refine ⟨"*", rfl, ?_⟩
      rw [Expr.spellArgument]
      exact spelt_sign rfl (by decide) fun _ _ => rfl
  | some e, h => by
      rw [Expr.subtermsOfOption] at h
      obtain ⟨text, htext, he⟩ := toSql_renders e h
      refine ⟨text, by rw [Expr.argumentToSql, htext], ?_⟩
      rw [Expr.spellArgument]
      exact he

theorem branchesToSql_renders : ∀ branches : List (Expr × Expr),
    (∀ sub ∈ Expr.subtermsOfBranches branches, sub.HasSql) →
      ∃ texts, Expr.branchesToSql .generic identifier branches = .ok texts ∧
        Attaches (String.join texts) (Expr.spellBranches .sql branches)
  | [], _ => by
      refine ⟨[], rfl, ?_⟩
      rw [Expr.spellBranches]
      exact .nil
  | (whenExpr, thenExpr) :: rest, h => by
      rw [Expr.subtermsOfBranches, List.forall_mem_append, List.forall_mem_append] at h
      obtain ⟨condition, hcondition, hwhen⟩ := toSql_renders whenExpr h.1.1
      obtain ⟨result, hresult, hthen⟩ := toSql_renders thenExpr h.1.2
      obtain ⟨texts, htexts, hrest⟩ := branchesToSql_renders rest h.2
      refine ⟨_, by rw [Expr.branchesToSql, hcondition, hresult, htexts]; rfl, ?_⟩
      rw [Expr.spellBranches]
      have hbranch := (hwhen.spaced ((hthen.append hrest).after "THEN" (by decide))).after "WHEN"
        (by decide)
      exact hbranch.blank.of_text (by simp [String.toList_join])

theorem keysToSql_renders : ∀ keys : List (OrderKey Expr),
    (∀ sub ∈ Expr.subtermsOfKeys keys, sub.HasSql) →
      ∃ texts, Expr.keysToSql .generic identifier keys = .ok texts ∧
        List.Forall₂ Spelt texts (Expr.spellKeys .sql keys)
  | [], _ => by
      refine ⟨[], rfl, ?_⟩
      rw [Expr.spellKeys]
      exact .nil
  | ⟨e, descending⟩ :: rest, h => by
      rw [Expr.subtermsOfKeys, List.forall_mem_append] at h
      obtain ⟨text, htext, he⟩ := toSql_renders e h.1
      obtain ⟨texts, htexts, hrest⟩ := keysToSql_renders rest h.2
      refine ⟨_, by rw [Expr.keysToSql, htext, htexts]; rfl, ?_⟩
      rw [Expr.spellKeys]
      refine .cons ?_ hrest
      cases descending with
      | false => exact (he.spaced (spelt_word "ASC" (by decide))).of_text (by simp)
      | true => exact (he.spaced (spelt_word "DESC" (by decide))).of_text (by simp)

theorem functionToSql_renders : ∀ func : WindowFunction Expr,
    (∀ sub ∈ Expr.subtermsOfFunction func, sub.HasSql) →
      ∃ text, Expr.functionToSql .generic identifier func = .ok text ∧
        Spelt text (Expr.spellFunction .sql func)
  | .rowNumber, _ => by
      refine ⟨_, rfl, ?_⟩
      rw [Expr.spellFunction]
      exact (Spelt.nil.called "ROW_NUMBER" (by decide)).of_text (by simp)
  | .rank, _ => by
      refine ⟨_, rfl, ?_⟩
      rw [Expr.spellFunction]
      exact (Spelt.nil.called "RANK" (by decide)).of_text (by simp)
  | .denseRank, _ => by
      refine ⟨_, rfl, ?_⟩
      rw [Expr.spellFunction]
      exact (Spelt.nil.called "DENSE_RANK" (by decide)).of_text (by simp)
  | .aggregate f arg, h => by
      rw [Expr.subtermsOfFunction] at h
      obtain ⟨text, htext, harg⟩ := argumentToSql_renders arg h
      refine ⟨_, by rw [Expr.functionToSql, htext]; rfl, ?_⟩
      rw [Expr.spellFunction]
      exact spelt_aggregateCall f harg

theorem specToSql_renders : ∀ spec : WindowSpec Expr,
    (∀ sub ∈ Expr.subtermsOfSpec spec, sub.HasSql) →
      ∃ text, Expr.specToSql .generic identifier spec = .ok text ∧
        Spelt text (Expr.spellSpec .sql spec)
  | ⟨func, partitionBy, orderBy⟩, h => by
      rw [Expr.subtermsOfSpec, List.forall_mem_append, List.forall_mem_append] at h
      obtain ⟨head, hhead, hfunc⟩ := functionToSql_renders func h.1.1
      obtain ⟨partitions, hpartitions, hpartitionBy⟩ := listToSql_renders .bound rfl partitionBy h.1.2
      obtain ⟨keys, hkeys, horderBy⟩ := keysToSql_renders orderBy h.2
      refine ⟨_, by rw [Expr.specToSql, hhead, hpartitions, hkeys]; rfl, ?_⟩
      have hclauses := Spelt.blanks (List.rel_append
        (forall₂_clause "PARTITION" (by decide) hpartitionBy)
        (forall₂_clause "ORDER" (by decide) horderBy))
      rw [List.flatten_append, flatten_clause, flatten_clause] at hclauses
      have hover := hfunc.spaced (hclauses.parens.spelt.after "OVER" (by decide))
      have htokens : Expr.spellFunction .sql func ++ .ident "OVER" :: .lparen ::
          (Spelling.clause "PARTITION" (Expr.spellEach .sql .bound partitionBy) ++
            Spelling.clause "ORDER" (Expr.spellKeys .sql orderBy) ++ [.rparen])
          = Expr.spellSpec .sql ⟨func, partitionBy, orderBy⟩ := by
        rw [Expr.spellSpec, List.append_assoc]
      rw [← htokens]
      exact hover.of_text (by simp)

end

/-! ## Reading the text -/

instance {style : Style} {place : Place} : Decidable (style.Fits place e) :=
  inferInstanceAs (Decidable (_ → _))

/-- Whether the text groups as the expression does: every operand in it fits its place, or has
parentheses. -/
def Expr.Grouped (e : Expr) : Prop := ∀ sub ∈ e.subterms, ∀ o ∈ sub.operands, Style.sql.Fits o.1 o.2

instance : Decidable e.Grouped :=
  inferInstanceAs (Decidable (∀ sub ∈ e.subterms, ∀ o ∈ sub.operands, Style.sql.Fits o.1 o.2))

/-- The texts among the literals of an expression. -/
def Expr.texts (e : Expr) : List String :=
  e.subterms.filterMap fun
    | .literal (.string x) => some x
    | _ => none

theorem Style.sql_suits (hfits : ∀ o ∈ e.operands, Style.sql.Fits o.1 o.2)
    (hname : ∀ name, e = .field name → Text.asciiUpper name ∉ "DISTINCT" :: fixedWords)
    (hfloat : ∀ x, e ≠ .literal (.float x)) : Style.sql.Suits e where
  operands := hfits
  column name he := by
    obtain ⟨hdistinct, hfixed⟩ := not_or.1 (mt List.mem_cons.2 (hname name he))
    rw [he]
    exact ⟨atom?_ident hfixed, isKeyword_eq_false rfl hdistinct⟩
  double := hfloat

/-- What was read off a text can be read off its SQL text, if the rest of its leaves is plain. -/
theorem Expr.hasSql (hwritable : e.Writable) (hparam : ∀ name, e ≠ .param name)
    (hfloat : ∀ x, e ≠ .literal (.float x)) (hslash : ∀ x, e = .literal (.string x) → '\\' ∉ x.toList)
    (hname : ∀ name, e = .field name → isValidIdentifier name = true) : e.HasSql := by
  cases e with
  | literal v =>
      cases v with
      | null | bool b => trivial
      | int i => exact hwritable
      | float x => exact absurd rfl (hfloat x)
      | string x => exact hslash x rfl
      | array items | object fields => exact hwritable
  | field name => exact hname name rfl
  | param name => exact absurd rfl (hparam name)
  | _ => trivial

/-- An expression without parameters, doubles and backslashes whose fields have plain names has an
SQL text, and the text is read as the expression if it groups as the expression does. -/
theorem parse_toSql {text : String} (h : Expr.parse text = .ok e) (hparams : e.params = [])
    (hfloat : ∀ x, .literal (.float x) ∉ e.subterms)
    (hslash : ∀ x, .literal (.string x) ∈ e.subterms → '\\' ∉ x.toList)
    (hfields : ∀ name ∈ e.fields, isValidIdentifier name = true ∧
      Text.asciiUpper name ∉ "DISTINCT" :: fixedWords)
    (hgrouped : e.Grouped) : ∃ sql, e.toSql .generic = .ok sql ∧ Expr.parse sql = .ok e := by
  obtain ⟨ps, s, -, -, hderives⟩ := derives_of_parse h
  have hwritable := writable_of_parse h
  have hfield : ∀ name, .field name ∈ e.subterms → isValidIdentifier name = true ∧
      Text.asciiUpper name ∉ "DISTINCT" :: fixedWords := fun name hname =>
    hfields name (List.mem_filterMap.2 ⟨_, hname, rfl⟩)
  have hsuits : ∀ sub ∈ e.subterms, Style.sql.Suits sub := fun sub hsub =>
    Style.sql_suits (hgrouped sub hsub) (fun name hname => (hfield name (hname ▸ hsub)).2)
      fun x hx => hfloat x (hx ▸ hsub)
  have hplain : ∀ sub ∈ e.subterms, sub.HasSql := by
    intro sub hsub
    refine Expr.hasSql (hwritable sub hsub) (fun name hname => ?_) (fun x hx => hfloat x (hx ▸ hsub))
      (fun x hx => hslash x (hx ▸ hsub)) fun name hname => (hfield name (hname ▸ hsub)).1
    have hmem : name ∈ e.params := List.mem_filterMap.2 ⟨sub, hsub, by rw [hname]⟩
    rw [hparams] at hmem
    cases hmem
  obtain ⟨sql, hsql, hspelt⟩ := toSql_renders e hplain
  have hwhole : Derives 0 (e.spellWhole .sql) (.expr .or e) s :=
    derives_whole (hderives.spelled hsuits)
  exact ⟨sql, hsql, parse_of_derives hspelt.lexes hwhole⟩

theorem parse_toSql_negated : ∃ e, Expr.parse "NOT -a IN (b, 2)" = .ok e ∧ e.params = [] ∧
    (∀ x, .literal (.float x) ∉ e.subterms) ∧
    (∀ x, .literal (.string x) ∈ e.subterms → '\\' ∉ x.toList) ∧
    (∀ name ∈ e.fields, isValidIdentifier name = true ∧
      Text.asciiUpper name ∉ "DISTINCT" :: fixedWords) ∧ e.Grouped ∧
    ∃ sql, e.toSql .generic = .ok sql ∧ Expr.parse sql = .ok e := by
  -- the expression is known only as what the text is read as, so its conditions are decided together
  have hchecked : (Expr.parse "NOT -a IN (b, 2)").toOption.any (fun e =>
      decide (e.params = [] ∧ e.subterms.any Expr.isDouble = false ∧ e.texts = [] ∧
        (∀ name ∈ e.fields, isValidIdentifier name = true ∧
          Text.asciiUpper name ∉ "DISTINCT" :: fixedWords) ∧ e.Grouped)) = true := by
    decide +kernel
  cases hparse : Expr.parse "NOT -a IN (b, 2)" with
  | error problem =>
      rw [hparse] at hchecked
      cases hchecked
  | ok e =>
      rw [hparse] at hchecked
      obtain ⟨hparams, hdouble, htexts, hfields, hgrouped⟩ := of_decide_eq_true hchecked
      have hfloat : ∀ x, .literal (.float x) ∉ e.subterms := fun x hx =>
        absurd rfl (List.any_eq_false.1 hdouble _ hx)
      have hslash : ∀ x, .literal (.string x) ∈ e.subterms → '\\' ∉ x.toList := by
        intro x hx
        have htext : x ∈ e.texts := List.mem_filterMap.2 ⟨_, hx, rfl⟩
        rw [htexts] at htext
        cases htext
      exact ⟨e, rfl, hparams, hfloat, hslash, hfields, hgrouped,
        parse_toSql hparse hparams hfloat hslash hfields hgrouped⟩

/-- A predicate has no parentheses of its own, so the operator before it takes its subject. -/
theorem predicate_operand_regrouped : ∃ e, Expr.parse "a = (b IN (1))" = .ok e ∧
    e.toSql .generic = .ok "(a = b IN (1))" ∧ Expr.parse "(a = b IN (1))" ≠ .ok e := by
  have hchecked : (Expr.parse "a = (b IN (1))").toOption.map (fun e => (e.toSql .generic, e.ownPairs))
      = some (.ok "(a = b IN (1))", 1) := by
    decide +kernel
  have hregrouped : (Expr.parse "(a = b IN (1))").toOption.map Expr.ownPairs = some 0 := by
    decide +kernel
  cases hparse : Expr.parse "a = (b IN (1))" with
  | error problem =>
      rw [hparse] at hchecked
      cases hchecked
  | ok e =>
      rw [hparse] at hchecked
      obtain ⟨hsql, hpairs⟩ := Prod.mk.inj (Option.some.inj hchecked)
      refine ⟨e, rfl, hsql, fun hsame => ?_⟩
      -- the text is read as the predicate, which has no parentheses of its own
      rw [hsame] at hregrouped
      have hnone : e.ownPairs = 0 := Option.some.inj hregrouped
      omega

end RowPipeline
