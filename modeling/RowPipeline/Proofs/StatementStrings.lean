import RowPipeline.Proofs.StringContents
import RowPipeline.Sql.Select

/-!
# String values in statements

Statements that differ in the contents of strings in their filters, in their conditions on groups, and
in their selected expressions are both written or both fail, and their texts have the same tokens up to
the contents of strings. The strings of a text are those of the statement, in the order of the clauses:
every clause is compared with the one of the statement with all its strings emptied.
-/

namespace RowPipeline

open Sql Ansi

/-! ## Filter trees -/

theorem Value.emptied_candidates (v : Value) :
    FilterCondition.candidates v.emptied = emptiedItems (FilterCondition.candidates v) := by
  cases v <;> simp only [emptied, FilterCondition.candidates, emptiedItems]

theorem Value.itemStrings_candidates (v : Value) :
    itemStrings (FilterCondition.candidates v) = v.strings := by
  cases v <;> simp only [FilterCondition.candidates, itemStrings, strings, List.append_nil]

namespace FilterCondition

/-- A condition with the strings of its value emptied. Its gate has no part in the text. -/
def emptied (c : FilterCondition) : FilterCondition :=
  { c with value := c.value.emptied, gate := none }

/-- The strings of a condition on a column with strings of its own. -/
def strings (column : String → List String) (c : FilterCondition) : List String :=
  match c.operator with
  | .isNull | .isNotNull => column c.field
  | .isIn | .notIn =>
      if (candidates c.value).isEmpty then [] else column c.field ++ c.value.strings
  | _ => column c.field ++ c.value.strings

end FilterCondition

namespace FilterNode

mutual

/-- A tree with the strings of its conditions emptied. -/
def emptied : FilterNode → FilterNode
  | .leaf c => .leaf c.emptied
  | .logical op children => .logical op (emptiedEach children)

def emptiedEach : List FilterNode → List FilterNode
  | [] => []
  | n :: rest => n.emptied :: emptiedEach rest

end

mutual

/-- The strings of a tree, in the order of the text. -/
def strings (column : String → List String) : FilterNode → List String
  | .leaf c => c.strings column
  | .logical _ children => stringsOfEach column children

def stringsOfEach (column : String → List String) : List FilterNode → List String
  | [] => []
  | n :: rest => n.strings column ++ stringsOfEach column rest

end

end FilterNode

/-- A column beside a literal. -/
theorem Twin.compared {field field₀ sign : String} {xs : List String} (h : Twin field field₀ xs)
    (d : Dialect) (v : Value) (hsign : isJoint (" " ++ sign ++ " ") = true) :
    Twin (field ++ " " ++ sign ++ " " ++ literal d v)
      (field₀ ++ " " ++ sign ++ " " ++ literal d v.emptied) (xs ++ v.strings) := by
  simpa only [String.append_assoc] using h.append ((twin_literal d v).joint _ hsign)

section Filters

variable {column column₀ : String → Rendered} {contents : String → List String}

theorem FilterCondition.toSql_paired (d : Dialect)
    (hcolumn : ∀ name, Paired Twin (column name) (column₀ name) (contents name)) (c : FilterCondition) :
    Paired Twin (c.toSql d column) (c.emptied.toSql d column₀) (c.strings contents) := by
  obtain ⟨name, op, v, gate⟩ := c
  have hsign : isJoint (" " ++ op.sql ++ " ") = true := by cases op <;> decide
  have hnone : isPlain (if op = .isIn then "1 = 0" else "1 = 1") = true := by cases op <;> decide
  refine (hcolumn name).bind fun field field₀ hfield => ?_
  cases op with
  | eq | notEq | gt | gtEq | lt | ltEq | like | notLike => exact .ok (hfield.compared d v hsign)
  | isNull =>
      refine .ok ?_
      have hnull := hfield.closed (" " ++ FilterOperator.isNull.sql) (by decide)
      rwa [← String.append_assoc, ← String.append_assoc] at hnull
  | isNotNull =>
      refine .ok ?_
      have hnull := hfield.closed (" " ++ FilterOperator.isNotNull.sql) (by decide)
      rwa [← String.append_assoc, ← String.append_assoc] at hnull
  | isIn | notIn =>
      -- without candidates the column is left out, and its strings with it
      dsimp only [emptied, strings]
      rw [Value.emptied_candidates]
      cases hitems : candidates v with
      | nil =>
          rw [Value.emptiedItems]
          exact .ok (.plain _ hnone)
      | cons first rest =>
          have hlist := hfield.compared d (.array (first :: rest)) hsign
          rw [Value.emptied, Value.strings, ← hitems, Value.itemStrings_candidates, hitems] at hlist
          exact .ok hlist
  | between =>
      cases v with
      | array items =>
          match items with
          | [] | [_] | _ :: _ :: _ :: _ => exact .error _
          | [low, high] =>
              have hbounds := (twin_literal d low).append
                ((twin_literal d high).joint " AND " (by decide))
              have hbetween := hfield.append (hbounds.joint " BETWEEN " (by decide))
              have hpair : (Value.array [low, high]).strings = low.strings ++ high.strings := by
                simp only [Value.strings, Value.itemStrings, List.append_nil]
              refine .ok ?_
              dsimp only [strings]
              rw [hpair]
              simpa only [String.append_assoc] using hbetween
      | null | bool b | int i | float x | string x | object fields => exact .error _

mutual

/-- The text of a tree and that of the same one with its strings emptied, on columns whose texts differ
in strings alone. -/
theorem FilterNode.toSql_paired (d : Dialect)
    (hcolumn : ∀ name, Paired Twin (column name) (column₀ name) (contents name)) : ∀ n : FilterNode,
    Paired Twin (n.toSqlWith d column) (n.emptied.toSqlWith d column₀) (n.strings contents)
  | .leaf c => by
      rw [emptied, toSqlWith, toSqlWith, strings]
      exact c.toSql_paired d hcolumn
  | .logical .and [] => by
      rw [emptied, emptiedEach, toSqlWith, strings, stringsOfEach]
      exact .ok (.plain _ (by decide))
  | .logical .or [] => by
      rw [emptied, emptiedEach, toSqlWith, strings, stringsOfEach]
      exact .ok (.plain _ (by decide))
  | .logical op [only] => by
      rw [emptied, emptiedEach, emptiedEach, toSqlWith, toSqlWith, strings, stringsOfEach,
        stringsOfEach, List.append_nil]
      exact FilterNode.toSql_paired d hcolumn only
  | .logical op (first :: second :: rest) => by
      rw [emptied, emptiedEach, emptiedEach, toSqlWith, toSqlWith, strings, stringsOfEach,
        stringsOfEach]
      refine (FilterNode.toSql_paired d hcolumn first).bind fun a a₀ ha => ?_
      refine (FilterNode.toSql_paired d hcolumn second).bind fun b b₀ hb => ?_
      refine (FilterNode.toSqlAll_paired d hcolumn rest).bind fun others others₀ hothers => .ok ?_
      have hjoint : isJoint (" " ++ op.keyword ++ " ") = true := by cases op <;> decide
      have hgroup := (Twins.cons ha (.cons hb hothers)).intercalate _ hjoint
      simpa only [String.append_assoc] using (hgroup.closed ")" (by decide)).behind "(" (by decide)

theorem FilterNode.toSqlAll_paired (d : Dialect)
    (hcolumn : ∀ name, Paired Twin (column name) (column₀ name) (contents name)) :
    ∀ children : List FilterNode,
    Paired Twins (toSqlAll d column children) (toSqlAll d column₀ (emptiedEach children))
      (stringsOfEach contents children)
  | [] => by
      rw [emptiedEach, toSqlAll, toSqlAll, stringsOfEach]
      exact .ok .nil
  | n :: rest => by
      rw [emptiedEach, toSqlAll, toSqlAll, stringsOfEach]
      refine (FilterNode.toSql_paired d hcolumn n).bind fun text text₀ h => ?_
      refine (FilterNode.toSqlAll_paired d hcolumn rest).bind fun texts texts₀ hrest => ?_
      exact .ok (.cons h hrest)

end

end Filters

/-! ## The select list -/

mutual

/-- The strings do not matter to where aggregates are. -/
theorem Expr.containsAggregate_emptied : ∀ e : Expr,
    e.emptied.containsAggregate = e.containsAggregate
  | .literal _ | .field _ | .param _ | .aggregate .. | .window .. => rfl
  | .unary _ e | .isNull e _ => by
      rw [emptied, containsAggregate, containsAggregate, e.containsAggregate_emptied]
  | .binary _ l r | .like l r _ => by
      rw [emptied, containsAggregate, containsAggregate, l.containsAggregate_emptied,
        r.containsAggregate_emptied]
  | .call _ args => by
      rw [emptied, containsAggregate, containsAggregate, Expr.anyAggregate_emptied args]
  | .case operand branches otherwise => by
      rw [emptied, containsAggregate, containsAggregate, Expr.optionAggregate_emptied operand,
        Expr.branchesAggregate_emptied branches, Expr.optionAggregate_emptied otherwise]
  | .inList e list _ => by
      rw [emptied, containsAggregate, containsAggregate, e.containsAggregate_emptied,
        Expr.anyAggregate_emptied list]
  | .between e low high _ => by
      rw [emptied, containsAggregate, containsAggregate, e.containsAggregate_emptied,
        low.containsAggregate_emptied, high.containsAggregate_emptied]

theorem Expr.anyAggregate_emptied : ∀ es : List Expr, anyAggregate (emptiedEach es) = anyAggregate es
  | [] => rfl
  | e :: rest => by
      rw [emptiedEach, anyAggregate, anyAggregate, e.containsAggregate_emptied,
        Expr.anyAggregate_emptied rest]

theorem Expr.optionAggregate_emptied : ∀ o : Option Expr,
    optionAggregate (emptiedOption o) = optionAggregate o
  | none => rfl
  | some e => by
      rw [emptiedOption, optionAggregate, optionAggregate, e.containsAggregate_emptied]

theorem Expr.branchesAggregate_emptied : ∀ branches : List (Expr × Expr),
    branchesAggregate (emptiedBranches branches) = branchesAggregate branches
  | [] => rfl
  | (whenExpr, thenExpr) :: rest => by
      rw [emptiedBranches, branchesAggregate, branchesAggregate, whenExpr.containsAggregate_emptied,
        thenExpr.containsAggregate_emptied, Expr.branchesAggregate_emptied rest]

end

namespace SelectField

/-- A field with the strings of its expression emptied. -/
def emptied : SelectField → SelectField
  | .column name label => .column name label
  | .aggregate func field label => .aggregate func field label
  | .expression e label => .expression e.emptied label

def strings : SelectField → List String
  | .column .. | .aggregate .. => []
  | .expression e _ => e.strings

theorem label?_emptied (f : SelectField) : f.emptied.label? = f.label? := by cases f <;> rfl

theorem outputName_emptied (f : SelectField) : f.emptied.outputName = f.outputName := by
  cases f <;> rfl

theorem isAggregate_emptied (f : SelectField) : f.emptied.isAggregate = f.isAggregate := by
  cases f with
  | column | aggregate => rfl
  | expression e label => exact e.containsAggregate_emptied

theorem toSql_paired (d : Dialect) (f : SelectField) :
    Paired Twin (f.toSql d) (f.emptied.toSql d) f.strings := by
  cases f with
  | column name label => exact identifier_paired name
  | aggregate func field label =>
      cases field with
      | none => exact .ok ((Twin.plain "*" (by decide)).aggregateCall func)
      | some name => exact (identifier_paired name).bind fun _ _ h => .ok (h.aggregateCall func)
  | expression e label => exact RowPipeline.toSql_paired d e

end SelectField

theorem Paired.mapM {α : Type} {f f₀ : α → Rendered} {contents : α → List String}
    (h : ∀ a, Paired Twin (f a) (f₀ a) (contents a)) (list : List α) :
    Paired Twins (list.mapM f) (list.mapM f₀) (list.flatMap contents) := by
  induction list with
  | nil => exact .ok .nil
  | cons a rest ih =>
      rw [List.mapM_cons, List.mapM_cons, List.flatMap_cons]
      refine (h a).bind fun text text₀ hfirst => ih.bind fun texts texts₀ hrest => ?_
      exact .ok (.cons hfirst hrest)

/-- Texts that are the same on both sides. -/
theorem Paired.each {α : Type} {f : α → Rendered} (h : ∀ a, Paired Twin (f a) (f a) [])
    (list : List α) : Paired Twins (list.mapM f) (list.mapM f) [] := by
  have hall := Paired.mapM h list
  rwa [List.flatMap_eq_nil_iff.2 fun _ _ => rfl] at hall

namespace SelectSpec

/-- A statement with its strings emptied. -/
def emptied (s : SelectSpec) : SelectSpec :=
  { s with
    fields := s.fields.map SelectField.emptied
    filter := s.filter.map FilterNode.emptied
    having := s.having.map FilterNode.emptied }

theorem aliased_paired {sql sql₀ : String} {xs : List String} (h : Twin sql sql₀ xs)
    (label : Option String) : Paired Twin (aliased sql label) (aliased sql₀ label) xs := by
  cases label with
  | none => exact .ok h
  | some label =>
      refine (identifier_paired label).bind fun name name₀ hname => .ok ?_
      have happend := h.append (hname.joint " AS " (by decide))
      simpa only [String.append_assoc, List.append_nil] using happend

theorem joinLine_paired (j : JoinClause) : Paired Twin (joinLine j) (joinLine j) [] := by
  have hon : Paired Twins (j.on.mapM fun on => do
        let left ← identifier on.left
        return left ++ " = " ++ (← identifier on.right))
      (j.on.mapM fun on => do
        let left ← identifier on.left
        return left ++ " = " ++ (← identifier on.right)) [] := by
    refine .each (fun on => ?_) j.on
    refine (identifier_paired on.left).bind fun left left₀ hleft => ?_
    refine (identifier_paired on.right).bind fun right right₀ hright => .ok ?_
    have hboth := hleft.append (hright.joint " = " (by decide))
    simpa only [String.append_assoc, List.append_nil] using hboth
  have hkeyword : isLead (j.type.keyword ++ " JOIN ") = true := by cases j.type <;> decide
  rw [joinLine]
  split
  · exact .error _
  · refine (identifier_paired j.table).bind fun name name₀ hname => ?_
    refine (aliased_paired hname j.tableAlias).bind fun table table₀ htable => ?_
    refine hon.bind fun conditions conditions₀ hconditions => .ok ?_
    have hlist := (hconditions.intercalate " AND " (by decide)).joint " ON " (by decide)
    simpa only [String.append_assoc, List.append_nil] using (htable.append hlist).behind _ hkeyword

/-! ## The clauses -/

def whereClause (d : Dialect) (s : SelectSpec) : Except SqlError (List String) :=
  match s.filter with
  | some n => do return ["WHERE " ++ (← n.toSql d)]
  | none => pure []

def groupClause (s : SelectSpec) : Except SqlError (List String) :=
  if s.groupBy.isEmpty then pure []
  else do return ["GROUP BY " ++ ", ".intercalate (← s.groupBy.mapM identifier)]

def havingClause (d : Dialect) (s : SelectSpec) : Except SqlError (List String) :=
  match s.having with
  | some n => do return ["HAVING " ++ (← n.toSqlWith d (s.havingColumn d))]
  | none => pure []

theorem body_eq (d : Dialect) (s : SelectSpec) : s.body d = do
    let source ← aliased ("FROM " ++ (← identifier s.table)) s.tableAlias
    let joins ← s.joins.mapM joinLine
    let filter ← s.whereClause d
    let groups ← s.groupClause
    let having ← s.havingClause d
    return [source] ++ joins ++ filter ++ groups ++ having := by
  rw [body, whereClause, groupClause, havingClause]
  -- each clause goes on with the rest of the text in either case
  cases s.filter <;> cases s.groupBy.isEmpty <;> cases s.having <;>
    simp only [bind_assoc, pure_bind, if_true, if_false, Bool.false_eq_true]

/-- The strings in what HAVING writes for a name. -/
def columnStrings (s : SelectSpec) (name : String) : List String :=
  match s.fields.find? fun f => f.isAggregate && f.outputName == name with
  | some f => f.strings
  | none => []

def fieldStrings (s : SelectSpec) : List String := s.fields.flatMap SelectField.strings

def filterStrings (s : SelectSpec) : List String := s.filter.elim [] (·.strings fun _ => [])

def havingStrings (s : SelectSpec) : List String := s.having.elim [] (·.strings s.columnStrings)

theorem havingColumn_paired (d : Dialect) (s : SelectSpec) (name : String) :
    Paired Twin (s.havingColumn d name) (s.emptied.havingColumn d name) (s.columnStrings name) := by
  have hfind : s.emptied.fields.find? (fun f => f.isAggregate && f.outputName == name)
      = (s.fields.find? fun f => f.isAggregate && f.outputName == name).map SelectField.emptied := by
    -- neither a name nor being an aggregate depends on strings
    have hsame : (fun f : SelectField => f.isAggregate && f.outputName == name) ∘ SelectField.emptied
        = fun f => f.isAggregate && f.outputName == name := by
      funext f
      simp only [Function.comp, SelectField.isAggregate_emptied, SelectField.outputName_emptied]
    rw [emptied, List.find?_map, hsame]
  rw [havingColumn, havingColumn, columnStrings, hfind]
  cases s.fields.find? fun f => f.isAggregate && f.outputName == name with
  | none => exact identifier_paired name
  | some f => exact f.toSql_paired d

theorem whereClause_paired (d : Dialect) (s : SelectSpec) :
    Paired Twins (s.whereClause d) (s.emptied.whereClause d) s.filterStrings := by
  rw [whereClause, whereClause, filterStrings, emptied]
  cases s.filter with
  | none => exact .ok .nil
  | some n =>
      refine (n.toSql_paired d identifier_paired).bind fun text text₀ h => .ok ?_
      exact .single (h.behind "WHERE " (by decide))

theorem groupClause_paired (s : SelectSpec) : Paired Twins s.groupClause s.groupClause [] := by
  rw [groupClause]
  split
  · exact .ok .nil
  · refine (Paired.each identifier_paired s.groupBy).bind fun names names₀ h => .ok ?_
    exact .single ((h.intercalate ", " (by decide)).behind "GROUP BY " (by decide))

theorem havingClause_paired (d : Dialect) (s : SelectSpec) :
    Paired Twins (s.havingClause d) (s.emptied.havingClause d) s.havingStrings := by
  rw [havingClause, havingClause, havingStrings]
  cases hhaving : s.having with
  | none =>
      rw [emptied, hhaving]
      exact .ok .nil
  | some n =>
      have hemptied : s.emptied.having = some n.emptied := by rw [emptied, hhaving, Option.map_some]
      rw [hemptied]
      refine (n.toSql_paired d (s.havingColumn_paired d)).bind fun text text₀ h => .ok ?_
      exact .single (h.behind "HAVING " (by decide))

theorem body_paired (d : Dialect) (s : SelectSpec) :
    Paired Twins (s.body d) (s.emptied.body d) (s.filterStrings ++ s.havingStrings) := by
  rw [body_eq, body_eq]
  refine (identifier_paired s.table).bind fun name name₀ hname => ?_
  refine (aliased_paired (hname.behind "FROM " (by decide)) s.tableAlias).bind
    fun source source₀ hsource => ?_
  refine (Paired.each joinLine_paired s.joins).bind fun joins joins₀ hjoins => ?_
  refine (s.whereClause_paired d).bind fun filter filter₀ hfilter => ?_
  refine s.groupClause_paired.bind fun groups groups₀ hgroups => ?_
  refine (s.havingClause_paired d).bind fun having having₀ hhaving => .ok ?_
  have hclauses := ((((Twins.single hsource).append hjoins).append hfilter).append hgroups).append
    hhaving
  rwa [List.append_nil] at hclauses

theorem selectList_paired (d : Dialect) (s : SelectSpec) :
    Paired Twin (s.selectList d) (s.emptied.selectList d) s.fieldStrings := by
  have hempty : s.emptied.fields.isEmpty = s.fields.isEmpty := by rw [emptied, List.isEmpty_map]
  rw [selectList, selectList, hempty, fieldStrings]
  split
  · rename_i hnone
    rw [List.isEmpty_iff.1 hnone]
    exact .ok (.plain "*" (by decide))
  · have hfields : Paired Twins (s.fields.mapM fun f => do aliased (← f.toSql d) f.label?)
        (s.emptied.fields.mapM fun f => do aliased (← f.toSql d) f.label?)
        (s.fields.flatMap SelectField.strings) := by
      rw [emptied, List.mapM_map]
      refine .mapM (fun f => ?_) s.fields
      simp only [Function.comp, SelectField.label?_emptied]
      exact (f.toSql_paired d).bind fun sql sql₀ h => aliased_paired h f.label?
    exact hfields.bind fun texts texts₀ h => .ok (h.intercalate ", " (by decide))

/-! ## Order and window -/

/-- The labels of a select list that is written are plain names. -/
theorem labels_valid {d : Dialect} {s : SelectSpec} {sql : String} (h : s.selectList d = .ok sql) :
    ∀ label, some label ∈ s.fields.map SelectField.label? → isValidIdentifier label = true := by
  intro label hlabel
  obtain ⟨f, hf, hlabel⟩ := List.mem_map.1 hlabel
  have hsome : s.fields.isEmpty = false := by
    rw [List.isEmpty_eq_false_iff]
    exact List.ne_nil_of_mem hf
  rw [selectList, hsome] at h
  obtain ⟨texts, htexts, -⟩ := bind_eq_ok h
  obtain ⟨text, -, htext⟩ := exists_of_mapM htexts hf
  obtain ⟨sql, -, haliased⟩ := bind_eq_ok htext
  rw [hlabel] at haliased
  obtain ⟨name, hname, -⟩ := bind_eq_ok haliased
  rw [identifier] at hname
  split at hname
  · assumption
  · cases hname

theorem orderClause_emptied (s : SelectSpec) : s.emptied.orderClause = s.orderClause := by
  have hlabels : s.emptied.fields.map SelectField.label? = s.fields.map SelectField.label? := by
    rw [emptied, List.map_map]
    exact List.map_congr_left fun f _ => f.label?_emptied
  rw [orderClause, orderClause, hlabels]
  rfl

theorem orderClause_paired (s : SelectSpec)
    (hlabels : ∀ label, some label ∈ s.fields.map SelectField.label? → isValidIdentifier label = true) :
    Paired OptionTwin s.orderClause s.orderClause [] := by
  rw [orderClause]
  split
  · exact .ok .none
  · refine (Paired.each (fun key => ?_) s.orderBy).bind fun keys keys₀ hkeys => ?_
    · have hend : isEnd (if key.descending then " DESC" else " ASC") = true := by
        cases key.descending <;> decide
      by_cases hlabel : some key.field ∈ s.fields.map SelectField.label?
      · simp only [if_pos hlabel, pure_bind]
        have hfield := Twin.fixed (harmless_spec (isHarmless_identifier (hlabels key.field hlabel)))
        exact .ok (hfield.closed _ hend)
      · simp only [if_neg hlabel]
        exact (identifier_paired key.field).bind fun field field₀ hfield => .ok (hfield.closed _ hend)
    · exact .ok (.some ((hkeys.intercalate ", " (by decide)).behind "ORDER BY " (by decide)))

theorem pagination_twin (d : Dialect) (limit offset : Option UInt64) :
    ∀ text ∈ d.pagination limit offset, Twin text text [] := by
  intro text htext
  have hnumber (n : UInt64) : Twin (toString n.toNat) (toString n.toNat) [] :=
    .fixed (harmless_spec (isHarmless_toString n.toNat))
  have hlead (n : UInt64) (g : String) (hg : isLead g = true) := (hnumber n).behind g hg
  unfold Dialect.pagination at htext
  generalize offset.filter (0 < ·) = offset at htext
  dsimp only at htext
  split at htext
  · cases htext
  · obtain rfl := Option.some.inj htext
    have hrows := (hlead (offset.getD 0) "OFFSET " (by decide)).closed " ROWS" (by decide)
    cases limit with
    | none => exact hrows.closed "" (by decide)
    | some n =>
        have hnext := ((hnumber n).closed " ROWS ONLY" (by decide)).joint " FETCH NEXT " (by decide)
        simpa only [String.append_assoc, List.append_nil] using hrows.append hnext
  · obtain rfl := Option.some.inj htext
    exact hlead _ "LIMIT " (by decide)
  · rename_i n o _
    obtain rfl := Option.some.inj htext
    have hlimit := hlead n "LIMIT " (by decide)
    have hboth := hlimit.append ((hnumber o).joint " OFFSET " (by decide))
    simpa only [String.append_assoc, List.append_nil] using hboth
  · obtain rfl := Option.some.inj htext
    exact hlead _ "LIMIT 18446744073709551615 OFFSET " (by decide)
  · obtain rfl := Option.some.inj htext
    exact hlead _ "LIMIT -1 OFFSET " (by decide)
  · obtain rfl := Option.some.inj htext
    exact hlead _ "OFFSET " (by decide)

/-! ## Statements -/

/-- The strings in the text of a statement. -/
def strings (s : SelectSpec) : List String := s.fieldStrings ++ (s.filterStrings ++ s.havingStrings)

/-- The strings in the text that counts: those of the fields only where groups are counted. -/
def countStrings (s : SelectSpec) : List String :=
  if s.isGrouped then s.strings else s.filterStrings ++ s.havingStrings

/-- ORDER BY, or a substitute where a window of rows calls for one. -/
def orderLines (implied : Bool) : Option String → List String
  | some clause => [clause]
  | none => if implied then ["ORDER BY (SELECT NULL)"] else []

theorem orderLines_twins {order order₀ : Option String} (h : OptionTwin order order₀ [])
    (implied : Bool) : Twins (orderLines implied order) (orderLines implied order₀) [] := by
  cases h with
  | some h => exact .single h
  | none =>
      cases implied with
      | false => exact .nil
      | true => exact .single (.plain _ (by decide))

theorem pagination_twins (d : Dialect) (s : SelectSpec) :
    Twins (d.pagination s.limit s.offset).toList (d.pagination s.limit s.offset).toList [] := by
  cases hpages : d.pagination s.limit s.offset with
  | none => exact .nil
  | some text => exact .single (pagination_twin d s.limit s.offset text hpages)

theorem isLead_select (distinct : Bool) :
    isLead ("SELECT " ++ if distinct then "DISTINCT " else "") = true := by
  cases distinct <;> decide

/-- The text of a statement and that of the same one with its strings emptied. -/
theorem toSql_paired (d : Dialect) (s : SelectSpec) :
    Paired Twin (s.toSql d) (s.emptied.toSql d) s.strings := by
  rw [toSql, toSql, head, head, orderClause_emptied]
  simp only [bind_assoc, pure_bind]
  -- ORDER BY takes a label as it is: the select list has checked that it is a plain name
  refine (s.selectList_paired d).chain fun fields fields₀ hok hfields => ?_
  refine (s.body_paired d).bind fun body body₀ hbody => ?_
  refine (s.orderClause_paired (labels_valid hok)).bind fun order order₀ horder => .ok ?_
  have hhead := Twins.cons (hfields.behind _ (isLead_select s.distinct)) hbody
  have hlines := (hhead.append (orderLines_twins horder
    ((d.pagination s.limit s.offset).isSome && d.requiresOrderForPagination))).append
    (s.pagination_twins d)
  rw [List.append_nil, List.append_nil] at hlines
  exact hlines.intercalate "\n" (by decide)

/-- The counting text of a statement and that of the same one with its strings emptied. -/
theorem toCountSql_paired (d : Dialect) (s : SelectSpec) :
    Paired Twin (s.toCountSql d) (s.emptied.toCountSql d) s.countStrings := by
  have hgrouped : s.emptied.isGrouped = s.isGrouped := rfl
  have hdistinct : s.emptied.distinct = s.distinct := rfl
  rw [toCountSql, toCountSql, head, head, hgrouped, hdistinct, countStrings, strings]
  simp only [bind_assoc, pure_bind]
  refine (s.selectList_paired d).bind fun fields fields₀ hfields => ?_
  refine (s.body_paired d).bind fun body body₀ hbody => ?_
  split
  · refine .ok ?_
    have hhead := Twins.cons (hfields.behind _ (isLead_select s.distinct)) hbody
    have hquery := (hhead.intercalate "\n" (by decide)).closed ") AS grouped_count" (by decide)
    have hcount := hquery.behind "SELECT COUNT(*) AS total_count\nFROM (" (by decide)
    rwa [← String.append_assoc, ← String.append_assoc] at hcount
  · refine .ok ?_
    have hcount := Twins.cons (.plain "SELECT COUNT(*) AS total_count" (by decide)) hbody
    exact hcount.intercalate "\n" (by decide)

end SelectSpec

/-- The same error twice, or two texts with the same tokens up to the contents of strings, which are
`xs` and `ys`. -/
def SameBut (xs ys : List String) : Rendered → Rendered → Prop
  | .error e, .error e' => e = e'
  | .ok sql, .ok sql' => (tokens sql).map Token.blank = (tokens sql').map Token.blank ∧
      Ansi.strings sql = xs ∧ Ansi.strings sql' = ys
  | _, _ => False

theorem Paired.sameBut {x x' x₀ : Rendered} {xs ys : List String} (h : Paired Twin x x₀ xs)
    (h' : Paired Twin x' x₀ ys) : SameBut xs ys x x' := by
  cases h with
  | error e =>
      cases h' with
      | error e => exact rfl
  | ok h =>
      cases h' with
      | ok h' => exact ⟨h.same.trans h'.same.symm, h.strings, h'.strings⟩

/-- Statements that differ in the contents of strings alone are both written or both fail, and so are
the statements that count; the texts have the same tokens, with the strings of each statement in the
places of strings. -/
theorem SelectSpec.strings_contained {s s' : SelectSpec} (h : s'.emptied = s.emptied) (d : Dialect) :
    SameBut s.strings s'.strings (s.toSql d) (s'.toSql d) ∧
      SameBut s.countStrings s'.countStrings (s.toCountSql d) (s'.toCountSql d) := by
  have hsql := s'.toSql_paired d
  have hcount := s'.toCountSql_paired d
  rw [h] at hsql hcount
  exact ⟨(s.toSql_paired d).sameBut hsql, (s.toCountSql_paired d).sameBut hcount⟩

theorem SelectSpec.strings_contained_comment : ∃ s s' : SelectSpec, s'.emptied = s.emptied ∧
    s'.toSql .generic = .ok ("SELECT MAX(CONCAT(name, '''')) AS top\nFROM people\n" ++
      "WHERE city = ''' OR 1 = 1 -- '\nHAVING MAX(CONCAT(name, '''')) > 'b'") ∧
    s'.strings = ["'", "' OR 1 = 1 -- ", "'", "b"] ∧
    SameBut s.strings s'.strings (s.toSql .generic) (s'.toSql .generic) ∧
      SameBut s.countStrings s'.countStrings (s.toCountSql .generic) (s'.toCountSql .generic) := by
  obtain ⟨spec, hspec⟩ : ∃ spec : String → String → String → SelectSpec, spec = fun x y z =>
      { SelectSpec.allOf "people" with
        fields := [.expression
          (.aggregate .max (some (.call .concat [.field "name", .literal (.string x)]))) "top"]
        filter := some (.leaf ⟨"city", .eq, .string y, none⟩)
        having := some (.leaf ⟨"top", .gt, .string z, none⟩) } := ⟨_, rfl⟩
  have hsame : (spec "'" "' OR 1 = 1 -- " "b").emptied = (spec "!" "Oslo" "a").emptied := by
    rw [hspec]
    rfl
  refine ⟨spec "!" "Oslo" "a", spec "'" "' OR 1 = 1 -- " "b", hsame, ?_, ?_,
    SelectSpec.strings_contained hsame .generic⟩
  · rw [hspec]
    decide +kernel
  · rw [hspec]
    decide +kernel

end RowPipeline
