import RowPipeline.Sql.Render

/-!
# SELECT statements

A statement is described by a value and written clause by clause, one clause a line. Counting leaves
out the order and the window of rows, and counts groups through a subquery.
-/

namespace RowPipeline

inductive SelectField where
  | column (name : String) (label : Option String)
  | aggregate (func : AggregateFunction) (field : Option String) (label : String)
  | expression (e : Expr) (label : String)

namespace SelectField

def outputName : SelectField → String
  | .column name label => label.getD name
  | .aggregate _ _ label => label
  | .expression _ label => label

def label? : SelectField → Option String
  | .column _ label => label
  | .aggregate _ _ label => some label
  | .expression _ label => some label

/-- The text of a field without its label. -/
def toSql (d : Dialect) : SelectField → Sql.Rendered
  | .column name _ => Sql.identifier name
  | .aggregate func field _ => do
      let inner ← match field with
        | some name => Sql.identifier name
        | none => .ok "*"
      return Sql.aggregateCall func inner
  | .expression e _ => e.toSql d

def isAggregate : SelectField → Bool
  | .aggregate .. => true
  | .expression e _ => e.containsAggregate
  | .column .. => false

end SelectField

inductive JoinType where
  | inner
  | left
  | right
  | full
deriving DecidableEq

namespace JoinType

def keyword : JoinType → String
  | .inner => "INNER"
  | .left => "LEFT"
  | .right => "RIGHT"
  | .full => "FULL"

def ofName? (text : String) : Option JoinType :=
  match Text.asciiLower (Text.trimBlanks text) with
  | "inner" => some .inner
  | "left" | "left_outer" => some .left
  | "right" | "right_outer" => some .right
  | "full" | "outer" | "full_outer" => some .full
  | _ => none

/-- Read the name of a join type. -/
def read (text : String) : Except ParseError JoinType :=
  match ofName? text with
  | some type => .ok type
  | none => .error (.of ("Unknown join type '" ++ text ++ "'"))

end JoinType

/-- One equality of a join condition. -/
structure JoinOn where
  left : String
  right : String
deriving DecidableEq

/-- An equality written as two names around its only equals sign. -/
def JoinOn.ofText? (text : String) : Option JoinOn :=
  let cs := text.toList
  match cs.dropWhile (· != '=') with
  | [] => none
  | _ :: right =>
      if right.contains '=' then none
      else
        let side (cs : List Char) := Text.trimBlanks (String.ofList cs)
        some ⟨side (cs.takeWhile (· != '=')), side right⟩

/-- Read an equality of a join condition. -/
def JoinOn.read (text : String) : Except ParseError JoinOn :=
  match ofText? text with
  | some on => .ok on
  | none => .error (.of ("join condition must be 'left = right', got '" ++ text ++ "'"))

structure JoinClause where
  type : JoinType
  table : String
  tableAlias : Option String
  on : List JoinOn

/-- The name the columns of the joined table go under. -/
def JoinClause.qualifier (j : JoinClause) : String := j.tableAlias.getD j.table

structure OrderBy where
  field : String
  descending : Bool
deriving DecidableEq

/-- The words of a text. -/
def wordsOf : List Char → List Char → List String
  | word, [] => if word.isEmpty then [] else [String.ofList word.reverse]
  | word, c :: rest =>
      if Text.isBlank c then
        if word.isEmpty then wordsOf [] rest else String.ofList word.reverse :: wordsOf [] rest
      else wordsOf (c :: word) rest

/-- A column and perhaps a direction; anything but `desc` is ascending. -/
def OrderBy.ofText (text : String) : OrderBy :=
  match wordsOf [] text.toList with
  | [] => ⟨"", false⟩
  | [field] => ⟨field, false⟩
  | field :: direction :: _ => ⟨field, Text.sameIgnoringCase direction "desc"⟩

structure SelectSpec where
  fields : List SelectField
  table : String
  tableAlias : Option String
  joins : List JoinClause
  filter : Option FilterNode
  groupBy : List String
  having : Option FilterNode
  orderBy : List OrderBy
  limit : Option UInt64
  offset : Option UInt64
  distinct : Bool

namespace SelectSpec

open Sql

/-- Everything from a table. -/
def allOf (table : String) : SelectSpec :=
  ⟨[], table, none, [], none, [], none, [], none, none, false⟩

/-- Whether rows of the statement stand for several rows of the table. -/
def isGrouped (s : SelectSpec) : Bool := s.distinct || !s.groupBy.isEmpty

def aliased (sql : String) (label : Option String) : Rendered :=
  match label with
  | some label => do return sql ++ " AS " ++ (← identifier label)
  | none => .ok sql

def selectList (d : Dialect) (s : SelectSpec) : Rendered :=
  if s.fields.isEmpty then .ok "*"
  else do
    let fields ← s.fields.mapM fun f => do aliased (← f.toSql d) f.label?
    return ", ".intercalate fields

def joinLine (j : JoinClause) : Rendered := do
  if j.on.isEmpty then throw (.joinWithoutCondition j.table)
  let table ← aliased (← identifier j.table) j.tableAlias
  let conditions ← j.on.mapM fun on => do
    let left ← identifier on.left
    return left ++ " = " ++ (← identifier on.right)
  return j.type.keyword ++ " JOIN " ++ table ++ " ON " ++ " AND ".intercalate conditions

/-- How HAVING writes a name: the aggregate it is the output name of, else a column. -/
def havingColumn (d : Dialect) (s : SelectSpec) (name : String) : Rendered :=
  match s.fields.find? fun f => f.isAggregate && f.outputName == name with
  | some f => f.toSql d
  | none => identifier name

/-- The clauses after the select list, up to HAVING. -/
def body (d : Dialect) (s : SelectSpec) : Except SqlError (List String) := do
  let source ← aliased ("FROM " ++ (← identifier s.table)) s.tableAlias
  let joins ← s.joins.mapM joinLine
  let filter ← match s.filter with
    | some n => do pure ["WHERE " ++ (← n.toSql d)]
    | none => pure []
  let groups ← if s.groupBy.isEmpty then pure []
    else do pure ["GROUP BY " ++ ", ".intercalate (← s.groupBy.mapM identifier)]
  let having ← match s.having with
    | some n => do pure ["HAVING " ++ (← n.toSqlWith d (s.havingColumn d))]
    | none => pure []
  return [source] ++ joins ++ filter ++ groups ++ having

/-- The select list and the clauses up to HAVING. -/
def head (d : Dialect) (s : SelectSpec) : Except SqlError (List String) := do
  let fields ← s.selectList d
  let body ← s.body d
  return ("SELECT " ++ (if s.distinct then "DISTINCT " else "") ++ fields) :: body

/-- ORDER BY; an output name is taken as it is. -/
def orderClause (s : SelectSpec) : Except SqlError (Option String) :=
  if s.orderBy.isEmpty then .ok none
  else do
    let keys ← s.orderBy.mapM fun key => do
      let field ← if some key.field ∈ s.fields.map SelectField.label? then pure key.field
        else identifier key.field
      return field ++ (if key.descending then " DESC" else " ASC")
    return some ("ORDER BY " ++ ", ".intercalate keys)

/-- The whole statement. -/
def toSql (d : Dialect) (s : SelectSpec) : Rendered := do
  let head ← s.head d
  let pages := d.pagination s.limit s.offset
  let order ← s.orderClause
  let order := match order with
    | some clause => [clause]
    | none =>
        if pages.isSome && d.requiresOrderForPagination then ["ORDER BY (SELECT NULL)"] else []
  return "\n".intercalate (head ++ order ++ pages.toList)

/-- The statement that counts the rows of the whole one, its order and window left out. -/
def toCountSql (d : Dialect) (s : SelectSpec) : Rendered := do
  let head ← s.head d
  if s.isGrouped then
    return "SELECT COUNT(*) AS total_count\nFROM (" ++ "\n".intercalate head ++ ") AS grouped_count"
  else return "\n".intercalate ("SELECT COUNT(*) AS total_count" :: head.tail)

end SelectSpec

end RowPipeline
