import RowPipeline.Filter
import RowPipeline.Sql.Dialect

/-!
# SQL text of identifiers, literals, filters and expressions

Column names go through a function, so that the place of use decides how a name is written.
Everything else is fixed by the dialect.
-/

namespace RowPipeline

/-- Why there is no SQL text. -/
inductive SqlError where
  | invalidIdentifier (name : String)
  | betweenNeedsPair (field : String)
  | unresolvedParameter (name : String)
  | joinWithoutCondition (table : String)
deriving DecidableEq

def SqlError.message : SqlError → String
  | .invalidIdentifier name => "Invalid SQL identifier '" ++ name ++ "'"
  | .betweenNeedsPair field => "BETWEEN on '" ++ field ++ "' requires a [low, high] pair"
  | .unresolvedParameter name => "Unresolved parameter '$" ++ name ++ "'"
  | .joinWithoutCondition table => "Join with '" ++ table ++ "' has no condition"

namespace Sql

abbrev Rendered := Except SqlError String

/-- A plain name: a letter or underscore, then letters, digits and underscores. -/
def isIdentifierPart (cs : List Char) : Bool :=
  match cs with
  | [] => false
  | c :: rest =>
      (Text.isAsciiLetter c || c == '_') &&
        rest.all fun c => Text.isAsciiLetter c || Text.isAsciiDigit c || c == '_'

/-- A plain name, or two of them with a point between. -/
def isValidIdentifier (name : String) : Bool :=
  let cs := name.toList
  match cs.dropWhile (· != '.') with
  | [] => isIdentifierPart cs
  | _ :: column => isIdentifierPart (cs.takeWhile (· != '.')) && isIdentifierPart column

def identifier (name : String) : Rendered :=
  if isValidIdentifier name then .ok name else .error (.invalidIdentifier name)

/-- A text between single quotes, each quote in it doubled. -/
def quoteString (s : String) : String :=
  String.ofList ('\'' ::
    (s.toList.flatMap fun c => if c = '\'' then ['\'', '\''] else [c]) ++ ['\''])

mutual

/-- The literal of a value. A double that is no number is NULL, an object its text. -/
def literal (d : Dialect) : Value → String
  | .null => "NULL"
  | .bool b => d.boolean b
  | .int i => toString i.toInt
  | .float x => if x.isFinite then Decimal.plainLayout.write x else "NULL"
  | .string s => quoteString s
  | .array items => "(" ++ ", ".intercalate (literals d items) ++ ")"
  | .object fields => quoteString (Value.object fields).canonicalKey

def literals (d : Dialect) : List Value → List String
  | [] => []
  | v :: rest => literal d v :: literals d rest

end

end Sql

open Sql

/-- The SQL text of a condition. -/
def FilterCondition.toSql (d : Dialect) (column : String → Rendered) (c : FilterCondition) :
    Rendered := do
  let field ← column c.field
  match c.operator with
  | .isNull | .isNotNull => return field ++ " " ++ c.operator.sql
  | .isIn | .notIn =>
      match FilterCondition.candidates c.value with
      | [] => return if c.operator = .isIn then "1 = 0" else "1 = 1"
      | items => return field ++ " " ++ c.operator.sql ++ " " ++ literal d (.array items)
  | .between =>
      match c.value with
      | .array [low, high] =>
          return field ++ " BETWEEN " ++ literal d low ++ " AND " ++ literal d high
      | _ => throw (.betweenNeedsPair c.field)
  | op => return field ++ " " ++ op.sql ++ " " ++ literal d c.value

namespace FilterNode

mutual

/-- The SQL text of a tree. A group of one is its member, an empty one a constant. -/
def toSqlWith (d : Dialect) (column : String → Rendered) : FilterNode → Rendered
  | .leaf c => c.toSql d column
  | .logical _ [only] => only.toSqlWith d column
  | .logical .and [] => .ok "1 = 1"
  | .logical .or [] => .ok "1 = 0"
  | .logical op (first :: second :: rest) => do
      let a ← first.toSqlWith d column
      let b ← second.toSqlWith d column
      let others ← toSqlAll d column rest
      return "(" ++ (" " ++ op.keyword ++ " ").intercalate (a :: b :: others) ++ ")"

def toSqlAll (d : Dialect) (column : String → Rendered) :
    List FilterNode → Except SqlError (List String)
  | [] => .ok []
  | n :: rest => do
      let sql ← n.toSqlWith d column
      return sql :: (← toSqlAll d column rest)

end

def toSql (d : Dialect) (n : FilterNode) : Rendered := n.toSqlWith d identifier

end FilterNode

namespace Sql

def functionName (d : Dialect) (f : ScalarFunction) : String :=
  match d, f with
  | .sqlServer, .ceil => "CEILING"
  | .sqlServer, .length => "LEN"
  | .sqlServer, .substr => "SUBSTRING"
  | _, f => f.name

def operatorSymbol (op : BinaryOp) : String :=
  match op with
  | .notEq => "<>"
  | op => op.symbol

/-- An aggregate of an argument already written. -/
def aggregateCall (func : AggregateFunction) (inner : String) : String :=
  match func with
  | .countDistinct => "COUNT(DISTINCT " ++ inner ++ ")"
  | func => func.sqlName ++ "(" ++ inner ++ ")"

theorem aggregateCall_countDistinct (inner : String) :
    aggregateCall .countDistinct inner = "COUNT(DISTINCT " ++ inner ++ ")" := by
  delta aggregateCall
  rfl

theorem aggregateCall_of_ne {func : AggregateFunction} (h : func ≠ .countDistinct)
    (inner : String) : aggregateCall func inner = func.sqlName ++ "(" ++ inner ++ ")" := by
  delta aggregateCall
  cases func <;> first | rfl | exact absurd rfl h

def negation (negated : Bool) : String := if negated then "NOT " else ""

end Sql

namespace Expr

mutual

/-- The SQL text of an expression. -/
def toSqlWith (d : Dialect) (column : String → Rendered) : Expr → Rendered
  | .literal v => .ok (Sql.literal d v)
  | .field name => column name
  | .param name => .error (.unresolvedParameter name)
  | .unary .neg e => do return "-(" ++ (← e.toSqlWith d column) ++ ")"
  | .unary .not e => do return "NOT (" ++ (← e.toSqlWith d column) ++ ")"
  | .binary op l r => do
      let left ← l.toSqlWith d column
      let right ← r.toSqlWith d column
      return "(" ++ left ++ " " ++ operatorSymbol op ++ " " ++ right ++ ")"
  | .call f args => do
      return functionName d f ++ "(" ++ ", ".intercalate (← listToSql d column args) ++ ")"
  | .aggregate f arg => do return aggregateCall f (← argumentToSql d column arg)
  | .window _ spec => specToSql d column spec
  | .case operand branches otherwise => do
      let subject ← optionToSql d column operand
      let cases ← branchesToSql d column branches
      let last ← optionToSql d column otherwise
      return "CASE" ++ (match subject with
          | some s => " " ++ s
          | none => "") ++ String.join cases ++ (match last with
          | some s => " ELSE " ++ s
          | none => "") ++ " END"
  | .inList e list negated => do
      let subject ← e.toSqlWith d column
      let items ← listToSql d column list
      return subject ++ " " ++ negation negated ++ "IN (" ++ ", ".intercalate items ++ ")"
  | .between e low high negated => do
      let subject ← e.toSqlWith d column
      let low ← low.toSqlWith d column
      let high ← high.toSqlWith d column
      return subject ++ " " ++ negation negated ++ "BETWEEN " ++ low ++ " AND " ++ high
  | .like e pattern negated => do
      let subject ← e.toSqlWith d column
      let pattern ← pattern.toSqlWith d column
      return subject ++ " " ++ negation negated ++ "LIKE " ++ pattern
  | .isNull e negated => do
      return (← e.toSqlWith d column) ++ " IS " ++ negation negated ++ "NULL"

def listToSql (d : Dialect) (column : String → Rendered) :
    List Expr → Except SqlError (List String)
  | [] => .ok []
  | e :: rest => do
      let sql ← e.toSqlWith d column
      return sql :: (← listToSql d column rest)

def optionToSql (d : Dialect) (column : String → Rendered) :
    Option Expr → Except SqlError (Option String)
  | none => .ok none
  | some e => do return some (← e.toSqlWith d column)

/-- The argument of an aggregate; a star when there is none. -/
def argumentToSql (d : Dialect) (column : String → Rendered) : Option Expr → Rendered
  | none => .ok "*"
  | some e => e.toSqlWith d column

def branchesToSql (d : Dialect) (column : String → Rendered) :
    List (Expr × Expr) → Except SqlError (List String)
  | [] => .ok []
  | (whenExpr, thenExpr) :: rest => do
      let condition ← whenExpr.toSqlWith d column
      let result ← thenExpr.toSqlWith d column
      return (" WHEN " ++ condition ++ " THEN " ++ result) :: (← branchesToSql d column rest)

def keysToSql (d : Dialect) (column : String → Rendered) :
    List (OrderKey Expr) → Except SqlError (List String)
  | [] => .ok []
  | ⟨e, descending⟩ :: rest => do
      let sql ← e.toSqlWith d column
      return (sql ++ (if descending then " DESC" else " ASC")) :: (← keysToSql d column rest)

def functionToSql (d : Dialect) (column : String → Rendered) : WindowFunction Expr → Rendered
  | .rowNumber => .ok "ROW_NUMBER()"
  | .rank => .ok "RANK()"
  | .denseRank => .ok "DENSE_RANK()"
  | .aggregate f arg => do return aggregateCall f (← argumentToSql d column arg)

def specToSql (d : Dialect) (column : String → Rendered) : WindowSpec Expr → Rendered
  | ⟨func, partitionBy, orderBy⟩ => do
      let head ← functionToSql d column func
      let partitions ← listToSql d column partitionBy
      let keys ← keysToSql d column orderBy
      let window :=
        (if partitions.isEmpty then [] else ["PARTITION BY " ++ ", ".intercalate partitions]) ++
        (if keys.isEmpty then [] else ["ORDER BY " ++ ", ".intercalate keys])
      return head ++ " OVER (" ++ " ".intercalate window ++ ")"

end

def toSql (d : Dialect) (e : Expr) : Rendered := e.toSqlWith d identifier

end Expr

end RowPipeline
