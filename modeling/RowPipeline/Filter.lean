import RowPipeline.Expr.Eval

/-!
# Filter trees

Conditions on fields joined by AND and OR. A condition can carry a gate that decides from the
parameters whether it takes part at all.
-/

namespace RowPipeline

inductive LogicalOp where
  | and
  | or
deriving DecidableEq

def LogicalOp.keyword : LogicalOp → String
  | .and => "AND"
  | .or => "OR"

inductive FilterOperator where
  | eq
  | notEq
  | gt
  | gtEq
  | lt
  | ltEq
  | isIn
  | notIn
  | between
  | like
  | notLike
  | isNull
  | isNotNull
deriving DecidableEq

namespace FilterOperator

def sql : FilterOperator → String
  | .eq => "="
  | .notEq => "!="
  | .gt => ">"
  | .gtEq => ">="
  | .lt => "<"
  | .ltEq => "<="
  | .isIn => "IN"
  | .notIn => "NOT IN"
  | .between => "BETWEEN"
  | .like => "LIKE"
  | .notLike => "NOT LIKE"
  | .isNull => "IS NULL"
  | .isNotNull => "IS NOT NULL"

/-- Whether the operator looks at the field alone. -/
def isUnary : FilterOperator → Bool
  | .isNull | .isNotNull => true
  | _ => false

/-- The spellings of an operator; case, blanks around it, and underscores and spaces in it do not
count. -/
def ofName? (name : String) : Option FilterOperator :=
  let normal := (Text.asciiLower (Text.trimBlanks name)).toList.filter fun c => c != '_' && c != ' '
  match String.ofList normal with
  | "=" | "==" | "eq" => some .eq
  | "!=" | "<>" | "ne" | "neq" => some .notEq
  | ">" | "gt" => some .gt
  | ">=" | "gte" | "ge" => some .gtEq
  | "<" | "lt" => some .lt
  | "<=" | "lte" | "le" => some .ltEq
  | "in" => some .isIn
  | "notin" => some .notIn
  | "between" => some .between
  | "like" => some .like
  | "notlike" => some .notLike
  | "isnull" => some .isNull
  | "isnotnull" | "notnull" => some .isNotNull
  | _ => none

end FilterOperator

/-- When a condition takes part. -/
inductive Gate where
  | parameterExists (name : String)
  | parameterNotEmpty (name : String) (emptyValues : List Value)
  | allParametersExist (names : List String)
  | expression (text : String)

/-- What counts as empty unless a gate says otherwise: null and the empty array. -/
def Gate.defaultEmptyValues : List Value := [.null, .array []]

structure FilterCondition where
  field : String
  operator : FilterOperator
  value : Value
  gate : Option Gate

inductive FilterNode where
  | logical (op : LogicalOp) (children : List FilterNode)
  | leaf (c : FilterCondition)

namespace FilterCondition

/-- The number a text holds, blanks around it aside. -/
def numberInText? (v : Value) : Option Float :=
  v.toString?.bind fun s => Decimal.readFloat? (Text.trimBlanks s)

/-- The order a condition compares by: a number and a text are compared as numbers if the text holds
one. -/
def coercedCompare? (a b : Value) : Option Ordering :=
  match a.compare? b with
  | some order => some order
  | none =>
      match a.toFloat? with
      | some x => (numberInText? b).bind fun y => Binary64.compare? x y
      | none =>
          match b.toFloat? with
          | some y => (numberInText? a).bind fun x => Binary64.compare? x y
          | none => none

def equals (a b : Value) : Bool := coercedCompare? a b == some .eq

def atLeast (a b : Value) : Bool :=
  coercedCompare? a b == some .gt || coercedCompare? a b == some .eq

def atMost (a b : Value) : Bool :=
  coercedCompare? a b == some .lt || coercedCompare? a b == some .eq

/-- The values a list operator looks through; a single value is a list of one. -/
def candidates : Value → List Value
  | .array items => items
  | v => [v]

/-- Whether a present value meets the condition. -/
def holdsOf (c : FilterCondition) (actual : Value) : Bool :=
  match c.operator with
  | .eq => equals actual c.value
  | .notEq => !c.value.isNull && !equals actual c.value
  | .gt => coercedCompare? actual c.value == some .gt
  | .gtEq => atLeast actual c.value
  | .lt => coercedCompare? actual c.value == some .lt
  | .ltEq => atMost actual c.value
  | .isIn => (candidates c.value).any (equals actual)
  | .notIn => !(candidates c.value).any (equals actual)
  | .between =>
      match c.value with
      | .array [low, high] => atLeast actual low && atMost actual high
      | _ => false
  | .like =>
      match c.value with
      | .string pattern => Text.like actual.display pattern
      | _ => false
  | .notLike =>
      match c.value with
      | .string pattern => !Text.like actual.display pattern
      | _ => false
  | .isNull | .isNotNull => false

/-- Whether a row meets the condition. A missing field is null, and null meets only IS NULL. -/
def holds (c : FilterCondition) (row : Row) : Bool :=
  let actual := row.lookupD c.field
  match c.operator with
  | .isNull => actual.isNull
  | .isNotNull => !actual.isNull
  | _ => !actual.isNull && c.holdsOf actual

end FilterCondition

namespace FilterNode

mutual

/-- Whether a row is accepted. -/
def accepts (row : Row) : FilterNode → Bool
  | .leaf c => c.holds row
  | .logical .and children => allAccept row children
  | .logical .or children => anyAccepts row children

def allAccept (row : Row) : List FilterNode → Bool
  | [] => true
  | n :: rest => n.accepts row && allAccept row rest

def anyAccepts (row : Row) : List FilterNode → Bool
  | [] => false
  | n :: rest => n.accepts row || anyAccepts row rest

end

mutual

/-- The conditions of a tree from left to right. -/
def leaves : FilterNode → List FilterCondition
  | .leaf c => [c]
  | .logical _ children => leavesOf children

def leavesOf : List FilterNode → List FilterCondition
  | [] => []
  | n :: rest => n.leaves ++ leavesOf rest

end

end FilterNode

end RowPipeline
