import RowPipeline.Value

/-!
# Expressions

The closed expression language: every expression can only read row fields, parameters and the listed
functions.
-/

namespace RowPipeline

inductive UnaryOp where
  | neg
  | not
deriving DecidableEq

inductive BinaryOp where
  | add
  | sub
  | mul
  | div
  | mod
  | eq
  | notEq
  | lt
  | ltEq
  | gt
  | gtEq
  | and
  | or
deriving DecidableEq

def BinaryOp.symbol : BinaryOp → String
  | .add => "+"
  | .sub => "-"
  | .mul => "*"
  | .div => "/"
  | .mod => "%"
  | .eq => "="
  | .notEq => "!="
  | .lt => "<"
  | .ltEq => "<="
  | .gt => ">"
  | .gtEq => ">="
  | .and => "AND"
  | .or => "OR"

inductive AggregateFunction where
  | sum
  | count
  | countDistinct
  | avg
  | min
  | max
deriving DecidableEq

namespace AggregateFunction

/-- The names documents give the aggregates, in any case. -/
def ofName? (name : String) : Option AggregateFunction :=
  match Text.asciiLower name with
  | "sum" => some .sum
  | "count" => some .count
  | "count_distinct" | "nunique" => some .countDistinct
  | "avg" | "mean" | "average" => some .avg
  | "min" => some .min
  | "max" => some .max
  | _ => none

def sqlName : AggregateFunction → String
  | .sum => "SUM"
  | .count | .countDistinct => "COUNT"
  | .avg => "AVG"
  | .min => "MIN"
  | .max => "MAX"

end AggregateFunction

inductive ScalarFunction where
  | abs
  | round
  | floor
  | ceil
  | sqrt
  | power
  | coalesce
  | nullIf
  | upper
  | lower
  | length
  | trim
  | concat
  | substr
  | greatest
  | least
deriving DecidableEq

namespace ScalarFunction

/-- The names of the functions, in any case. -/
def ofName? (name : String) : Option ScalarFunction :=
  match Text.asciiUpper name with
  | "ABS" => some .abs
  | "ROUND" => some .round
  | "FLOOR" => some .floor
  | "CEIL" | "CEILING" => some .ceil
  | "SQRT" => some .sqrt
  | "POWER" | "POW" => some .power
  | "COALESCE" | "IFNULL" => some .coalesce
  | "NULLIF" => some .nullIf
  | "UPPER" => some .upper
  | "LOWER" => some .lower
  | "LENGTH" | "LEN" => some .length
  | "TRIM" => some .trim
  | "CONCAT" => some .concat
  | "SUBSTR" | "SUBSTRING" => some .substr
  | "GREATEST" => some .greatest
  | "LEAST" => some .least
  | _ => none

/-- The canonical name. -/
def name : ScalarFunction → String
  | .abs => "ABS"
  | .round => "ROUND"
  | .floor => "FLOOR"
  | .ceil => "CEIL"
  | .sqrt => "SQRT"
  | .power => "POWER"
  | .coalesce => "COALESCE"
  | .nullIf => "NULLIF"
  | .upper => "UPPER"
  | .lower => "LOWER"
  | .length => "LENGTH"
  | .trim => "TRIM"
  | .concat => "CONCAT"
  | .substr => "SUBSTR"
  | .greatest => "GREATEST"
  | .least => "LEAST"

/-- The least number of arguments. -/
def leastArity : ScalarFunction → Nat
  | .power | .nullIf | .substr => 2
  | _ => 1

/-- The greatest number of arguments; none when there is no bound. -/
def mostArity? : ScalarFunction → Option Nat
  | .abs | .floor | .ceil | .sqrt | .upper | .lower | .length | .trim => some 1
  | .round | .power | .nullIf => some 2
  | .substr => some 3
  | .coalesce | .concat | .greatest | .least => none

/-- Whether a function takes `count` arguments. -/
def accepts (f : ScalarFunction) (count : Nat) : Bool :=
  f.leastArity ≤ count && f.mostArity?.all (count ≤ ·)

end ScalarFunction

/-- What a window computes for each row. -/
inductive WindowFunction (ε : Type) where
  | rowNumber
  | rank
  | denseRank
  | aggregate (func : AggregateFunction) (arg : Option ε)

structure OrderKey (ε : Type) where
  expr : ε
  descending : Bool

structure WindowSpec (ε : Type) where
  func : WindowFunction ε
  partitionBy : List ε
  orderBy : List (OrderKey ε)

inductive Expr where
  | literal (v : Value)
  | field (name : String)
  | param (name : String)
  | unary (op : UnaryOp) (e : Expr)
  | binary (op : BinaryOp) (left right : Expr)
  | call (func : ScalarFunction) (args : List Expr)
  | aggregate (func : AggregateFunction) (arg : Option Expr)
  /-- A window function; its values are handed to the evaluation under `slot`. -/
  | window (slot : Nat) (spec : WindowSpec Expr)
  | case (operand : Option Expr) (branches : List (Expr × Expr)) (otherwise : Option Expr)
  | inList (e : Expr) (list : List Expr) (negated : Bool)
  | between (e low high : Expr) (negated : Bool)
  | like (e pattern : Expr) (negated : Bool)
  | isNull (e : Expr) (negated : Bool)

namespace Expr

instance : Inhabited Expr := ⟨.literal .null⟩

mutual

/-- An expression and all expressions in it, each before its parts. -/
def subterms : Expr → List Expr
  | .literal v => [.literal v]
  | .field name => [.field name]
  | .param name => [.param name]
  | .unary op e => .unary op e :: e.subterms
  | .binary op l r => .binary op l r :: (l.subterms ++ r.subterms)
  | .call f args => .call f args :: subtermsOfList args
  | .aggregate f arg => .aggregate f arg :: subtermsOfOption arg
  | .window slot spec => .window slot spec :: subtermsOfSpec spec
  | .case operand branches otherwise =>
      .case operand branches otherwise ::
        (subtermsOfOption operand ++ subtermsOfBranches branches ++ subtermsOfOption otherwise)
  | .inList e list negated => .inList e list negated :: (e.subterms ++ subtermsOfList list)
  | .between e low high negated =>
      .between e low high negated :: (e.subterms ++ low.subterms ++ high.subterms)
  | .like e pattern negated => .like e pattern negated :: (e.subterms ++ pattern.subterms)
  | .isNull e negated => .isNull e negated :: e.subterms

def subtermsOfList : List Expr → List Expr
  | [] => []
  | e :: rest => e.subterms ++ subtermsOfList rest

def subtermsOfOption : Option Expr → List Expr
  | none => []
  | some e => e.subterms

def subtermsOfBranches : List (Expr × Expr) → List Expr
  | [] => []
  | (whenExpr, thenExpr) :: rest =>
      whenExpr.subterms ++ thenExpr.subterms ++ subtermsOfBranches rest

def subtermsOfKeys : List (OrderKey Expr) → List Expr
  | [] => []
  | ⟨e, _⟩ :: rest => e.subterms ++ subtermsOfKeys rest

def subtermsOfFunction : WindowFunction Expr → List Expr
  | .rowNumber | .rank | .denseRank => []
  | .aggregate _ arg => subtermsOfOption arg

def subtermsOfSpec : WindowSpec Expr → List Expr
  | ⟨func, partitionBy, orderBy⟩ =>
      subtermsOfFunction func ++ subtermsOfList partitionBy ++ subtermsOfKeys orderBy

end

/-- The field references, in the order of the text. -/
def fields (e : Expr) : List String :=
  e.subterms.filterMap fun
    | .field name => some name
    | _ => none

/-- The parameter references, in the order of the text. -/
def params (e : Expr) : List String :=
  e.subterms.filterMap fun
    | .param name => some name
    | _ => none

/-- The window functions with their slots, an outer one before those in it. -/
def windows (e : Expr) : List (Nat × WindowSpec Expr) :=
  e.subterms.filterMap fun
    | .window slot spec => some (slot, spec)
    | _ => none

mutual

/-- Whether there is an aggregate outside window functions. -/
def containsAggregate : Expr → Bool
  | .aggregate .. => true
  | .literal _ | .field _ | .param _ | .window .. => false
  | .unary _ e => e.containsAggregate
  | .binary _ l r => l.containsAggregate || r.containsAggregate
  | .call _ args => anyAggregate args
  | .case operand branches otherwise =>
      optionAggregate operand || branchesAggregate branches || optionAggregate otherwise
  | .inList e list _ => e.containsAggregate || anyAggregate list
  | .between e low high _ =>
      e.containsAggregate || low.containsAggregate || high.containsAggregate
  | .like e pattern _ => e.containsAggregate || pattern.containsAggregate
  | .isNull e _ => e.containsAggregate

def anyAggregate : List Expr → Bool
  | [] => false
  | e :: rest => e.containsAggregate || anyAggregate rest

def optionAggregate : Option Expr → Bool
  | none => false
  | some e => e.containsAggregate

def branchesAggregate : List (Expr × Expr) → Bool
  | [] => false
  | (whenExpr, thenExpr) :: rest =>
      whenExpr.containsAggregate || thenExpr.containsAggregate || branchesAggregate rest

end

end Expr

end RowPipeline
