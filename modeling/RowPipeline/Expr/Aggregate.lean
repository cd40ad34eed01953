import RowPipeline.Expr.Eval
import RowPipeline.Grouping

/-!
# Aggregates

The reduction of values to one, and the replacement of the aggregates in an expression by their
values over a group.
-/

namespace RowPipeline

/-- The sum of integers, as long as it stays within 64 bits after each term. -/
def sumInts? : Int64 → List Int64 → Option Int64
  | total, [] => some total
  | total, i :: rest =>
      (ScalarFunction.exactInt64? (total.toInt + i.toInt)).bind fun total => sumInts? total rest

/-- The integers of a list of values, if all are. -/
def allInts? : List Value → Option (List Int64)
  | [] => some []
  | .int i :: rest => (allInts? rest).map (i :: ·)
  | _ :: _ => none

/-- The sum from left to right; that of nothing is minus zero. -/
def sumFloats (xs : List Float) : Float := xs.foldl (· + ·) (-0.0)

/-- The first of the least values. -/
def leastValue? : List Value → Option Value
  | [] => none
  | v :: rest => some (rest.foldl (fun best w =>
      if best.totalCompare w = .gt then w else best) v)

/-- The last of the greatest values. -/
def greatestValue? : List Value → Option Value
  | [] => none
  | v :: rest => some (rest.foldl (fun best w =>
      if best.totalCompare w = .gt then best else w) v)

/-- The sum of the numbers: an integer when all are integers and the partial sums fit. -/
def sumValues (present : List Value) : Value :=
  let numbers := present.filter Value.isNumeric
  if numbers.isEmpty then .null
  else
    match (allInts? numbers).bind (sumInts? 0) with
    | some total => .int total
    | none => .float (sumFloats (numbers.filterMap Value.toFloat?))

def averageValues (present : List Value) : Value :=
  let numbers := present.filterMap Value.toFloat?
  if numbers.isEmpty then .null
  else .float (sumFloats numbers / Binary64.ofNat numbers.length)

/-- Reduce values to one. Nulls do not count. -/
def aggregateValues (func : AggregateFunction) (values : List Value) : Value :=
  let present := values.filter fun v => !v.isNull
  match func with
  | .count => .ofNat present.length
  | .countDistinct => .ofNat (distinctByKey Value.canonicalKey present).length
  | .sum => sumValues present
  | .avg => averageValues present
  | .min => (leastValue? present).getD .null
  | .max => (greatestValue? present).getD .null

namespace Expr

/-- The value on one row, a missing field as null; window functions have none here. -/
def evalLenient (e : Expr) (row : Row) (params : Option Parameters) : Outcome Value :=
  missingAsNull (e.eval ⟨some row, params, fun _ => none⟩)

/-- The value of an aggregate over rows; without argument the rows are counted. -/
def evalAggregate (func : AggregateFunction) (arg : Option Expr) (rows : List Row)
    (params : Option Parameters) : Outcome Value :=
  match arg with
  | none => .ok (.ofNat rows.length)
  | some e => do
      let values ← rows.mapM fun row => e.evalLenient row params
      return aggregateValues func values

mutual

/-- Replace every aggregate outside window functions by its value over a group. -/
def fillAggregates (group : List Row) (params : Option Parameters) : Expr → Outcome Expr
  | .aggregate f arg => do return .literal (← evalAggregate f arg group params)
  | .unary op e => do return .unary op (← e.fillAggregates group params)
  | .binary op l r => do
      let l ← l.fillAggregates group params
      return .binary op l (← r.fillAggregates group params)
  | .call f args => do return .call f (← fillList group params args)
  | .case operand branches otherwise => do
      let operand ← fillOption group params operand
      let branches ← fillBranches group params branches
      return .case operand branches (← fillOption group params otherwise)
  | .inList e list negated => do
      let e ← e.fillAggregates group params
      return .inList e (← fillList group params list) negated
  | .between e low high negated => do
      let e ← e.fillAggregates group params
      let low ← low.fillAggregates group params
      return .between e low (← high.fillAggregates group params) negated
  | .like e pattern negated => do
      let e ← e.fillAggregates group params
      return .like e (← pattern.fillAggregates group params) negated
  | .isNull e negated => do return .isNull (← e.fillAggregates group params) negated
  | .literal v => .ok (.literal v)
  | .field name => .ok (.field name)
  | .param name => .ok (.param name)
  | .window slot spec => .ok (.window slot spec)

def fillList (group : List Row) (params : Option Parameters) : List Expr → Outcome (List Expr)
  | [] => .ok []
  | e :: rest => do
      let e ← e.fillAggregates group params
      return e :: (← fillList group params rest)

def fillOption (group : List Row) (params : Option Parameters) :
    Option Expr → Outcome (Option Expr)
  | none => .ok none
  | some e => do return some (← e.fillAggregates group params)

def fillBranches (group : List Row) (params : Option Parameters) :
    List (Expr × Expr) → Outcome (List (Expr × Expr))
  | [] => .ok []
  | (whenExpr, thenExpr) :: rest => do
      let whenExpr ← whenExpr.fillAggregates group params
      let thenExpr ← thenExpr.fillAggregates group params
      return (whenExpr, thenExpr) :: (← fillBranches group params rest)

end

end Expr

end RowPipeline
