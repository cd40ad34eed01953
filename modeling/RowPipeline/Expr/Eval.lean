import RowPipeline.Expr.Scalar
import RowPipeline.Row
import RowPipeline.Text.Like

/-!
# Evaluation

The value of an expression on one row. AND and OR leave their right side alone once the left side
settles them, CASE tries its branches in turn, and a comparison with null is null.
-/

namespace RowPipeline

/-- What an expression can read: a row, parameters, and the values of its window functions. -/
structure Scope where
  row : Option Row
  params : Option Parameters
  window : Nat → Option Value

namespace Scope

def empty : Scope := ⟨none, none, fun _ => none⟩

def field? (s : Scope) (name : String) : Option Value := s.row.bind (·.lookup? name)

/-- A parameter that is not set is null. -/
def param (s : Scope) (name : String) : Value :=
  ((s.params.bind (·.get? name)).getD .null)

end Scope

namespace Expr

abbrev Outcome := Except ExpressionError

def ordered (operation : String) (a b : Value) : Outcome Ordering :=
  match a.compare? b with
  | some order => .ok order
  | none => .error (.typeMismatch operation a.typeName b.typeName)

def applyUnary (op : UnaryOp) (v : Value) : Outcome Value :=
  match op, v with
  | .not, v => .ok (.bool (!v.isTruthy))
  | .neg, .null => .ok .null
  | .neg, .int i =>
      .ok (match ScalarFunction.exactInt64? (-i.toInt) with
        | some i => .int i
        | none => .float (-(Binary64.ofInt64 i)))
  | .neg, .float x => .ok (.float (-x))
  | .neg, v => .error (.typeMismatch "-" v.typeName "")

/-- The exact result of integer arithmetic, where there is one within 64 bits. Division has none.
The remainder of the least integer by minus one counts as out of range. -/
def exactArithmetic? (op : BinaryOp) (a b : Int64) : Option Int64 :=
  match op with
  | .add => ScalarFunction.exactInt64? (a.toInt + b.toInt)
  | .sub => ScalarFunction.exactInt64? (a.toInt - b.toInt)
  | .mul => ScalarFunction.exactInt64? (a.toInt * b.toInt)
  | .mod =>
      if b == 0 || (a == Int64.minValue && b == -1) then none
      else ScalarFunction.exactInt64? (a.toInt.tmod b.toInt)
  | _ => none

/-- Arithmetic on doubles. -/
def floatArithmetic (op : BinaryOp) (x y : Float) : Outcome Value :=
  match op with
  | .add => .ok (.float (x + y))
  | .sub => .ok (.float (x - y))
  | .mul => .ok (.float (x * y))
  | .div => if y == 0 then .error .divisionByZero else .ok (.float (x / y))
  | _ => if y == 0 then .error .divisionByZero else .ok (.float (Binary64.remainder x y))

/-- Arithmetic. A null makes the result null, texts are joined by a plus, integers stay integers
while the result fits. -/
def arithmetic (op : BinaryOp) (a b : Value) : Outcome Value :=
  if a.isNull || b.isNull then .ok .null
  else
    match op, a, b with
    | .add, .string s, .string t => .ok (.string (s ++ t))
    | op, .int i, .int j =>
        if op = .mod && j == 0 then .error .divisionByZero
        else
          match exactArithmetic? op i j with
          | some k => .ok (.int k)
          | none => floatArithmetic op (Binary64.ofInt64 i) (Binary64.ofInt64 j)
    | op, a, b =>
        match a.toFloat?, b.toFloat? with
        | some x, some y => floatArithmetic op x y
        | _, _ => .error (.typeMismatch op.symbol a.typeName b.typeName)

def comparisonHolds (op : BinaryOp) (order : Ordering) : Bool :=
  match op with
  | .lt => order = .lt
  | .ltEq => order ≠ .gt
  | .gt => order = .gt
  | _ => order ≠ .lt

/-- A binary operator on two values. -/
def applyBinary (op : BinaryOp) (a b : Value) : Outcome Value :=
  match op with
  | .eq => .ok (.bool (a.looseEq b))
  | .notEq => .ok (.bool (!a.looseEq b))
  | .lt | .ltEq | .gt | .gtEq =>
      if a.isNull || b.isNull then .ok .null
      else (ordered op.symbol a b).map fun order => .bool (comparisonHolds op order)
  | .and => .ok (.bool (a.isTruthy && b.isTruthy))
  | .or => .ok (.bool (a.isTruthy || b.isTruthy))
  | .add | .sub | .mul | .div | .mod => arithmetic op a b

/-- Whether a list item, or one of its elements when it is an array, equals the value. -/
def itemEquals (item v : Value) : Bool :=
  match item with
  | .array items => items.any (·.looseEq v)
  | item => item.looseEq v

def withinBounds (v low high : Value) (negated : Bool) : Outcome Value := do
  if v.isNull || low.isNull || high.isNull then return .null
  let fromLow ← ordered "BETWEEN" v low
  let fromHigh ← ordered "BETWEEN" v high
  return .bool ((fromLow ≠ .lt && fromHigh ≠ .gt) != negated)

def likeValue (v pattern : Value) (negated : Bool) : Outcome Value :=
  match v, pattern with
  | .null, _ => .ok .null
  | _, .null => .ok .null
  | v, .string p => .ok (.bool (Text.like v.display p != negated))
  | v, pattern => .error (.typeMismatch "LIKE" v.typeName pattern.typeName)

/-- A missing field counts as null. -/
def missingAsNull (r : Outcome Value) : Outcome Value :=
  match r with
  | .error (.unknownField _) => .ok .null
  | r => r

mutual

/-- The value of an expression. -/
def eval (s : Scope) : Expr → Outcome Value
  | .literal v => .ok v
  | .field name =>
      match s.field? name with
      | some v => .ok v
      | none => .error (.unknownField name)
  | .param name => .ok (s.param name)
  | .unary op e => do applyUnary op (← e.eval s)
  | .binary .and l r => do
      if !(← l.eval s).isTruthy then return .bool false
      return .bool (← r.eval s).isTruthy
  | .binary .or l r => do
      if (← l.eval s).isTruthy then return .bool true
      return .bool (← r.eval s).isTruthy
  | .binary op l r => do
      let a ← l.eval s
      let b ← r.eval s
      applyBinary op a b
  | .call f args => do f.call (← evalList s args)
  | .aggregate f _ => .error (.aggregateOutsideGroup f.sqlName)
  | .window slot _ =>
      match s.window slot with
      | some v => .ok v
      | none => .error .windowOutsideRows
  | .case none branches otherwise => do
      match ← evalBranches s (fun v => v.isTruthy) branches with
      | some v => return v
      | none => evalOption s otherwise
  | .case (some operand) branches otherwise => do
      let subject ← operand.eval s
      match ← evalBranches s (fun v => !subject.isNull && subject.looseEq v) branches with
      | some v => return v
      | none => evalOption s otherwise
  | .inList e list negated => do
      let v ← e.eval s
      if v.isNull then return .null
      return .bool ((← evalMember s v list) != negated)
  | .between e low high negated => do
      let v ← e.eval s
      let low ← low.eval s
      let high ← high.eval s
      withinBounds v low high negated
  | .like e pattern negated => do
      let v ← e.eval s
      let p ← pattern.eval s
      likeValue v p negated
  | .isNull e negated => do
      let v ← missingAsNull (e.eval s)
      return .bool (v.isNull != negated)

def evalList (s : Scope) : List Expr → Outcome (List Value)
  | [] => .ok []
  | e :: rest => do
      let v ← e.eval s
      let vs ← evalList s rest
      return v :: vs

def evalOption (s : Scope) : Option Expr → Outcome Value
  | none => .ok .null
  | some e => e.eval s

/-- The value of the first branch whose condition is `chosen`. -/
def evalBranches (s : Scope) (chosen : Value → Bool) :
    List (Expr × Expr) → Outcome (Option Value)
  | [] => .ok none
  | (whenExpr, thenExpr) :: rest => do
      if chosen (← whenExpr.eval s) then
        let v ← thenExpr.eval s
        return some v
      else evalBranches s chosen rest

/-- Whether some list item equals the value; the items after it are not evaluated. -/
def evalMember (s : Scope) (v : Value) : List Expr → Outcome Bool
  | [] => .ok false
  | e :: rest => do
      if itemEquals (← e.eval s) v then return true
      else evalMember s v rest

end

end Expr

end RowPipeline
