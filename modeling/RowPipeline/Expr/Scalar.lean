import RowPipeline.Expr
import RowPipeline.Expr.Token
import RowPipeline.Text.Casing

/-!
# Scalar functions

The listed functions on values. Apart from those that look for nulls themselves, a null argument
makes the result null.
-/

namespace RowPipeline.ScalarFunction

abbrev Outcome := Except ExpressionError

def invalid (f : ScalarFunction) (problem : ArgumentProblem) : ExpressionError :=
  .invalidArgument f.name problem

def number (f : ScalarFunction) (v : Value) : Outcome Float :=
  match v.toFloat? with
  | some x => .ok x
  | none => .error (f.invalid (.expectedNumber v.typeName))

def text (f : ScalarFunction) (v : Value) : Outcome String :=
  match v.toString? with
  | some s => .ok s
  | none => .error (f.invalid (.expectedString v.typeName))

def integer (f : ScalarFunction) (problem : ArgumentProblem) (v : Value) : Outcome Int64 :=
  match v.toInt64? with
  | some i => .ok i
  | none => .error (f.invalid problem)

/-- The integer of a result that fits 64 bits. -/
def exactInt64? (i : Int) : Option Int64 :=
  if Int64.minValue.toInt ≤ i && i ≤ Int64.maxValue.toInt then some (Int64.ofInt i) else none

/-- The first of the greatest or the least arguments, nulls left out. Each argument is compared with
the best before it. -/
def extreme (f : ScalarFunction) (wanted : Ordering) : Option Value → List Value → Outcome Value
  | best, [] => .ok (best.getD .null)
  | none, v :: rest => f.extreme wanted (some v) rest
  | some best, v :: rest =>
      match v.compare? best with
      | some order => f.extreme wanted (some (if order = wanted then v else best)) rest
      | none => .error (f.invalid .notComparable)

/-- Round half away from zero to `digits` decimal places; a number of places beyond 32 bits counts
as none. -/
def roundTo (x : Float) (digits : Int64) : Float :=
  let places := if -2147483648 ≤ digits.toInt && digits.toInt ≤ 2147483647 then digits.toInt else 0
  let factor := Binary64.powerOfTen places
  (x * factor).round / factor

/-- The characters from place `start`, which counts from one, `count` of them if given. -/
def substring (s : String) (start : Int64) (count : Option Int64) : String :=
  let rest := s.toList.drop (max start.toInt 1 - 1).toNat
  match count with
  | some n => String.ofList (rest.take n.toInt.toNat)
  | none => String.ofList rest

/-- The functions that a null argument makes null, on arguments without null. -/
def callStrict (f : ScalarFunction) (args : List Value) : Outcome Value :=
  match f, args with
  | .abs, [.int i] =>
      .ok (match exactInt64? i.toInt.natAbs with
        | some i => .int i
        | none => .float (Binary64.ofInt64 i).abs)
  | .abs, [v] => do return .float (← f.number v).abs
  | .round, [v] => do return .float (roundTo (← f.number v) 0)
  | .round, [v, d] => do
      let x ← f.number v
      return .float (roundTo x (← f.integer .digitsNotInteger d))
  | .floor, [v] => do return .float (← f.number v).floor
  | .ceil, [v] => do return .float (← f.number v).ceil
  | .sqrt, [v] => do
      let x ← f.number v
      if x < 0 then throw (f.invalid .negative) else return .float x.sqrt
  | .power, [v, w] => do
      let x ← f.number v
      return .float (x.pow (← f.number w))
  | .upper, [v] => do return .string (Text.toUpper (← f.text v))
  | .lower, [v] => do return .string (Text.toLower (← f.text v))
  | .trim, [v] => do return .string (Text.trimBlanks (← f.text v))
  | .length, [v] => do return .ofNat (← f.text v).length
  | .substr, [v, start] => do
      let s ← f.text v
      return .string (substring s (← f.integer .startNotInteger start) none)
  | .substr, [v, start, count] => do
      let s ← f.text v
      let start ← f.integer .startNotInteger start
      return .string (substring s start (some (← f.integer .lengthNotInteger count)))
  | f, args => .error (f.invalid (.wrongCount args.length))

/-- Apply a function to its arguments. -/
def call (f : ScalarFunction) (args : List Value) : Outcome Value :=
  if !f.accepts args.length then .error (f.invalid (.wrongCount args.length))
  else
    match f, args with
    | .coalesce, args => .ok ((args.find? fun v => !v.isNull).getD .null)
    | .nullIf, [a, b] => .ok (if a.looseEq b then .null else a)
    | .concat, args =>
        .ok (.string (String.join ((args.filter fun v => !v.isNull).map Value.display)))
    | .greatest, args => f.extreme .gt none (args.filter fun v => !v.isNull)
    | .least, args => f.extreme .lt none (args.filter fun v => !v.isNull)
    | f, args => if args.any Value.isNull then .ok .null else f.callStrict args

end RowPipeline.ScalarFunction
