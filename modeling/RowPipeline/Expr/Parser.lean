import RowPipeline.Expr
import RowPipeline.Expr.Lexer

/-!
# Reading expressions

Precedence, lowest first: OR, AND, NOT, comparisons and the predicates IS, IN, BETWEEN and LIKE,
addition, multiplication, sign, primary. Binary operators and predicates associate to the left.

Every function takes a cursor and gives back the cursor after what it read. The functions call one
another on less fuel; one token pays for a whole passage through the levels, so fuel in proportion
to the tokens is enough.
-/

namespace RowPipeline

/-- The tokens left, the number of window functions read, and where the text ends. -/
structure Cursor where
  tokens : List Spanned
  slot : Nat
  stop : Nat

namespace Cursor

/-- The next token; past the last one the end mark. -/
def current (c : Cursor) : Token :=
  match c.tokens with
  | [] => .eof
  | s :: _ => s.token

/-- The token after the next. -/
def second (c : Cursor) : Token :=
  match c.tokens with
  | _ :: s :: _ => s.token
  | _ => .eof

def position (c : Cursor) : Nat :=
  match c.tokens with
  | [] => c.stop
  | s :: _ => s.position

def advance (c : Cursor) : Cursor := { c with tokens := c.tokens.tail }

/-- The cursor after a keyword, if that comes next. -/
def keyword? (c : Cursor) (word : String) : Option Cursor :=
  if c.current.isKeyword word then some c.advance else none

/-- The cursor after a mark, if that comes next. -/
def mark? (c : Cursor) (is : Token → Bool) : Option Cursor :=
  if is c.current then some c.advance else none

def unexpected (c : Cursor) (what : String) : ExpressionError :=
  .syntaxError c.position (.expected what c.current)

def expectMark (c : Cursor) (is : Token → Bool) (what : String) : Except ExpressionError Cursor :=
  match c.mark? is with
  | some c => .ok c
  | none => .error (c.unexpected what)

def expectKeyword (c : Cursor) (word : String) : Except ExpressionError Cursor :=
  match c.keyword? word with
  | some c => .ok c
  | none => .error (c.unexpected word)

end Cursor

namespace Token

def isLParen : Token → Bool
  | .lparen => true
  | _ => false

def isRParen : Token → Bool
  | .rparen => true
  | _ => false

def isComma : Token → Bool
  | .comma => true
  | _ => false

def isStar : Token → Bool
  | .star => true
  | _ => false

def isEof : Token → Bool
  | .eof => true
  | _ => false

/-- OR in one of its spellings. -/
def isOr : Token → Bool
  | .orOr => true
  | t => t.isKeyword "OR"

/-- AND in one of its spellings. -/
def isAnd : Token → Bool
  | .andAnd => true
  | t => t.isKeyword "AND"

/-- NOT in one of its spellings. -/
def isNot : Token → Bool
  | .bang => true
  | t => t.isKeyword "NOT"

def comparison? : Token → Option BinaryOp
  | .eq => some .eq
  | .notEq => some .notEq
  | .lt => some .lt
  | .ltEq => some .ltEq
  | .gt => some .gt
  | .gtEq => some .gtEq
  | _ => none

def additive? : Token → Option BinaryOp
  | .plus => some .add
  | .minus => some .sub
  | _ => none

def multiplicative? : Token → Option BinaryOp
  | .star => some .mul
  | .slash => some .div
  | .percent => some .mod
  | _ => none

end Token

namespace Parser

/-- Words that name no field. -/
def reservedWords : List String :=
  ["AND", "OR", "NOT", "WHEN", "THEN", "ELSE", "END", "IS", "IN", "LIKE", "BETWEEN"]

/-- The names an aggregate has in expressions. -/
def aggregateOfSqlName? : String → Option AggregateFunction
  | "SUM" => some .sum
  | "COUNT" => some .count
  | "AVG" | "MEAN" => some .avg
  | "MIN" => some .min
  | "MAX" => some .max
  | _ => none

def rankingOfName? : String → Option (WindowFunction Expr)
  | "ROW_NUMBER" => some .rowNumber
  | "RANK" => some .rank
  | "DENSE_RANK" => some .denseRank
  | _ => none

/-- A sign before a number literal becomes part of it. -/
def negate : Expr → Expr
  | .literal (.int i) => .literal (.int (-i))
  | .literal (.float x) => .literal (.float (-x))
  | e => .unary .neg e

/-- What is shown for a number of arguments without bound. -/
def unboundedArity : Nat := 0xffffffffffffffff

/-- Running out of fuel, which the fuel of `parse` rules out. -/
def exhausted (c : Cursor) : ExpressionError := .syntaxError c.position .empty

mutual

def parseOr : Nat → Cursor → Except ExpressionError (Expr × Cursor)
  | 0, c => .error (exhausted c)
  | fuel + 1, c => do
      let (left, c) ← parseAnd fuel c
      orTail fuel left c

def orTail : Nat → Expr → Cursor → Except ExpressionError (Expr × Cursor)
  | 0, _, c => .error (exhausted c)
  | fuel + 1, left, c =>
      match c.mark? Token.isOr with
      | some c => do
          let (right, c) ← parseAnd fuel c
          orTail fuel (.binary .or left right) c
      | none => .ok (left, c)

def parseAnd : Nat → Cursor → Except ExpressionError (Expr × Cursor)
  | 0, c => .error (exhausted c)
  | fuel + 1, c => do
      let (left, c) ← parseNot fuel c
      andTail fuel left c

def andTail : Nat → Expr → Cursor → Except ExpressionError (Expr × Cursor)
  | 0, _, c => .error (exhausted c)
  | fuel + 1, left, c =>
      match c.mark? Token.isAnd with
      | some c => do
          let (right, c) ← parseNot fuel c
          andTail fuel (.binary .and left right) c
      | none => .ok (left, c)

def parseNot : Nat → Cursor → Except ExpressionError (Expr × Cursor)
  | 0, c => .error (exhausted c)
  | fuel + 1, c =>
      match c.mark? Token.isNot with
      | some c => do
          let (e, c) ← parseNot fuel c
          return (.unary .not e, c)
      | none => parseComparison fuel c

def parseComparison : Nat → Cursor → Except ExpressionError (Expr × Cursor)
  | 0, c => .error (exhausted c)
  | fuel + 1, c => do
      let (left, c) ← parseAdditive fuel c
      comparisonTail fuel left c

/-- Comparisons and predicates on what stands to the left. NOT belongs to a predicate only right
before IN, BETWEEN or LIKE. -/
def comparisonTail : Nat → Expr → Cursor → Except ExpressionError (Expr × Cursor)
  | 0, _, c => .error (exhausted c)
  | fuel + 1, left, c =>
      match c.current.comparison? with
      | some op => do
          let (right, c) ← parseAdditive fuel c.advance
          comparisonTail fuel (.binary op left right) c
      | none =>
          match c.keyword? "IS" with
          | some c => do
              let (negated, c) := match c.keyword? "NOT" with
                | some c => (true, c)
                | none => (false, c)
              let c ← c.expectKeyword "NULL"
              comparisonTail fuel (.isNull left negated) c
          | none =>
              let negated := c.current.isKeyword "NOT" &&
                ["IN", "BETWEEN", "LIKE"].any fun word => c.second.isKeyword word
              let c := if negated then c.advance else c
              match c.keyword? "IN" with
              | some c => do
                  let c ← c.expectMark Token.isLParen "'(' after IN"
                  let (list, c) ← parseList fuel c
                  comparisonTail fuel (.inList left list negated) c
              | none =>
                  match c.keyword? "BETWEEN" with
                  | some c => do
                      let (low, c) ← parseAdditive fuel c
                      let c ← c.expectKeyword "AND"
                      let (high, c) ← parseAdditive fuel c
                      comparisonTail fuel (.between left low high negated) c
                  | none =>
                      match c.keyword? "LIKE" with
                      | some c => do
                          let (pattern, c) ← parseAdditive fuel c
                          comparisonTail fuel (.like left pattern negated) c
                      | none => .ok (left, c)

def parseAdditive : Nat → Cursor → Except ExpressionError (Expr × Cursor)
  | 0, c => .error (exhausted c)
  | fuel + 1, c => do
      let (left, c) ← parseMultiplicative fuel c
      additiveTail fuel left c

def additiveTail : Nat → Expr → Cursor → Except ExpressionError (Expr × Cursor)
  | 0, _, c => .error (exhausted c)
  | fuel + 1, left, c =>
      match c.current.additive? with
      | some op => do
          let (right, c) ← parseMultiplicative fuel c.advance
          additiveTail fuel (.binary op left right) c
      | none => .ok (left, c)

def parseMultiplicative : Nat → Cursor → Except ExpressionError (Expr × Cursor)
  | 0, c => .error (exhausted c)
  | fuel + 1, c => do
      let (left, c) ← parseUnary fuel c
      multiplicativeTail fuel left c

def multiplicativeTail : Nat → Expr → Cursor → Except ExpressionError (Expr × Cursor)
  | 0, _, c => .error (exhausted c)
  | fuel + 1, left, c =>
      match c.current.multiplicative? with
      | some op => do
          let (right, c) ← parseUnary fuel c.advance
          multiplicativeTail fuel (.binary op left right) c
      | none => .ok (left, c)

/-- A sign: minus negates, plus does nothing. -/
def parseUnary : Nat → Cursor → Except ExpressionError (Expr × Cursor)
  | 0, c => .error (exhausted c)
  | fuel + 1, c =>
      match c.current with
      | .minus => do
          let (e, c) ← parseUnary fuel c.advance
          return (negate e, c)
      | .plus => parseUnary fuel c.advance
      | _ => parsePrimary fuel c

def parsePrimary : Nat → Cursor → Except ExpressionError (Expr × Cursor)
  | 0, c => .error (exhausted c)
  | fuel + 1, c =>
      match c.current with
      | .integer i => .ok (.literal (.int i), c.advance)
      | .float x => .ok (.literal (.float x), c.advance)
      | .string s => .ok (.literal (.string s), c.advance)
      | .param name => .ok (.param name, c.advance)
      | .quotedIdent name => .ok (.field name, c.advance)
      | .lparen => do
          let (e, c) ← parseOr fuel c.advance
          let c ← c.expectMark Token.isRParen "')'"
          return (e, c)
      | .ident name => parseName fuel name c.position c.advance
      | other => .error (.syntaxError c.position (.unexpectedToken other))

/-- What a name starts, `position` being where it stands: a constant, CASE, a call or a field. -/
def parseName : Nat → String → Nat → Cursor → Except ExpressionError (Expr × Cursor)
  | 0, _, _, c => .error (exhausted c)
  | fuel + 1, name, position, c =>
      match Text.asciiUpper name with
      | "NULL" => .ok (.literal .null, c)
      | "TRUE" => .ok (.literal (.bool true), c)
      | "FALSE" => .ok (.literal (.bool false), c)
      | "CASE" => parseCase fuel c
      | upper =>
          if c.current.isLParen then parseCall fuel name position c.advance
          else if upper ∈ reservedWords then
            .error (.syntaxError position (.unexpectedKeyword upper))
          else .ok (.field name, c)

/-- Expressions between commas up to a closing parenthesis, perhaps none. -/
def parseList : Nat → Cursor → Except ExpressionError (List Expr × Cursor)
  | 0, c => .error (exhausted c)
  | fuel + 1, c =>
      match c.mark? Token.isRParen with
      | some c => .ok ([], c)
      | none => parseItems fuel c

def parseItems : Nat → Cursor → Except ExpressionError (List Expr × Cursor)
  | 0, c => .error (exhausted c)
  | fuel + 1, c => do
      let (e, c) ← parseOr fuel c
      match c.mark? Token.isRParen with
      | some c => return ([e], c)
      | none =>
          let c ← c.expectMark Token.isComma "',' or closing parenthesis"
          let (rest, c) ← parseItems fuel c
          return (e :: rest, c)

/-- A call after its opening parenthesis. -/
def parseCall : Nat → String → Nat → Cursor → Except ExpressionError (Expr × Cursor)
  | 0, _, _, c => .error (exhausted c)
  | fuel + 1, name, position, c =>
      let upper := Text.asciiUpper name
      match rankingOfName? upper with
      | some func => do
          let c ← c.expectMark Token.isRParen "')'"
          match c.keyword? "OVER" with
          | some c => parseOver fuel func c
          | none => throw (.syntaxError position (.requiresOver upper))
      | none =>
          match aggregateOfSqlName? upper with
          | some func => do
              let (func, arg, c) ← parseAggregateArgument fuel func upper position c
              match c.keyword? "OVER" with
              | some c => parseOver fuel (.aggregate func arg) c
              | none => return (.aggregate func arg, c)
          | none =>
              match ScalarFunction.ofName? upper with
              | none => .error (.unknownFunction name)
              | some func => do
                  let (args, c) ← parseList fuel c
                  if func.accepts args.length then return (.call func args, c)
                  else
                    throw (.syntaxError position (.wrongArity func.name func.leastArity
                      (func.mostArity?.getD unboundedArity) args.length))

/-- The argument of an aggregate: a star for COUNT, else one expression, DISTINCT only in COUNT. -/
def parseAggregateArgument : Nat → AggregateFunction → String → Nat → Cursor →
    Except ExpressionError (AggregateFunction × Option Expr × Cursor)
  | 0, _, _, _, c => .error (exhausted c)
  | fuel + 1, func, name, position, c =>
      if func = .count && c.current.isStar then do
        let c ← c.advance.expectMark Token.isRParen "')'"
        return (func, none, c)
      else do
        let (distinct, c) := match c.keyword? "DISTINCT" with
          | some c => (true, c)
          | none => (false, c)
        let (arg, c) ← parseOr fuel c
        let c ← c.expectMark Token.isRParen "')'"
        if distinct then
          if func = .count then return (.countDistinct, some arg, c)
          else throw (.syntaxError position (.distinctNotAllowed name))
        else return (func, some arg, c)

/-- The window after OVER. Slots are given out in the order in which windows close. -/
def parseOver : Nat → WindowFunction Expr → Cursor → Except ExpressionError (Expr × Cursor)
  | 0, _, c => .error (exhausted c)
  | fuel + 1, func, c => do
      let c ← c.expectMark Token.isLParen "'(' after OVER"
      let (partitionBy, c) ← match c.keyword? "PARTITION" with
        | some c => do
            let c ← c.expectKeyword "BY"
            parsePartitions fuel c
        | none => pure ([], c)
      let (orderBy, c) ← match c.keyword? "ORDER" with
        | some c => do
            let c ← c.expectKeyword "BY"
            parseOrderKeys fuel c
        | none => pure ([], c)
      let c ← c.expectMark Token.isRParen "')' closing OVER"
      return (.window c.slot ⟨func, partitionBy, orderBy⟩, { c with slot := c.slot + 1 })

def parsePartitions : Nat → Cursor → Except ExpressionError (List Expr × Cursor)
  | 0, c => .error (exhausted c)
  | fuel + 1, c => do
      let (e, c) ← parseAdditive fuel c
      match c.mark? Token.isComma with
      | some c => do
          let (rest, c) ← parsePartitions fuel c
          return (e :: rest, c)
      | none => return ([e], c)

def parseOrderKeys : Nat → Cursor → Except ExpressionError (List (OrderKey Expr) × Cursor)
  | 0, c => .error (exhausted c)
  | fuel + 1, c => do
      let (e, c) ← parseAdditive fuel c
      let (descending, c) := match c.keyword? "DESC" with
        | some c => (true, c)
        | none => (false, (c.keyword? "ASC").getD c)
      match c.mark? Token.isComma with
      | some c => do
          let (rest, c) ← parseOrderKeys fuel c
          return (⟨e, descending⟩ :: rest, c)
      | none => return ([⟨e, descending⟩], c)

/-- A CASE after its keyword. -/
def parseCase : Nat → Cursor → Except ExpressionError (Expr × Cursor)
  | 0, c => .error (exhausted c)
  | fuel + 1, c => do
      let (operand, c) ←
        if c.current.isKeyword "WHEN" then pure (none, c)
        else do
          let (e, c) ← parseOr fuel c
          pure (some e, c)
      let (branches, c) ← parseBranches fuel c
      if branches.isEmpty then throw (c.unexpected "WHEN")
      let (otherwise, c) ← match c.keyword? "ELSE" with
        | some c => do
            let (e, c) ← parseOr fuel c
            pure (some e, c)
        | none => pure (none, c)
      let c ← c.expectKeyword "END"
      return (.case operand branches otherwise, c)

def parseBranches : Nat → Cursor → Except ExpressionError (List (Expr × Expr) × Cursor)
  | 0, c => .error (exhausted c)
  | fuel + 1, c =>
      match c.keyword? "WHEN" with
      | some c => do
          let (whenExpr, c) ← parseOr fuel c
          let c ← c.expectKeyword "THEN"
          let (thenExpr, c) ← parseOr fuel c
          let (rest, c) ← parseBranches fuel c
          return ((whenExpr, thenExpr) :: rest, c)
      | none => .ok ([], c)

end

/-- The fuel for a text of `count` tokens. -/
def fuelFor (count : Nat) : Nat := 16 * (count + 1)

end Parser

/-- Read a whole text as one expression. -/
def Expr.parse (text : String) : Except ExpressionError Expr := do
  let tokens ← Lexer.tokens text
  if tokens.isEmpty then throw (.syntaxError 0 .empty)
  let (e, c) ← Parser.parseOr (Parser.fuelFor tokens.length) ⟨tokens, 0, text.toList.length⟩
  if c.current.isEof then return e else throw (c.unexpected "end of expression")

end RowPipeline
