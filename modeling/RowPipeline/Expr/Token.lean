import RowPipeline.Decimal
import RowPipeline.Text.Quoted

/-!
# Tokens

The tokens of the expression language and the problems a text can have as an expression. A position
counts the characters before it.
-/

namespace RowPipeline

inductive Token where
  | integer (i : Int64)
  | float (x : Float)
  | string (s : String)
  | ident (name : String)
  | quotedIdent (name : String)
  | param (name : String)
  | plus
  | minus
  | star
  | slash
  | percent
  | eq
  | notEq
  | lt
  | ltEq
  | gt
  | gtEq
  | andAnd
  | orOr
  | bang
  | lparen
  | rparen
  | comma
  /-- The end of the text. -/
  | eof

namespace Token

/-- A token as messages show it. -/
def describe : Token → String
  | .integer i => "Integer(" ++ toString i.toInt ++ ")"
  | .float x => "Float(" ++ Decimal.listingLayout.write x ++ ")"
  | .string s => "String(" ++ Text.quoted s ++ ")"
  | .ident s => "Ident(" ++ Text.quoted s ++ ")"
  | .quotedIdent s => "QuotedIdent(" ++ Text.quoted s ++ ")"
  | .param s => "Param(" ++ Text.quoted s ++ ")"
  | .plus => "Plus"
  | .minus => "Minus"
  | .star => "Star"
  | .slash => "Slash"
  | .percent => "Percent"
  | .eq => "Eq"
  | .notEq => "NotEq"
  | .lt => "Lt"
  | .ltEq => "LtEq"
  | .gt => "Gt"
  | .gtEq => "GtEq"
  | .andAnd => "AndAnd"
  | .orOr => "OrOr"
  | .bang => "Bang"
  | .lparen => "LParen"
  | .rparen => "RParen"
  | .comma => "Comma"
  | .eof => "Eof"

/-- Keywords are identifiers compared without regard to case. -/
def isKeyword (keyword : String) : Token → Bool
  | .ident name => Text.sameIgnoringCase name keyword
  | _ => false

end Token

/-- A token and where it starts. -/
structure Spanned where
  position : Nat
  token : Token

/-- What is wrong with a text as an expression. -/
inductive SyntaxProblem where
  | invalidEscape (c : Char)
  | unterminatedString
  | malformedParameter
  | missingParameterName
  | unterminatedIdentifier
  | unexpectedCharacter (c : Char)
  | empty
  | expected (what : String) (found : Token)
  | unexpectedKeyword (keyword : String)
  | unexpectedToken (found : Token)
  | requiresOver (function : String)
  | wrongArity (function : String) (least most count : Nat)
  | distinctNotAllowed (function : String)

def SyntaxProblem.message : SyntaxProblem → String
  | .invalidEscape c => "invalid escape sequence \\" ++ String.singleton c
  | .unterminatedString => "unterminated string literal"
  | .malformedParameter => "malformed $\x7b...\x7d parameter"
  | .missingParameterName => "expected parameter name after '$'"
  | .unterminatedIdentifier => "unterminated quoted identifier"
  | .unexpectedCharacter c => "unexpected character '" ++ String.singleton c ++ "'"
  | .empty => "empty expression"
  | .expected what found => "expected " ++ what ++ ", found " ++ found.describe
  | .unexpectedKeyword keyword => "unexpected keyword " ++ keyword
  | .unexpectedToken found => "unexpected token " ++ found.describe
  | .requiresOver function => function ++ " requires OVER (...)"
  | .wrongArity function least most count =>
      function ++ " takes " ++ toString least ++ ".." ++ toString most ++ " arguments, got "
        ++ toString count
  | .distinctNotAllowed function => "DISTINCT is only supported in COUNT, not " ++ function

/-- What is wrong with the argument of a function. -/
inductive ArgumentProblem where
  | wrongCount (count : Nat)
  | notComparable
  | digitsNotInteger
  | startNotInteger
  | lengthNotInteger
  | negative
  | expectedNumber (typeName : String)
  | expectedString (typeName : String)
deriving DecidableEq

def ArgumentProblem.message : ArgumentProblem → String
  | .wrongCount count => "wrong number of arguments (" ++ toString count ++ ")"
  | .notComparable => "arguments are not comparable"
  | .digitsNotInteger => "digits must be an integer"
  | .startNotInteger => "start must be an integer"
  | .lengthNotInteger => "length must be an integer"
  | .negative => "negative argument"
  | .expectedNumber typeName => "expected a number, got " ++ typeName
  | .expectedString typeName => "expected a string, got " ++ typeName

/-- Why an expression cannot be read or has no value. -/
inductive ExpressionError where
  | syntaxError (position : Nat) (problem : SyntaxProblem)
  | unknownFunction (name : String)
  | unknownField (name : String)
  | typeMismatch (operation left right : String)
  | divisionByZero
  | invalidArgument (function : String) (problem : ArgumentProblem)
  /-- An aggregate, by its SQL name, where no group is at hand. -/
  | aggregateOutsideGroup (name : String)
  /-- A window function where no row set is at hand. -/
  | windowOutsideRows

namespace ExpressionError

def message : ExpressionError → String
  | .syntaxError position problem =>
      "Syntax error at position " ++ toString position ++ ": " ++ problem.message
  | .unknownFunction name => "Function not allowed: " ++ name
  | .unknownField name => "Unknown field: " ++ name
  | .typeMismatch operation left right =>
      "Type mismatch: cannot apply '" ++ operation ++ "' to " ++ left ++ " and " ++ right
  | .divisionByZero => "Division by zero"
  | .invalidArgument function problem =>
      "Invalid argument to " ++ function ++ ": " ++ problem.message
  | .aggregateOutsideGroup name =>
      "Unsupported expression: aggregate " ++ name ++ " outside a grouped context"
  | .windowOutsideRows => "Unsupported expression: window function outside a row set"

end ExpressionError

end RowPipeline
