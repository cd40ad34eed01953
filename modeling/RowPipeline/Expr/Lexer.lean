import RowPipeline.Expr.Token

/-!
# Splitting a text into tokens

Every scanner takes the characters left and gives back what follows its lexeme. The position of a
place in the text is the number of characters in all less those left.
-/

namespace RowPipeline.Lexer

/-- Whether an identifier goes on with `c` when `rest` follows: a point only before a name. -/
def continuesName (c : Char) (rest : List Char) : Bool :=
  Text.isAlphanumeric c || c == '_' ||
    (c == '.' && match rest with
      | next :: _ => Text.isAlphabetic next || next == '_'
      | [] => false)

/-- The longest name at the start and what follows it. -/
def takeName : List Char → List Char × List Char
  | [] => ([], [])
  | c :: rest =>
      if continuesName c rest then
        let (taken, left) := takeName rest
        (c :: taken, left)
      else ([], c :: rest)

/-- The character that an escape in a string stands for. -/
def escape? : Char → Option Char
  | 'n' => some '\n'
  | 't' => some '\t'
  | 'r' => some '\r'
  | '\\' => some '\\'
  | '\'' => some '\''
  | '"' => some '"'
  | _ => none

/-- Why a string literal does not end: at a bad escape, with the characters left there, or at the
end of the text. -/
inductive StringFault where
  | badEscape (c : Char) (left : List Char)
  | unterminated

/-- The rest of a string literal after its opening quote. A doubled quote stands for one. -/
def takeString (quote : Char) : List Char → Except StringFault (List Char × List Char)
  | [] => .error .unterminated
  | [c] => if c == quote then .ok ([], []) else .error .unterminated
  | c :: d :: rest =>
      if c == quote then
        if d == quote then (takeString quote rest).map fun p => (quote :: p.1, p.2)
        else .ok ([], d :: rest)
      else if c == '\\' then
        match escape? d with
        | some e => (takeString quote rest).map fun p => (e :: p.1, p.2)
        | none => .error (.badEscape d (d :: rest))
      else (takeString quote (d :: rest)).map fun p => (c :: p.1, p.2)

/-- A number: digits, with a fraction when a point stands between digits. An integer past the 64-bit
range is a double. -/
def takeNumber (cs : List Char) : Token × List Char :=
  let whole := cs.takeWhile Text.isAsciiDigit
  let rest := cs.dropWhile Text.isAsciiDigit
  let size := Decimal.digitsValue whole
  let integer :=
    if size < 0x8000000000000000 then Token.integer (Int64.ofNat size)
    else .float (Decimal.nearest size 0)
  match rest with
  | '.' :: c :: more =>
      if Text.isAsciiDigit c then
        let fraction := (c :: more).takeWhile Text.isAsciiDigit
        (.float (Decimal.Parts.value ⟨whole, fraction, 0⟩), (c :: more).dropWhile Text.isAsciiDigit)
      else (integer, rest)
  | _ => (integer, rest)

/-- A parameter after its dollar sign, bare or in braces. -/
def takeParam (cs : List Char) : Except SyntaxProblem (Token × List Char) :=
  match cs with
  | '\x7b' :: rest =>
      match takeName rest with
      | (c :: name, '\x7d' :: left) => .ok (.param (String.ofList (c :: name)), left)
      | _ => .error .malformedParameter
  | rest =>
      match takeName rest with
      | ([], _) => .error .missingParameterName
      | (name, left) => .ok (.param (String.ofList name), left)

/-- A name between back quotes, after the opening one; it has no escapes. -/
def takeQuotedIdent : List Char → Option (List Char × List Char)
  | [] => none
  | c :: rest =>
      if c.toNat = 0x60 then some ([], rest)
      else (takeQuotedIdent rest).map fun p => (c :: p.1, p.2)

/-- The operators and marks, the longer ones first. -/
def takeMark? : List Char → Option (Token × List Char)
  | '=' :: '=' :: rest => some (.eq, rest)
  | '!' :: '=' :: rest => some (.notEq, rest)
  | '<' :: '=' :: rest => some (.ltEq, rest)
  | '<' :: '>' :: rest => some (.notEq, rest)
  | '>' :: '=' :: rest => some (.gtEq, rest)
  | '&' :: '&' :: rest => some (.andAnd, rest)
  | '|' :: '|' :: rest => some (.orOr, rest)
  | '+' :: rest => some (.plus, rest)
  | '-' :: rest => some (.minus, rest)
  | '*' :: rest => some (.star, rest)
  | '/' :: rest => some (.slash, rest)
  | '%' :: rest => some (.percent, rest)
  | '(' :: rest => some (.lparen, rest)
  | ')' :: rest => some (.rparen, rest)
  | ',' :: rest => some (.comma, rest)
  | '=' :: rest => some (.eq, rest)
  | '!' :: rest => some (.bang, rest)
  | '<' :: rest => some (.lt, rest)
  | '>' :: rest => some (.gt, rest)
  | _ => none

/-- The token that starts with `c` and what follows it; `total` is the length of the text. -/
def takeToken (total : Nat) (c : Char) (rest : List Char) :
    Except ExpressionError (Token × List Char) :=
  let here := total - (rest.length + 1)
  if c == '$' then
    match takeParam rest with
    | .ok found => .ok found
    | .error problem => .error (.syntaxError here problem)
  else if c == '\'' || c == '"' then
    match takeString c rest with
    | .ok (s, left) => .ok (.string (String.ofList s), left)
    | .error (.badEscape e left) => .error (.syntaxError (total - left.length) (.invalidEscape e))
    | .error .unterminated => .error (.syntaxError here .unterminatedString)
  else if c.toNat = 0x60 then
    match takeQuotedIdent rest with
    | some (name, left) => .ok (.quotedIdent (String.ofList name), left)
    | none => .error (.syntaxError here .unterminatedIdentifier)
  else if Text.isAsciiDigit c then .ok (takeNumber (c :: rest))
  else if Text.isAlphabetic c || c == '_' then
    let (name, left) := takeName (c :: rest)
    .ok (.ident (String.ofList name), left)
  else
    match takeMark? (c :: rest) with
    | some found => .ok found
    | none => .error (.syntaxError here (.unexpectedCharacter c))

/-- The tokens of the characters left, without the end mark. Every step takes a character at least,
so as much fuel as there are characters is enough. -/
def tokensFrom (total : Nat) : Nat → List Char → Except ExpressionError (List Spanned)
  | 0, _ => .ok []
  | fuel + 1, cs =>
      match cs.dropWhile Text.isBlank with
      | [] => .ok []
      | c :: rest =>
          match takeToken total c rest with
          | .error e => .error e
          | .ok (token, left) =>
              (tokensFrom total fuel left).map (⟨total - (rest.length + 1), token⟩ :: ·)

/-- The tokens of a text, without the end mark. -/
def tokens (text : String) : Except ExpressionError (List Spanned) :=
  let cs := text.toList
  tokensFrom cs.length cs.length cs

/-- The tokens of a text, the end mark last. -/
def tokenize (text : String) : Except ExpressionError (List Spanned) :=
  (tokens text).map (· ++ [⟨text.toList.length, .eof⟩])

end RowPipeline.Lexer
