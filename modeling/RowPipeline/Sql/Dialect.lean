import RowPipeline.Fault

/-!
# SQL dialects

What differs between databases: pagination clauses and boolean literals.
-/

namespace RowPipeline

inductive Dialect where
  | generic
  | postgres
  | mySql
  | sqlite
  | sqlServer
deriving DecidableEq

namespace Dialect

def all : List Dialect := [.generic, .postgres, .mySql, .sqlite, .sqlServer]

def name : Dialect → String
  | .generic => "generic"
  | .postgres => "postgres"
  | .mySql => "mysql"
  | .sqlite => "sqlite"
  | .sqlServer => "sqlserver"

/-- The names of the dialects; case, blanks around, and underscores, hyphens and spaces in a name do
not count. -/
def ofName? (text : String) : Option Dialect :=
  let normal := (Text.asciiLower (Text.trimBlanks text)).toList.filter fun c =>
    c != '_' && c != '-' && c != ' '
  match String.ofList normal with
  | "generic" | "ansi" => some .generic
  | "postgres" | "postgresql" | "pg" => some .postgres
  | "mysql" | "mariadb" => some .mySql
  | "sqlite" | "sqlite3" => some .sqlite
  | "sqlserver" | "mssql" | "tsql" => some .sqlServer
  | _ => none

/-- Read the name of a dialect. -/
def read (text : String) : Except ParseError Dialect :=
  match ofName? text with
  | some d => .ok d
  | none =>
      .error ((ParseError.of ("Unknown SQL dialect '" ++ text ++ "'")).withValue (.string text))

/-- The clause for a window of rows. An offset of zero is none, and some dialects need a limit
before an offset. -/
def pagination (d : Dialect) (limit offset : Option UInt64) : Option String :=
  let offset := offset.filter (0 < ·)
  match d, limit, offset with
  | _, none, none => none
  | .sqlServer, limit, offset =>
      some ("OFFSET " ++ toString (offset.getD 0).toNat ++ " ROWS" ++
        (match limit with
          | some n => " FETCH NEXT " ++ toString n.toNat ++ " ROWS ONLY"
          | none => ""))
  | _, some n, none => some ("LIMIT " ++ toString n.toNat)
  | _, some n, some o => some ("LIMIT " ++ toString n.toNat ++ " OFFSET " ++ toString o.toNat)
  | .mySql, none, some o => some ("LIMIT 18446744073709551615 OFFSET " ++ toString o.toNat)
  | .sqlite, none, some o => some ("LIMIT -1 OFFSET " ++ toString o.toNat)
  | _, none, some o => some ("OFFSET " ++ toString o.toNat)

def requiresOrderForPagination (d : Dialect) : Bool := d = .sqlServer

def boolean (d : Dialect) (b : Bool) : String :=
  match d, b with
  | .sqlServer, true => "1"
  | .sqlServer, false => "0"
  | _, true => "TRUE"
  | _, false => "FALSE"

end Dialect

end RowPipeline
