import RowPipeline.Fault
import RowPipeline.Row
import RowPipeline.Sql.Dialect

/-!
# Connectors

A connector answers SQL texts with rows. Sending is recorded, so that a run can tell what it asked.
A fixed set of tables is a connector that answers every query with the whole table it reads.
-/

namespace RowPipeline

/-- A source of rows. The answer depends on the text alone. -/
structure Connector where
  dialect : Dialect
  answer : String → Except Fault (List Row)

/-- A computation that can send SQL; the texts sent so far are its state, also when it fails. -/
abbrev Sending := ExceptT Fault (StateM (List String))

/-- Run a computation that has sent nothing yet. -/
def Sending.start {α : Type} (m : Sending α) : Except Fault α × List String := m.run.run []

/-- Ask a connector. -/
def Connector.send (c : Connector) (sql : String) : Sending (List Row) := do
  modify (· ++ [sql])
  c.answer sql

/-- A column of a table as far as the rows show it. -/
structure ColumnInfo where
  name : String
  type : String
  nullable : Bool := true

/-- Tables that never change, some of which cannot be read. -/
structure StaticTables where
  tables : Record (List Row)
  failing : List String
  dialect : Dialect

namespace StaticTables

/-- The characters after each occurrence of `FROM` and a blank. -/
def afterFrom : List Char → List (List Char)
  | 'F' :: 'R' :: 'O' :: 'M' :: ' ' :: rest => rest :: afterFrom rest
  | _ :: rest => afterFrom rest
  | [] => []

/-- The table name at the start, quotes and brackets left out. A subquery has none. -/
def leadingTable? (cs : List Char) : Option String :=
  match cs with
  | '(' :: _ => none
  | cs =>
      let name := (cs.takeWhile fun c => !Text.isBlank c && c != ')').filter fun c =>
        c != '"' && c.toNat ≠ 0x60 && c != '[' && c != ']'
      if name.isEmpty then none else some (String.ofList name)

/-- The table a query reads. -/
def tableOf? (sql : String) : Option String :=
  (afterFrom sql.toList).findSome? leadingTable?

def missing (table : String) : Fault := .failed ("Table '" ++ table ++ "' does not exist")

/-- Answer a query: the rows of its table, or their number for a count. -/
def answer (s : StaticTables) (sql : String) : Except Fault (List Row) :=
  match tableOf? sql with
  | none => .error (.failed ("Cannot find a table in query: " ++ sql))
  | some table =>
      if table ∈ s.failing then
        .error (.connection ("Connection lost while reading '" ++ table ++ "'"))
      else
        match s.tables.get? table with
        | none => .error (missing table)
        | some rows =>
            if "SELECT COUNT(*) AS total_count".toList.isPrefixOf sql.toList then
              .ok [Record.empty.insert "total_count" (.int (Int64.ofNat rows.length))]
            else .ok rows

def connector (s : StaticTables) : Connector := ⟨s.dialect, s.answer⟩

/-- The tables in the order of their names. -/
def tableNames (s : StaticTables) : List String := sortBy compare s.tables.keys

/-- The columns of a table, each with the type of its first value that is not null. -/
def schema (s : StaticTables) (table : String) : Except Fault (List ColumnInfo) :=
  match s.tables.get? table with
  | none => .error (missing table)
  | some rows =>
      .ok ((columnNames rows).map fun name =>
        let first := (rows.filterMap fun r => r.get? name).find? fun v => !v.isNull
        { name, type := (first.map Value.typeName).getD "null" })

end StaticTables

end RowPipeline
