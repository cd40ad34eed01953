import RowPipeline.Expr.Window
import RowPipeline.Fault

/-!
# Row sets

What the steps do with whole row sets: check that a field exists, sort by columns, and cut a window.
-/

namespace RowPipeline

/-- A field has to occur in some row, unless there are no rows. -/
def requireField (rows : List Row) (field role : String) : Except Fault Unit :=
  if rows.isEmpty || rows.any (·.hasField field) then .ok ()
  else .error (.failed ("Unknown " ++ role ++ " field '" ++ field ++ "'"))

/-- Sort rows by columns, each ascending or descending; rows with equal keys keep their order. -/
def sortRows (keys : List (String × Bool)) (rows : List Row) : List Row :=
  let keyed := rows.map fun r => (keys.map fun k => r.lookupD k.1, r)
  (sortBy (fun a b => compareSortKeys a.1 b.1 (keys.map Prod.snd)) keyed).map Prod.snd

/-- The items from an offset on, at most `limit` of them. -/
def cutWindow {α : Type} (limit offset : Option UInt64) (items : List α) : List α :=
  let rest := items.drop (offset.getD 0).toNat
  match limit with
  | some n => rest.take n.toNat
  | none => rest

/-- The first of rows with the same columns and values. -/
def distinctRows (rows : List Row) : List Row := distinctByKey Row.identity rows

/-- The key of some fields of a row, none if one of them is null. -/
def joinKey? (fields : List String) (row : Row) : Option String :=
  let values := fields.map row.lookupD
  if values.any Value.isNull then none
  else some (compositeKey values)

/-- The rows that have a join key, by that key, with their places. -/
def indexByKey (fields : List String) (rows : List Row) : List (String × List (Nat × Row)) :=
  (groupByKey Prod.fst ((rows.mapIdx fun i r => (joinKey? fields r).map fun k => (k, i, r))
    |>.filterMap id)).map fun g => (g.1, g.2.map Prod.snd)

/-- The rows of an index with the key of a row. -/
def matchesIn (index : List (String × List (Nat × Row))) (key : Option String) :
    List (Nat × Row) :=
  (key.bind fun k => index.lookup k).getD []

end RowPipeline
