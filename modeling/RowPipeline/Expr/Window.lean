import RowPipeline.Expr.Aggregate
import RowPipeline.Sorting

/-!
# Window functions

The rows are split into partitions by key, each partition is sorted, and every row gets the value of
its place in it. Rows with equal sort keys are peers.
-/

namespace RowPipeline

/-- The order of two sort keys: nulls are last, and a descending key reverses its whole order. -/
def compareSortKeys : List Value → List Value → List Bool → Ordering
  | a :: as, b :: bs, descending :: rest =>
      let order : Ordering :=
        match a.isNull, b.isNull with
        | true, true => .eq
        | true, false => .gt
        | false, true => .lt
        | false, false => a.totalCompare b
      let order := if descending then order.swap else order
      order.then (compareSortKeys as bs rest)
  | _, _, _ => .eq

namespace Window

/-- A row with its place in the row set, its partition key and its sort key. -/
structure Entry where
  index : Nat
  row : Row
  partitionKey : String
  sortKey : List Value

def entryOf (spec : WindowSpec Expr) (params : Option Parameters) (index : Nat) (row : Row) :
    Expr.Outcome Entry := do
  let partition ← spec.partitionBy.mapM fun e => e.evalLenient row params
  let sortKey ← spec.orderBy.mapM fun k => k.expr.evalLenient row params
  return ⟨index, row, compositeKey partition, sortKey⟩

def entriesFrom (spec : WindowSpec Expr) (params : Option Parameters) :
    Nat → List Row → Expr.Outcome (List Entry)
  | _, [] => .ok []
  | index, row :: rest => do
      let entry ← entryOf spec params index row
      return entry :: (← entriesFrom spec params (index + 1) rest)

def peers (descending : List Bool) (a b : Entry) : Bool :=
  compareSortKeys a.sortKey b.sortKey descending = .eq

/-- The ranks of sorted entries: `passed` entries stand before, `previous` being the last of them
and `rank` its rank. -/
def ranks (dense : Bool) (descending : List Bool) :
    Nat → Option Entry → Nat → List Entry → List (Nat × Value)
  | _, _, _, [] => []
  | passed, previous, rank, e :: rest =>
      let tied := previous.any fun p => peers descending p e
      let rank := if tied then rank else if dense then rank + 1 else passed + 1
      (e.index, .ofNat rank) :: ranks dense descending (passed + 1) (some e) rank rest

def rowNumbers : Nat → List Entry → List (Nat × Value)
  | _, [] => []
  | passed, e :: rest => (e.index, .ofNat (passed + 1)) :: rowNumbers (passed + 1) rest

/-- Running aggregates of sorted entries, all peers together. `seen` holds the arguments of the
entries before and `run` the indices of the peers met so far, whose last one is `previous`. -/
def runningFrom (func : AggregateFunction) (descending : List Bool) :
    List Value → List Nat → Option Entry → List (Entry × Value) → List (Nat × Value)
  | seen, run, _, [] =>
      let v := aggregateValues func seen
      run.map fun index => (index, v)
  | seen, run, previous, (e, arg) :: rest =>
      match previous with
      | none => runningFrom func descending (seen ++ [arg]) [e.index] (some e) rest
      | some first =>
          if peers descending first e then
            runningFrom func descending (seen ++ [arg]) (run ++ [e.index]) (some first) rest
          else
            let v := aggregateValues func seen
            (run.map fun index => (index, v)) ++
              runningFrom func descending (seen ++ [arg]) [e.index] (some e) rest

/-- The values of one sorted partition, by row index. -/
def partitionValues (spec : WindowSpec Expr) (params : Option Parameters) (members : List Entry) :
    Expr.Outcome (List (Nat × Value)) :=
  let descending := spec.orderBy.map OrderKey.descending
  match spec.func with
  | .rowNumber => .ok (rowNumbers 0 members)
  | .rank => .ok (ranks false descending 0 none 0 members)
  | .denseRank => .ok (ranks true descending 0 none 0 members)
  | .aggregate func arg =>
      if spec.orderBy.isEmpty then do
        let v ← Expr.evalAggregate func arg (members.map Entry.row) params
        return members.map fun e => (e.index, v)
      else do
        let args ← match arg with
          | some arg => members.mapM fun e => arg.evalLenient e.row params
          | none => pure (members.map fun _ => Value.bool true)
        return runningFrom func descending [] [] none (members.zip args)

end Window

/-- The values of a window function, one per row. -/
def windowValues (spec : WindowSpec Expr) (rows : List Row) (params : Option Parameters) :
    Expr.Outcome (List Value) := do
  let entries ← Window.entriesFrom spec params 0 rows
  let descending := spec.orderBy.map OrderKey.descending
  let partitions := (groupByKey Window.Entry.partitionKey entries).map fun g =>
    sortBy (fun a b => compareSortKeys a.sortKey b.sortKey descending) g.2
  let values ← partitions.mapM (Window.partitionValues spec params)
  let placed := values.flatten
  return (List.range rows.length).map fun i => (placed.lookup i).getD .null

namespace Expr

/-- The values of all window functions of an expression by slot, or the first failure. -/
def windowTable (rows : List Row) (params : Option Parameters) :
    List (Nat × WindowSpec Expr) → Outcome (List (Nat × List Value))
  | [] => .ok []
  | (slot, spec) :: rest => do
      let values ← windowValues spec rows params
      return (slot, values) :: (← windowTable rows params rest)

/-- The value of an expression on the row at `index` once windows are computed and aggregates
filled in. -/
def evalAt (windows : List (Nat × List Value)) (params : Option Parameters) (index : Nat)
    (row : Row) (e : Expr) : Outcome Value :=
  e.eval ⟨some row, params, fun slot => (windows.lookup slot).bind (·[index]?)⟩

/-- The values of an expression on all rows. Aggregates range over the group of the row, or over all
rows when no groups are given. A window function that fails makes every row fail. -/
def evalRows (e : Expr) (rows : List Row) (groups : Option (List (List Row)))
    (params : Option Parameters) : List (Outcome Value) :=
  match windowTable rows params e.windows with
  | .error err => rows.map fun _ => .error err
  | .ok windows =>
      match groups with
      | none =>
          let filled := if e.containsAggregate then e.fillAggregates rows params else .ok e
          rows.mapIdx fun index row => filled.bind (evalAt windows params index row)
      | some groups =>
          rows.mapIdx fun index row =>
            let filled :=
              if e.containsAggregate then e.fillAggregates ((groups[index]?).getD []) params
              else .ok e
            filled.bind (evalAt windows params index row)

end Expr

end RowPipeline
