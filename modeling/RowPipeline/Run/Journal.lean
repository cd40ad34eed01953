import RowPipeline.Cache
import RowPipeline.Run.Event
import RowPipeline.Run.Result

/-!
# The journal of a run

All that a run changes: the cache, the events told and the SQL texts sent.
-/

namespace RowPipeline

/-- What a cache holds. -/
inductive Stored where
  | step (output : StepOutput)
  | run (result : RunResult)

/-- A row as it comes out of a cache: what is stored is JSON, where a double that is no number
becomes null. -/
def Row.throughJson (row : Row) : Row := row.map fun v => Value.ofJson v.toJson

/-- The form in which something is stored. -/
def Stored.throughJson : Stored → Stored
  | .step output => .step { output with rows := output.rows.map Row.throughJson }
  | .run result => .run { result with rows := result.rows.map Row.throughJson }

structure Journal where
  /-- The time in seconds. -/
  now : Nat := 0
  cache : Option (Cache Stored) := none
  events : List Event := []
  sent : List String := []

/-- A computation that keeps a journal. -/
abbrev Recorded := StateM Journal

namespace Recorded

def tell (e : Event) : Recorded Unit := modify fun j => { j with events := j.events ++ [e] }

/-- Read a key of the cache. -/
def find (key : String) : Recorded (Option Stored) := do
  let j ← get
  match j.cache with
  | none => return none
  | some cache =>
      let (found, cache) := cache.get j.now key
      set { j with cache := some cache }
      return found

/-- Write a key of the cache, for some seconds. -/
def store (key : String) (value : Stored) (ttl : UInt64) : Recorded Unit :=
  modify fun j =>
    { j with cache := j.cache.map fun c => c.set j.now key value.throughJson (some ttl.toNat) }

/-- Carry out a computation that sends SQL. -/
def send {α : Type} (m : Sending α) : Recorded (Except Fault α) := do
  let (result, sent) := m.start
  modify fun j => { j with sent := j.sent ++ sent }
  return result

end Recorded

end RowPipeline
