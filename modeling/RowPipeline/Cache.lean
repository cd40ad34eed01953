import RowPipeline.Record

/-!
# Timed caches

A map from keys to values that expire, with counts of what happened to it. Time is a number of
seconds that the caller passes in.
-/

namespace RowPipeline

structure CacheEntry (α : Type) where
  value : α
  /-- The time from which on the entry counts as gone. -/
  expiresAt : Option Nat

def CacheEntry.isExpired {α : Type} (e : CacheEntry α) (now : Nat) : Bool :=
  e.expiresAt.any (· ≤ now)

structure CacheCounts where
  hits : Nat := 0
  misses : Nat := 0
  sets : Nat := 0
  deletes : Nat := 0
  evictions : Nat := 0
deriving DecidableEq

/-- The share of reads that found something. -/
def CacheCounts.hitRate (c : CacheCounts) : Float :=
  if c.hits + c.misses = 0 then 0 else Float.ofNat c.hits / Float.ofNat (c.hits + c.misses)

structure Cache (α : Type) where
  entries : Record (CacheEntry α) := {}
  counts : CacheCounts := {}
  /-- The lifetime of an entry stored without one. -/
  defaultTtl : Option Nat := none

namespace Cache

variable {α : Type}

def size (c : Cache α) : Nat := c.entries.size

def isEmpty (c : Cache α) : Bool := c.entries.isEmpty

/-- The value of a key that has not expired. Reading an expired entry drops it. -/
def get (c : Cache α) (now : Nat) (key : String) : Option α × Cache α :=
  match c.entries.get? key with
  | none => (none, { c with counts.misses := c.counts.misses + 1 })
  | some e =>
      if e.isExpired now then
        (none, { c with
          entries := c.entries.erase key
          counts.misses := c.counts.misses + 1
          counts.evictions := c.counts.evictions + 1 })
      else (some e.value, { c with counts.hits := c.counts.hits + 1 })

/-- Store a value, for its own lifetime or the default one. -/
def set (c : Cache α) (now : Nat) (key : String) (value : α) (ttl : Option Nat) : Cache α :=
  { c with
    entries := c.entries.insert key ⟨value, (ttl <|> c.defaultTtl).map (now + ·)⟩
    counts.sets := c.counts.sets + 1 }

/-- Drop a key, expired or not, and tell whether it was there. -/
def delete (c : Cache α) (key : String) : Bool × Cache α :=
  if c.entries.contains key then
    (true, { c with
      entries := c.entries.erase key
      counts.deletes := c.counts.deletes + 1 })
  else (false, c)

/-- Whether a key has a value that has not expired. -/
def contains (c : Cache α) (now : Nat) (key : String) : Bool :=
  (c.entries.get? key).any fun e => !e.isExpired now

/-- Drop all entries; the counts stay. -/
def clear (c : Cache α) : Cache α := { c with entries := {} }

/-- Drop all expired entries and tell how many they were. -/
def purge (c : Cache α) (now : Nat) : Nat × Cache α :=
  let kept := c.entries.filter fun e => !e.isExpired now
  let purged := c.entries.size - kept.size
  (purged, { c with entries := kept, counts.evictions := c.counts.evictions + purged })

end Cache

end RowPipeline
