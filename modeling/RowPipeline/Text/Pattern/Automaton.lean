import RowPipeline.Text.Pattern

/-!
# The automaton of a pattern

A pattern is accepted only if the automaton that reads the bytes of a text for it, and the one that
reads them from the end, each fit a limit of memory. An automaton is laid out here state by state as
far as its size asks for it: the number of its states and the bytes of their lists.

States are numbered in the order in which they are laid out. While a set of characters is laid out,
the states of equal continuations are shared through a table that remembers, in each of its slots,
the state entered last.
-/

namespace RowPipeline.Text

/-- The first and the last byte of a range. -/
abbrev ByteRange := Nat × Nat

/-! ## The bytes of sets of characters -/

/-- The byte ranges of the code points from `first` to `last`, where both have `more` bytes after
their first byte. `mark` is what the first byte has above its payload bits; every other byte has
`0x80`. -/
def byteRanges : Nat → Nat → Nat → Nat → List (List ByteRange)
  | 0, mark, first, last => [[(mark + first, mark + last)]]
  | more + 1, mark, first, last =>
      let span := 1 <<< (6 * (more + 1))
      let full := List.replicate (more + 1) (0x80, 0xbf)
      let (a, x) := (first / span, first % span)
      let (b, y) := (last / span, last % span)
      let under (payload first last : Nat) : List (List ByteRange) :=
        (byteRanges more 0x80 first last).map ((mark + payload, mark + payload) :: ·)
      if a = b then under a x y
      else
        let start := if x = 0 then a else a + 1
        let stop := if y = span - 1 then b + 1 else b
        (if x = 0 then [] else under a x (span - 1)) ++
          (if start < stop then [(mark + start, mark + (stop - 1)) :: full] else []) ++
          (if y = span - 1 then [] else under b 0 y)

/-- The code points by the number of bytes after the first one, with the mark of that byte. Those
between the third and the fourth group are no characters. -/
def byteLengths : List (Nat × Nat × Nat × Nat) :=
  [(0, 0x7f, 0, 0), (0x80, 0x7ff, 1, 0xc0), (0x800, 0xd7ff, 2, 0xe0), (0xe000, 0xffff, 2, 0xe0),
    (0x10000, 0x10ffff, 3, 0xf0)]

/-- The byte sequences of a set of characters in order, each a list of ranges. -/
def CharSet.byteSequences (s : CharSet) : List (List ByteRange) :=
  s.ranges.flatMap fun (a, b) =>
    byteLengths.flatMap fun (first, last, more, mark) =>
      let (a, b) := (max a first, min b last)
      if a ≤ b then byteRanges more mark a b else []

def CharSet.isAscii (s : CharSet) : Bool := s.ranges.all fun (_, b) => b ≤ 0x7f

namespace Pattern

/-- A pattern over bytes. -/
inductive ByteForm where
  | empty
  | literal (bytes : List Nat)
  /-- One byte of so many ranges. -/
  | byte (ranges : Nat)
  | sequences (each : List (List ByteRange))
  | anchor
  | group (p : ByteForm)
  | seq (p q : ByteForm)
  | alt (p q : ByteForm)
  | repeated (p : ByteForm) (least : Nat) (most : Option Nat)

def charBytes (c : Char) : List Nat := (String.singleton c).toUTF8.toList.map UInt8.toNat

def toBytes : Pattern → ByteForm
  | .empty => .empty
  | .one s =>
      match s.only? with
      | some c => .literal (charBytes c)
      | none => if s.isAscii then .byte s.ranges.length else .sequences s.byteSequences
  | .anchor _ => .anchor
  | .group p => .group p.toBytes
  | .seq p q => .seq p.toBytes q.toBytes
  | .alt p q => .alt p.toBytes q.toBytes
  | .repeated p least most => .repeated p.toBytes least most

/-- Whether every match of a form takes a byte. -/
def ByteForm.needsByte : ByteForm → Bool
  | .empty | .anchor => false
  | .literal _ | .sequences _ => true
  | .byte ranges => ranges != 0
  | .group p => p.needsByte
  | .seq p q => p.needsByte || q.needsByte
  | .alt p q => p.needsByte && q.needsByte
  | .repeated p least _ => least != 0 && p.needsByte

/-! ## Laying out -/

/-- What is laid out so far: the number of states and the bytes of their lists. -/
structure Draft where
  states : Nat := 0
  listed : Nat := 0

namespace Draft

def stateBytes : Nat := 32

/-- The bytes an edge labelled with a byte range takes. -/
def edgeBytes : Nat := 8

/-- The bytes an entry in the list of a fork takes. -/
def entryBytes : Nat := 4

/-- The greatest size of an automaton, ten mebibytes. -/
def limit : Nat := 10 * 1024 * 1024

def bytes (d : Draft) : Nat := d.states * stateBytes + d.listed

end Draft

/-- A step of laying out; it fails when the automaton becomes too large. -/
abbrev Drafting := StateT Draft Option

def checked (d : Draft) : Option (Unit × Draft) :=
  if d.bytes ≤ Draft.limit then some ((), d) else none

/-- Lay out a state whose lists take so many bytes; its number is the result. -/
def addState (listed : Nat) : Drafting Nat := fun d =>
  (checked ⟨d.states + 1, d.listed + listed⟩).map fun r => (d.states, r.2)

/-- Enter so many continuations into the lists of forks. -/
def addEntries (count : Nat) : Drafting Unit := fun d =>
  checked { d with listed := d.listed + count * Draft.entryBytes }

/-- Let a part continue. Only a part that ends in a fork keeps a list of its continuations. -/
def continuePart (endsInFork : Bool) : Drafting Unit :=
  if endsInFork then addEntries 1 else pure ()

/-! ### Shared states -/

/-- The FNV-1a hash of a list of words. -/
def fnvHash (words : List Nat) : UInt64 :=
  words.foldl (fun h w => (h ^^^ UInt64.ofNat w) * 1099511628211) 14695981039346656037

/-- The states laid out last, by the slots of their keys. -/
abbrev SharedStates := Array (Option (List Nat × Nat))

/-- A table with no states. -/
def noStates (slots : Nat) : SharedStates := Array.replicate slots none

/-- The state of a key, laid out unless the slot of the key still holds it. -/
def sharedState (shared : SharedStates) (key : List Nat) (listed : Nat) :
    Drafting (Nat × SharedStates) :=
  let slot := ((fnvHash key).toNat) % shared.size
  let remembered := match shared[slot]? with
    | some (some (known, state)) => if known = key then some state else none
    | _ => none
  match remembered with
  | some state => pure (state, shared)
  | none => do
      let state ← addState listed
      return (state, shared.setIfInBounds slot (some (key, state)))

/-- The states that read some byte sequences, which share their equal ends. All sequences go on for
the same number of bytes, at most `fuel`; after the last one comes the state `target`. -/
def layOutForwards (target : Nat) : Nat → List (List ByteRange) → SharedStates →
    Drafting (Nat × SharedStates)
  | 0, _, shared => pure (target, shared)
  | fuel + 1, sequences, shared => do
      if sequences.all List.isEmpty then return (target, shared)
      let parts := sequences.splitBy fun s t => s.head? = t.head?
      let (edges, shared) ← parts.foldlM (fun (edges, shared) part => do
        let (next, shared) ← layOutForwards target fuel (part.map List.tail) shared
        let (first, last) := (part.head?.bind List.head?).getD (0, 0)
        return (next :: last :: first :: edges, shared)) ([], shared)
      sharedState shared edges.reverse (parts.length * Draft.edgeBytes)

/-- The states that read the sequences from their last byte on, which share their equal beginnings.
Each sequence leads from its state to `target`. -/
def layOutBackwards (target : Nat) (sequences : List (List ByteRange)) (shared : SharedStates) :
    Drafting SharedStates :=
  sequences.foldlM (fun shared sequence => do
    let (_, shared) ← sequence.foldlM (fun (next, shared) (first, last) =>
      sharedState shared [next, first, last] 0) (target, shared)
    addEntries 1
    return shared) shared

def layOutSequences (backwards : Bool) (sequences : List (List ByteRange)) : Drafting Unit := do
  if backwards then
    let _ ← addState 0
    let target ← addState 0
    let _ ← layOutBackwards target sequences (noStates 1000)
  else
    let target ← addState 0
    let _ ← layOutForwards target 5 sequences (noStates 10000)

/-! ### Patterns -/

/-- The string a form consists of. -/
def ByteForm.literal? : ByteForm → Option (List Nat)
  | .literal bytes => some bytes
  | .seq p q => do return (← p.literal?) ++ (← q.literal?)
  | _ => none

/-- The strings of a form whose alternatives are all strings. -/
def ByteForm.literals? : ByteForm → Option (List (List Nat))
  | .alt p q => do return (← p.literal?) :: (← q.literals?)
  | p => do return [← p.literal?]

/-- Cut a list of strings at the empty ones. An empty string that follows an empty one at the start
is left out. -/
def cutAtEmpty : List (List Nat) → List (List (List Nat))
  | [] => [[]]
  | [] :: [] :: rest => cutAtEmpty ([] :: rest)
  | [] :: rest => [] :: cutLater rest
  | s :: rest => addFirst s (cutLater rest)
where
  addFirst (s : List Nat) : List (List (List Nat)) → List (List (List Nat))
    | part :: parts => (s :: part) :: parts
    | [] => [[s]]
  cutLater : List (List Nat) → List (List (List Nat))
    | [] => [[]]
    | [] :: rest => [] :: cutLater rest
    | s :: rest => addFirst s (cutLater rest)

/-- The states that read one of several strings, earlier ones first, which share equal beginnings.
-/
def layOutStrings : Nat → List (List Nat) → Drafting Unit
  | 0, _ => pure ()
  | fuel + 1, strings => do
      if strings.all List.isEmpty then return
      let parts := cutAtEmpty strings
      parts.forM fun part => do
        let heads := (part.filterMap List.head?).eraseDups
        heads.forM fun byte =>
          layOutStrings fuel ((part.filter fun s => s.head? = some byte).map List.tail)
        unless heads.isEmpty do
          let _ ← addState (if heads.length = 1 then 0 else heads.length * Draft.edgeBytes)
          addEntries 1
      addEntries (parts.length - 1)
      let _ ← addState 0

/-- Lay out more copies of a part after one that ends in a fork or not. -/
def moreCopies (part : Drafting Bool) : Nat → Bool → Drafting Bool
  | 0, fork => pure fork
  | n + 1, fork => do
      let next ← part
      continuePart fork
      moreCopies part n next

def exactCopies (part : Drafting Bool) : Nat → Drafting Bool
  | 0 => do
      let _ ← addState 0
      return false
  | n + 1 => do moreCopies part n (← part)

/-- Copies that can each be the last one, from a state that can go on or leave. -/
def optionalCopies (part : Drafting Bool) : Nat → Bool → Drafting Unit
  | 0, fork => continuePart fork
  | n + 1, fork => do
      let _ ← addState 0
      let next ← part
      continuePart fork
      addEntries 2
      optionalCopies part n next

/-- A part any number of times. What can match nothing is left through a state of its own. -/
def anyCopies (part : Drafting Bool) (needsByte : Bool) : Drafting Bool := do
  if needsByte then
    let _ ← addState 0
    let fork ← part
    addEntries 1
    continuePart fork
    return true
  else
    let fork ← part
    let _ ← addState 0
    continuePart fork
    let _ ← addState 0
    let _ ← addState 0
    addEntries 4
    return false

def layOutRepetition (part : Drafting Bool) (needsByte : Bool) (least : Nat)
    (most : Option Nat) : Drafting Bool := do
  match least, most with
  | 0, some 1 =>
      let _ ← addState 0
      let fork ← part
      let _ ← addState 0
      addEntries 2
      continuePart fork
      return false
  | 0, none => anyCopies part needsByte
  | least + 1, none =>
      let fork ← exactCopies part (least + 1)
      let _ ← addState 0
      continuePart fork
      addEntries 1
      return true
  | least, some most =>
      let fork ← exactCopies part least
      if least = most then return fork
      let _ ← addState 0
      optionalCopies part (most - least) fork
      return false

/-- Join an alternative to those before it, which are so many. The second one brings the state that
they fork from and the one where they meet. -/
def joinAlternative (earlier : Nat) (fork : Bool) : Drafting Unit := do
  if earlier = 1 then
    let _ ← addState 0
    let _ ← addState 0
  addEntries 1
  continuePart fork

def ByteForm.isAlternation : ByteForm → Bool
  | .alt _ _ => true
  | _ => false

/-- Lay out a form that follows `earlier` alternatives; tell whether it ends in a fork. -/
def ByteForm.layOut (backwards : Bool) : ByteForm → Nat → Drafting Bool
  | .empty, _ | .anchor, _ => do
      let _ ← addState 0
      return false
  | .literal bytes, _ => do
      bytes.forM fun _ => do
        let _ ← addState 0
      return false
  | .byte ranges, _ => do
      let _ ← addState 0
      let _ ← addState (ranges * Draft.edgeBytes)
      return false
  | .sequences each, _ => do
      layOutSequences backwards each
      return false
  | .group p, _ => do
      if backwards then layOut backwards p 0
      else
        let _ ← addState 0
        let fork ← layOut backwards p 0
        let _ ← addState 0
        continuePart fork
        return false
  | .seq p q, _ => do
      if backwards then
        let fork ← layOut backwards q 0
        let last ← layOut backwards p 0
        continuePart fork
        return last
      else
        let fork ← layOut backwards p 0
        let last ← layOut backwards q 0
        continuePart fork
        return last
  | .alt p q, earlier => do
      match if earlier = 0 then (ByteForm.alt p q).literals? else none with
      | some strings =>
          let _ ← addState 0
          let strings := if backwards then strings.map List.reverse else strings
          layOutStrings ((strings.map List.length).foldl max 0 + 1) strings
      | none =>
          joinAlternative earlier (← layOut backwards p 0)
          let fork ← layOut backwards q (earlier + 1)
          unless q.isAlternation do joinAlternative (earlier + 1) fork
      return false
  | .repeated p least most, _ =>
      layOutRepetition (layOut backwards p 0) p.needsByte least most

/-! ## The limit -/

/-- Whether a condition has to hold where a match starts, or where it ends. -/
def mustHold (a : Anchor) (atEnd : Bool) : Pattern → Bool
  | .anchor b => a = b
  | .group p => p.mustHold a atEnd
  | .seq p q =>
      if atEnd then q.mustHold a atEnd || (q.onlyEmpty && p.mustHold a atEnd)
      else p.mustHold a atEnd || (p.onlyEmpty && q.mustHold a atEnd)
  | .alt p q => p.mustHold a atEnd && q.mustHold a atEnd
  | .repeated p least _ => least != 0 && p.mustHold a atEnd
  | .empty | .one _ => false

/-- Lay out the automaton of a pattern: what skips the bytes in front of a match, the pattern, which
is a group of its own when texts are read forwards, and the state of success. -/
def layOutWhole (p : Pattern) (backwards : Bool) : Drafting Unit := do
  if p.mustHold (if backwards then .textEnd else .textStart) backwards then
    let _ ← addState 0
  else
    let _ ← addState 0
    let _ ← addState 0
    let _ ← addState Draft.edgeBytes
    addEntries 2
  let form := p.toBytes
  let fork ← (if backwards then form else .group form).layOut backwards 0
  let _ ← addState 0
  continuePart fork

/-- The number of bytes of the automaton of a pattern, if it is within the limit. -/
def automatonBytes? (p : Pattern) (backwards : Bool) : Option Nat :=
  ((p.layOutWhole backwards).run (Draft.mk 0 0)).map fun r => r.2.bytes

/-- Whether both automata of a pattern are within the limit. -/
def fits (p : Pattern) : Bool :=
  (p.automatonBytes? false).isSome && (p.automatonBytes? true).isSome

end Pattern

end RowPipeline.Text
