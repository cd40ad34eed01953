import RowPipeline.Text.CharSet.Tables

/-!
# Sets of characters

A set is kept as the ranges of its code points, in order and with a gap between any two, so that
equal sets are the same value.
-/

namespace RowPipeline.Text

structure CharSet where
  ranges : List (Nat × Nat)
deriving DecidableEq

namespace CharSet

/-- Whether a code point is in a set. -/
def has (s : CharSet) (code : Nat) : Bool := s.ranges.any fun (a, b) => a ≤ code && code ≤ b

def contains (s : CharSet) (c : Char) : Bool := s.has c.toNat

/-- Continue the range `(a, b)` with ranges that start no earlier: those that overlap or touch it
become part of it. -/
def joinRanges (a b : Nat) : List (Nat × Nat) → List (Nat × Nat)
  | [] => [(a, b)]
  | (c, d) :: rest =>
      if c ≤ b + 1 then joinRanges a (max b d) rest else (a, b) :: joinRanges c d rest

/-- The set of all characters in some of the ranges. -/
def ofRanges (ranges : List (Nat × Nat)) : CharSet :=
  match ranges.mergeSort fun x y => x.1 ≤ y.1 with
  | [] => ⟨[]⟩
  | (a, b) :: rest => ⟨joinRanges a b rest⟩

def nothing : CharSet := ⟨[]⟩

/-- The largest code point. -/
def lastCode : Nat := 0x10ffff

def everything : CharSet := ⟨[(0, lastCode)]⟩

def range (first last : Char) : CharSet := ⟨[(first.toNat, last.toNat)]⟩

def single (c : Char) : CharSet := range c c

/-- The only character of a set. -/
def only? (s : CharSet) : Option Char :=
  match s.ranges with
  | [(a, b)] => if a = b then some (Char.ofNat a) else none
  | _ => none

/-! ## Operations -/

def union (s t : CharSet) : CharSet := ofRanges (s.ranges ++ t.ranges)

def unionAll (sets : List CharSet) : CharSet := ofRanges (sets.flatMap (·.ranges))

/-- What ranges leave out from `start` on. -/
def gaps (start : Nat) : List (Nat × Nat) → List (Nat × Nat)
  | [] => if start ≤ lastCode then [(start, lastCode)] else []
  | (a, b) :: rest => if start < a then (start, a - 1) :: gaps (b + 1) rest else gaps (b + 1) rest

def negate (s : CharSet) : CharSet := ⟨gaps 0 s.ranges⟩

def inter (s t : CharSet) : CharSet := (s.negate.union t.negate).negate

def difference (s t : CharSet) : CharSet := s.inter t.negate

def symmetricDifference (s t : CharSet) : CharSet := (s.difference t).union (t.difference s)

/-! ## Case -/

/-- Each code point that differs from its simple case folding, beside the folding. -/
def foldings : List (Nat × Nat) :=
  foldRuns.flatMap fun (first, last, step, shift) =>
    (List.range ((last - first) / step + 1)).map fun i =>
      let code := first + i * step
      (code, (code + shift).toNat)

/-- The set with all characters that differ in case alone from one in it: with the foldings of its
characters, and then with what folds to one of them. -/
def ignoringCase (s : CharSet) : CharSet :=
  let folded := s.union
    (ofRanges ((foldings.filter fun p => s.has p.1).map fun p => (p.2, p.2)))
  folded.union (ofRanges ((foldings.filter fun p => folded.has p.2).map fun p => (p.1, p.1)))

/-! ## Named sets -/

def digit : CharSet := ⟨digitRanges⟩

def word : CharSet := ⟨wordRanges⟩

def blank : CharSet :=
  ⟨[(0x9, 0xd), (0x20, 0x20), (0x85, 0x85), (0xa0, 0xa0), (0x1680, 0x1680), (0x2000, 0x200a),
    (0x2028, 0x2029), (0x202f, 0x202f), (0x205f, 0x205f), (0x3000, 0x3000)]⟩

end CharSet

end RowPipeline.Text
