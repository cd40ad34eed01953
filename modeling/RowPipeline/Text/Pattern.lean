import RowPipeline.Text.CharSet

/-!
# Patterns

Regular expressions and where they match. A set of positions of a text is a number: its bit `i` says
whether position `i` is in the set. A pattern takes the positions at which it starts to those at
which it can end, and a text matches if the pattern, started everywhere, ends somewhere.
-/

namespace RowPipeline.Text

/-- A set of positions of a text, one bit each. -/
abbrev Positions := Nat

namespace Positions

/-- The positions from the start of a text of so many characters to its end. -/
def all (length : Nat) : Positions := (1 <<< (length + 1)) - 1

/-- The positions in front of the characters that pass a test. -/
def before (test : Char → Bool) : List Char → Positions
  | [] => 0
  | c :: rest => 2 * before test rest + (if test c then 1 else 0)

/-- The positions of the first set that are not in the second. -/
def without (s t : Positions) : Positions := s ^^^ (s &&& t)

end Positions

/-- A condition on a position. -/
inductive Anchor where
  | textStart
  | textEnd
  | lineStart
  | lineEnd
  | wordBoundary
  | noWordBoundary
  | wordStart
  | wordEnd
  | wordStartHalf
  | wordEndHalf
deriving DecidableEq

/-- The positions of a text at which a condition holds. A word starts where the character after a
position belongs to one and the character before it does not. -/
def Anchor.positions (text : List Char) : Anchor → Positions
  | .textStart => 1
  | .textEnd => 1 <<< text.length
  | .lineStart => 1 ||| (newline <<< 1)
  | .lineEnd => newline ||| (1 <<< text.length)
  | .wordBoundary => word ^^^ (word <<< 1)
  | .noWordBoundary => everywhere.without (word ^^^ (word <<< 1))
  | .wordStart => word.without (word <<< 1)
  | .wordEnd => (word <<< 1).without word
  | .wordStartHalf => everywhere.without (word <<< 1)
  | .wordEndHalf => everywhere.without word
where
  everywhere : Positions := Positions.all text.length
  newline : Positions := Positions.before (· == '\n') text
  word : Positions := Positions.before CharSet.word.contains text

inductive Pattern where
  | empty
  | one (s : CharSet)
  | anchor (a : Anchor)
  | group (p : Pattern)
  | seq (p q : Pattern)
  | alt (p q : Pattern)
  /-- At least `least` copies, and at most `most` if that is given. -/
  | repeated (p : Pattern) (least : Nat) (most : Option Nat)
deriving DecidableEq

namespace Pattern

/-! ## Building patterns -/

/-- Whether a pattern takes no character, whatever it matches. -/
def onlyEmpty : Pattern → Bool
  | .empty | .anchor _ => true
  | .one _ => false
  | .group p => p.onlyEmpty
  | .seq p q => p.onlyEmpty && q.onlyEmpty
  | .alt p q => p.onlyEmpty && q.onlyEmpty
  | .repeated p _ most => p.onlyEmpty && most.isSome

/-- One pattern after the other. -/
def sequence : List Pattern → Pattern
  | [] => .empty
  | .empty :: rest => sequence rest
  | p :: rest =>
      match sequence rest with
      | .empty => p
      | q => .seq p q

/-- The alternatives a pattern consists of. -/
def alternatives : Pattern → List Pattern
  | .alt p q => p.alternatives ++ q.alternatives
  | p => [p]

/-- The set of a pattern that is one character of it. -/
def set? : Pattern → Option CharSet
  | .one s => some s
  | _ => none

/-- One of several patterns. Alternatives that are all one character each, or all one of a larger
set each, become a single set. -/
def alternation (ps : List Pattern) : Pattern :=
  let ps := ps.flatMap alternatives
  match ps.mapM set? with
  | some sets =>
      if sets.all (·.only?.isSome) || sets.all (·.only?.isNone) then .one (CharSet.unionAll sets)
      else chain ps
  | none => chain ps
where
  chain : List Pattern → Pattern
    | [] => .one .nothing
    | [p] => p
    | p :: rest => .alt p (chain rest)

/-- A repetition. What takes no character is matched at most once. -/
def repetition (p : Pattern) (least : Nat) (most : Option Nat) : Pattern :=
  let (least, most) :=
    if p.onlyEmpty then (min least 1, some (min 1 (most.getD 1))) else (least, most)
  if most = some 0 then .empty
  else if least = 1 && most = some 1 then p
  else .repeated p least most

/-! ## Matching -/

/-- A pattern read against one text: its sets and conditions are the positions where they hold, and
groups are gone. -/
inductive Walk where
  | stay (held : Positions)
  | advance (held : Positions)
  | seq (v w : Walk)
  | alt (v w : Walk)
  | repeated (w : Walk) (least : Nat) (most : Option Nat)

namespace Walk

/-- The greatest number of copies when up to `most` copies are made of up to `inner` copies. -/
def copies (inner most : Option Nat) : Option Nat :=
  match inner, most with
  | some 0, _ | _, some 0 => some 0
  | some a, some b => some (a * b)
  | _, _ => none

/-- Repeat a walk. Copies of what is itself repeated from `0` or `1` times on are one repetition, as
their numbers leave nothing out between the least and the greatest. -/
def again (w : Walk) (least : Nat) (most : Option Nat) : Walk :=
  let most := most.map (max least)
  match w with
  | .repeated v 0 inner => .repeated v 0 (copies inner most)
  | .repeated v 1 inner => .repeated v least (copies (inner.map (max 1)) most)
  | w => .repeated w least most

/-- The positions reached after exactly so many steps. -/
def after (step : Positions → Positions) : Nat → Positions → Positions
  | 0, s => s
  | n + 1, s =>
      let next := step s
      if next = s then s else after step n next

/-- The positions seen so far, with those reached from `fresh` in at most so many steps. -/
def within (step : Positions → Positions) : Nat → Positions → Positions → Positions
  | 0, seen, _ => seen
  | n + 1, seen, fresh =>
      let fresh := (step fresh).without seen
      if fresh = 0 then seen else within step n (seen ||| fresh) fresh

/-- The positions at which a walk ends that starts at one of the positions `s`. As no step goes
back, more copies than a text of so many characters has positions reach nothing new. -/
def ends (length : Nat) : Walk → Positions → Positions
  | .stay held, s => s &&& held
  | .advance held, s => (s &&& held) <<< 1
  | .seq v w, s => ends length w (ends length v s)
  | .alt v w, s => ends length v s ||| ends length w s
  | .repeated w least most, s =>
      let s := after (ends length w) (min least (length + 1)) s
      let extra := match most with
        | some most => min (most - least) (length + 1)
        | none => length + 1
      within (ends length w) extra s s

end Walk

/-- Read a pattern against a text. -/
def onText (text : List Char) : Pattern → Walk
  | .empty => .stay (Positions.all text.length)
  | .one s => .advance (Positions.before s.contains text)
  | .anchor a => .stay (a.positions text)
  | .group p => p.onText text
  | .seq p q => .seq (p.onText text) (q.onText text)
  | .alt p q => .alt (p.onText text) (q.onText text)
  | .repeated p least most => (p.onText text).again least most

/-- Whether a text contains a match. -/
def occursIn (p : Pattern) (text : String) : Bool :=
  let text := text.toList
  (p.onText text).ends text.length (Positions.all text.length) != 0

end Pattern

end RowPipeline.Text
