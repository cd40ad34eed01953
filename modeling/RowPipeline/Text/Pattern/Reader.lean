import RowPipeline.Text.CharClass
import RowPipeline.Text.Pattern.Automaton

/-!
# Reading patterns

The notation of regular expressions: literals, the dot, classes in brackets, escapes, anchors,
groups with switches, alternatives and repetitions. Greedy and lazy repetitions read alike, since
they match the same texts. A pattern may be nested up to a limit, and its automata have to be small
enough.
-/

namespace RowPipeline.Text

/-- Why a text is no pattern. -/
inductive PatternProblem where
  | endsInEscape
  | unknownEscape (c : Char)
  | badCodePoint
  | badBoundary
  | unclosedClass
  | badRange
  | unclosedGroup
  | unopenedGroup
  | badGroupName
  | badSwitch
  | nothingToRepeat
  | badRepetition
  | nestedTooDeep
  | tooLarge
deriving DecidableEq

def PatternProblem.message : PatternProblem → String
  | .endsInEscape => "the pattern ends after a backslash"
  | .unknownEscape c => "unknown escape of '" ++ String.singleton c ++ "'"
  | .badCodePoint => "a code point is malformed"
  | .badBoundary => "the name of a boundary is malformed"
  | .unclosedClass => "a class is not closed"
  | .badRange => "a range of a class is malformed"
  | .unclosedGroup => "a group is not closed"
  | .unopenedGroup => "a group is closed that was not opened"
  | .badGroupName => "the name of a group is malformed"
  | .badSwitch => "a switch is malformed"
  | .nothingToRepeat => "there is nothing to repeat"
  | .badRepetition => "a repetition is malformed"
  | .nestedTooDeep => "the pattern is nested too deep"
  | .tooLarge => "the automaton of the pattern is too large"

namespace Pattern

/-- A reading from the start of a text; it gives what is read and the rest. -/
abbrev Reading := Except PatternProblem

/-! ## Escapes -/

inductive Escape where
  | char (c : Char)
  | set (s : CharSet)
  | anchor (a : Anchor)

/-- The character with a code point written in hexadecimal. -/
def codePoint (digits : List Char) : Except PatternProblem Char :=
  let n := digits.foldl (fun n c => n * 16 + hexDigitValue c) 0
  if !digits.isEmpty && digits.all isHexDigit && n.isValidChar then .ok (Char.ofNat n)
  else .error .badCodePoint
where
  hexDigitValue (c : Char) : Nat :=
    if isAsciiDigit c then c.toNat - 0x30 else c.toLower.toNat - 0x61 + 10

/-- A code point in braces or of a fixed number of digits. -/
def readCodePoint (width : Nat) (cs : List Char) : Reading (Char × List Char) :=
  match cs with
  | '\x7b' :: rest =>
      match rest.dropWhile (· != '\x7d') with
      | [] => .error .badCodePoint
      | _ :: after => do return (← codePoint (rest.takeWhile (· != '\x7d')), after)
  | cs =>
      if (cs.take width).length = width then do return (← codePoint (cs.take width), cs.drop width)
      else .error .badCodePoint

/-- The boundaries that are named in braces. -/
def namedBoundaries : List (String × Anchor) :=
  [("start", .wordStart), ("end", .wordEnd), ("start-half", .wordStartHalf),
    ("end-half", .wordEndHalf)]

/-- Read what follows the letter of a boundary of words. Braces name a special boundary if a letter
or a hyphen follows the opening one, and repeat the plain boundary otherwise. -/
def readBoundary (cs : List Char) : Reading (Escape × List Char) :=
  let isNameChar c := isAsciiLetter c || c == '-'
  match cs with
  | ['\x7b'] => .error .badBoundary
  | '\x7b' :: c :: rest =>
      if !isNameChar c then .ok (.anchor .wordBoundary, cs)
      else
        let name := c :: rest.takeWhile isNameChar
        match rest.dropWhile isNameChar, namedBoundaries.lookup (String.ofList name) with
        | '\x7d' :: rest, some a => .ok (.anchor a, rest)
        | _, _ => .error .badBoundary
  | cs => .ok (.anchor .wordBoundary, cs)

/-- Read what follows a backslash. Letters and digits have a meaning or are an error; other ASCII
characters stand for themselves. -/
def readEscape : List Char → Reading (Escape × List Char)
  | [] => .error .endsInEscape
  | c :: rest =>
      match c with
      | 'd' => .ok (.set .digit, rest)
      | 'D' => .ok (.set (.negate .digit), rest)
      | 's' => .ok (.set .blank, rest)
      | 'S' => .ok (.set (.negate .blank), rest)
      | 'w' => .ok (.set .word, rest)
      | 'W' => .ok (.set (.negate .word), rest)
      | 'x' => do
          let (c, rest) ← readCodePoint 2 rest
          return (.char c, rest)
      | 'u' => do
          let (c, rest) ← readCodePoint 4 rest
          return (.char c, rest)
      | 'U' => do
          let (c, rest) ← readCodePoint 8 rest
          return (.char c, rest)
      | 'a' => .ok (.char '\x07', rest)
      | 'f' => .ok (.char '\x0c', rest)
      | 't' => .ok (.char '\t', rest)
      | 'n' => .ok (.char '\n', rest)
      | 'r' => .ok (.char '\r', rest)
      | 'v' => .ok (.char '\x0b', rest)
      | 'A' => .ok (.anchor .textStart, rest)
      | 'z' => .ok (.anchor .textEnd, rest)
      | 'b' => readBoundary rest
      | 'B' => .ok (.anchor .noWordBoundary, rest)
      | '<' => .ok (.anchor .wordStart, rest)
      | '>' => .ok (.anchor .wordEnd, rest)
      | c =>
          if c.toNat < 0x80 && !isAsciiDigit c && !isAsciiLetter c then .ok (.char c, rest)
          else .error (.unknownEscape c)

/-! ## Classes -/

/-- The named classes of ASCII characters. -/
def asciiClasses : List (String × List (Char × Char)) :=
  [("alnum", [('0', '9'), ('A', 'Z'), ('a', 'z')]), ("alpha", [('A', 'Z'), ('a', 'z')]),
    ("ascii", [('\x00', '\x7f')]), ("blank", [('\t', '\t'), (' ', ' ')]),
    ("cntrl", [('\x00', '\x1f'), ('\x7f', '\x7f')]), ("digit", [('0', '9')]),
    ("graph", [('!', '~')]), ("lower", [('a', 'z')]), ("print", [(' ', '~')]),
    ("punct", [('!', '/'), (':', '@'), ('[', '\x60'), ('\x7b', '~')]),
    ("space", [('\t', '\r'), (' ', ' ')]), ("upper", [('A', 'Z')]),
    ("word", [('0', '9'), ('A', 'Z'), ('_', '_'), ('a', 'z')]),
    ("xdigit", [('0', '9'), ('A', 'F'), ('a', 'f')])]

/-- Close a set under case if case is ignored, and then negate it if it is negated. -/
def finishSet (ignoreCase negated : Bool) (s : CharSet) : CharSet :=
  let s := if ignoreCase then s.ignoringCase else s
  if negated then s.negate else s

/-- A named class after its opening bracket, such as `:alpha:]`. -/
def readAsciiClass? (ignoreCase : Bool) : List Char → Option (CharSet × List Char)
  | ':' :: cs =>
      let (negated, cs) := match cs with
        | '^' :: rest => (true, rest)
        | cs => (false, cs)
      match cs.dropWhile (· != ':') with
      | ':' :: ']' :: rest =>
          (asciiClasses.lookup (String.ofList (cs.takeWhile (· != ':')))).map fun ranges =>
            let s := CharSet.unionAll (ranges.map fun (a, b) => .range a b)
            (finishSet ignoreCase negated s, rest)
      | _ => none
  | _ => none

/-- One member of a class, a character or a set. -/
def readMember : List Char → Reading (Escape × List Char)
  | '\\' :: rest => readEscape rest
  | c :: rest => .ok (.char c, rest)
  | [] => .error .unclosedClass

def Escape.toSet : Escape → Except PatternProblem CharSet
  | .char c => .ok (.single c)
  | .set s => .ok s
  | .anchor _ => .error .badRange

/-- A member or a range of a class. A hyphen before the closing bracket or before another hyphen
makes no range. -/
def readRange (cs : List Char) : Reading (CharSet × List Char) := do
  let (first, rest) ← readMember cs
  match rest with
  | [] => throw .unclosedClass
  | '-' :: ']' :: _ | '-' :: '-' :: _ => return (← first.toSet, rest)
  | '-' :: rest =>
      if rest.isEmpty then throw .unclosedClass
      let (last, rest) ← readMember rest
      match first, last with
      | .char a, .char b => if a ≤ b then return (.range a b, rest) else throw .badRange
      | _, _ => throw .badRange
  | rest => return (← first.toSet, rest)

/-- An operation between the parts of a class. -/
inductive ClassOperator where
  | inter
  | difference
  | symmetricDifference

def ClassOperator.apply : ClassOperator → CharSet → CharSet → CharSet
  | .inter => .inter
  | .difference => .difference
  | .symmetricDifference => .symmetricDifference

/-- A set and how deep the text of it is nested. -/
structure NestedSet where
  set : CharSet
  depth : Nat

/-- The parts of a class read so far: what stands before the last operator, and the members after
it, the last one first. -/
structure ClassParts where
  left : Option (NestedSet × ClassOperator) := none
  members : List NestedSet := []

namespace ClassParts

def add (p : ClassParts) (s : CharSet) (depth : Nat) : ClassParts :=
  { p with members := ⟨s, depth⟩ :: p.members }

def addHyphens (p : ClassParts) (count : Nat) : ClassParts :=
  { p with members := List.replicate count ⟨.single '-', 0⟩ ++ p.members }

/-- The members after the last operator. Several of them count as one level. -/
def current (p : ClassParts) : NestedSet :=
  let depth := (p.members.map (·.depth)).foldl max 0
  ⟨.unionAll (p.members.map (·.set)), if p.members.length ≤ 1 then depth else depth + 1⟩

/-- All parts together. The two sides of an operator are closed under case on their own. -/
def value (ignoreCase : Bool) (p : ClassParts) : NestedSet :=
  match p.left with
  | none => p.current
  | some (left, op) =>
      let right := p.current
      ⟨op.apply (finishSet ignoreCase false left.set) (finishSet ignoreCase false right.set),
        max left.depth right.depth + 1⟩

def operator (ignoreCase : Bool) (p : ClassParts) (op : ClassOperator) : ClassParts :=
  ⟨some (p.value ignoreCase, op), []⟩

end ClassParts

/-- The start of a class after its bracket: whether it is negated, and the hyphens or the closing
bracket that stand for themselves there. -/
def openClass (cs : List Char) : Reading ((Bool × ClassParts) × List Char) :=
  let (negated, cs) := match cs with
    | '^' :: rest => (true, rest)
    | cs => (false, cs)
  let rest := cs.dropWhile (· == '-')
  let parts := ClassParts.addHyphens {} (cs.length - rest.length)
  match rest with
  | [] => .error .unclosedClass
  | ']' :: after =>
      if parts.members.isEmpty then .ok ((negated, parts.add (.single ']') 0), after)
      else .ok ((negated, parts), rest)
  | rest => .ok ((negated, parts), rest)

mutual

/-- Read a class after its opening bracket. Every call takes a character, so that the length of the
text is enough fuel. -/
def readClass (ignoreCase : Bool) : Nat → List Char → Reading (NestedSet × List Char)
  | 0, _ => .error .unclosedClass
  | fuel + 1, cs => do
      let ((negated, parts), rest) ← openClass cs
      let (s, rest) ← readClassRest ignoreCase fuel parts rest
      return (⟨finishSet ignoreCase negated s.set, s.depth + 1⟩, rest)

/-- Read the members of a class up to its closing bracket. -/
def readClassRest (ignoreCase : Bool) :
    Nat → ClassParts → List Char → Reading (NestedSet × List Char)
  | 0, _, _ => .error .unclosedClass
  | _, _, [] => .error .unclosedClass
  | fuel + 1, parts, cs =>
      match cs with
      | ']' :: rest => .ok (parts.value ignoreCase, rest)
      | '[' :: rest =>
          match readAsciiClass? ignoreCase rest with
          | some (s, rest) => readClassRest ignoreCase fuel (parts.add s 0) rest
          | none => do
              let (s, rest) ← readClass ignoreCase fuel rest
              readClassRest ignoreCase fuel (parts.add s.set s.depth) rest
      | '&' :: '&' :: rest =>
          readClassRest ignoreCase fuel (parts.operator ignoreCase .inter) rest
      | '-' :: '-' :: rest =>
          readClassRest ignoreCase fuel (parts.operator ignoreCase .difference) rest
      | '~' :: '~' :: rest =>
          readClassRest ignoreCase fuel (parts.operator ignoreCase .symmetricDifference) rest
      | cs => do
          let (s, rest) ← readRange cs
          readClassRest ignoreCase fuel (parts.add s 0) rest

end

/-! ## Groups and switches -/

/-- The switches in force. -/
structure Switches where
  ignoreCase : Bool := false
  multiLine : Bool := false
  dotMatchesNewline : Bool := false

/-- Set the switch of a letter. Which of two matches is preferred makes no difference here. -/
def Switches.set (s : Switches) (on : Bool) : Char → Option Switches
  | 'i' => some { s with ignoreCase := on }
  | 'm' => some { s with multiLine := on }
  | 's' => some { s with dotMatchesNewline := on }
  | 'U' => some s
  | _ => none

/-- Set the switches of a list of letters; those after a hyphen are turned off. -/
def applySwitches (s : Switches) (on : Bool) : List Char → Except PatternProblem Switches
  | [] => .ok s
  | ['-'] => .error .badSwitch
  | '-' :: rest => if on then applySwitches s false rest else .error .badSwitch
  | c :: rest =>
      match s.set on c with
      | some s => if c ∈ rest then .error .badSwitch else applySwitches s on rest
      | none => .error .badSwitch

/-- What an opening parenthesis begins. -/
inductive GroupStart where
  | group (switches : Switches) (captures : Bool)
  | switch (switches : Switches)

def isNameChar (first : Bool) (c : Char) : Bool :=
  c == '_' || (if first then isAlphabetic c
    else isAlphanumeric c || c == '.' || c == '[' || c == ']')

/-- The name of a group up to its closing angle bracket, which has to be new. -/
def readGroupName (names : List String) (cs : List Char) : Reading (String × List Char) :=
  let name := cs.takeWhile (· != '>')
  match name, cs.dropWhile (· != '>') with
  | first :: others, _ :: rest =>
      let text := String.ofList name
      if isNameChar true first && others.all (isNameChar false) && text ∉ names then
        .ok (text, rest)
      else .error .badGroupName
  | _, _ => .error .badGroupName

/-- Read what follows an opening parenthesis; `names` are the names of groups so far. -/
def readGroupStart (s : Switches) (names : List String) (cs : List Char) :
    Reading ((GroupStart × List String) × List Char) :=
  match cs with
  | '?' :: '=' :: _ | '?' :: '!' :: _ | '?' :: '<' :: '=' :: _ | '?' :: '<' :: '!' :: _ =>
      .error .badSwitch
  | '?' :: 'P' :: '<' :: rest | '?' :: '<' :: rest => do
      let (name, rest) ← readGroupName names rest
      return ((.group s true, name :: names), rest)
  | '?' :: rest => do
      let letters := rest.takeWhile fun c => c != ':' && c != ')'
      match rest.dropWhile fun c => c != ':' && c != ')' with
      | ':' :: rest => return ((.group (← applySwitches s true letters) false, names), rest)
      | _ :: rest =>
          if letters.isEmpty then throw .nothingToRepeat
          return ((.switch (← applySwitches s true letters), names), rest)
      | [] => throw .badSwitch
  | cs => .ok ((.group s true, names), cs)

/-! ## Repetitions -/

/-- A number among blanks, of at most 32 bits. -/
def readCount (cs : List Char) : Reading (Option Nat × List Char) :=
  let cs := cs.dropWhile isBlank
  let digits := cs.takeWhile isAsciiDigit
  let rest := (cs.dropWhile isAsciiDigit).dropWhile isBlank
  let n := digits.foldl (fun n c => n * 10 + (c.toNat - 0x30)) 0
  if digits.isEmpty then .ok (none, rest)
  else if n < 0x100000000 then .ok (some n, rest)
  else .error .badRepetition

/-- The bounds of a repetition after its opening brace. -/
def readBounds (cs : List Char) : Reading ((Nat × Option Nat) × List Char) := do
  let (least, rest) ← readCount cs
  match least, rest with
  | some least, '\x7d' :: rest => return ((least, some least), rest)
  | some least, ',' :: '\x7d' :: rest => return ((least, none), rest)
  | some least, ',' :: rest =>
      let (most, rest) ← readCount rest
      match most, rest with
      | some most, '\x7d' :: rest =>
          if least ≤ most then return ((least, some most), rest) else throw .badRepetition
      | _, _ => throw .badRepetition
  | _, _ => throw .badRepetition

/-- A question mark after a repetition makes it lazy. -/
def dropLazy : List Char → List Char
  | '?' :: rest => rest
  | cs => cs

/-! ## Whole patterns -/

/-- A part of an alternative and how deep it is nested. A switch is a part without a pattern, which
cannot be repeated. -/
structure Item where
  pattern : Option Pattern
  depth : Nat := 0

/-- An open group: the switches in it, the alternatives before the current one, and the items of the
current one, the last first in both. -/
structure Level where
  switches : Switches
  before : List Item := []
  items : List Item := []

namespace Level

/-- How deep parts are nested together: one level more, unless there is just one. -/
def jointDepth (items : List Item) : Nat :=
  match items with
  | [item] => item.depth
  | items => items.foldl (fun depth item => max depth (item.depth + 1)) 0

/-- The current alternative. -/
def branch (l : Level) : Item :=
  ⟨some (.sequence (l.items.reverse.filterMap (·.pattern))), jointDepth l.items⟩

/-- All alternatives. -/
def value (l : Level) : Pattern × Nat :=
  match l.before with
  | [] => (l.branch.pattern.getD .empty, l.branch.depth)
  | before =>
      let all := l.branch :: before
      (.alternation (all.reverse.filterMap (·.pattern)), jointDepth all)

/-- Begin another alternative. -/
def next (l : Level) : Level := { l with before := l.branch :: l.before, items := [] }

def add (l : Level) (p : Pattern) (depth : Nat := 0) : Level :=
  { l with items := ⟨some p, depth⟩ :: l.items }

/-- Change the switches from here on. -/
def switch (l : Level) (s : Switches) : Level :=
  { l with switches := s, items := ⟨none, 0⟩ :: l.items }

/-- Repeat the last item. -/
def repeatLast (l : Level) (least : Nat) (most : Option Nat) : Except PatternProblem Level :=
  match l.items with
  | ⟨some p, depth⟩ :: rest =>
      .ok { l with items := ⟨some (p.repetition least most), depth + 1⟩ :: rest }
  | _ => .error .nothingToRepeat

/-- The item of a character that stands for itself. -/
def addLiteral (l : Level) (c : Char) : Level :=
  l.add (.one (finishSet l.switches.ignoreCase false (.single c)))

/-- The item of a character outside an escape. -/
def addChar (l : Level) (c : Char) : Level :=
  match c with
  | '.' =>
      l.add (.one (if l.switches.dotMatchesNewline then .everything
        else (CharSet.single '\n').negate))
  | '^' => l.add (.anchor (if l.switches.multiLine then .lineStart else .textStart))
  | '$' => l.add (.anchor (if l.switches.multiLine then .lineEnd else .textEnd))
  | c => l.addLiteral c

def addEscape (l : Level) : Escape → Level
  | .char c => l.addLiteral c
  | .set s => l.add (.one s)
  | .anchor a => l.add (.anchor a)

end Level

/-- What ends with a parenthesis: a group that is kept apart, or parts that only stand together. -/
structure OpenGroup where
  level : Level
  captures : Bool

/-- Read on inside the open groups `outer` and `level`; the depth of the nesting comes with the
pattern. Every step takes a character, so that the length of the text is enough fuel. -/
def readLevels : Nat → List OpenGroup → Level → List String → List Char →
    Except PatternProblem (Pattern × Nat)
  | 0, _, _, _, _ => .error .unclosedGroup
  | _, [], level, _, [] => .ok level.value
  | _, _ :: _, _, _, [] => .error .unclosedGroup
  | fuel + 1, outer, level, names, c :: rest =>
      match c with
      | '(' => do
          let ((start, names), rest) ← readGroupStart level.switches names rest
          match start with
          | .group s captures =>
              readLevels fuel (⟨level, captures⟩ :: outer) { switches := s } names rest
          | .switch s => readLevels fuel outer (level.switch s) names rest
      | ')' =>
          match outer with
          | [] => .error .unopenedGroup
          | ⟨parent, captures⟩ :: outer =>
              let (p, depth) := level.value
              let p := if captures then .group p else p
              readLevels fuel outer (parent.add p (depth + 1)) names rest
      | '|' => readLevels fuel outer level.next names rest
      | '[' => do
          let (s, rest) ← readClass level.switches.ignoreCase (rest.length + 1) rest
          readLevels fuel outer (level.add (.one s.set) s.depth) names rest
      | '?' => do readLevels fuel outer (← level.repeatLast 0 (some 1)) names (dropLazy rest)
      | '*' => do readLevels fuel outer (← level.repeatLast 0 none) names (dropLazy rest)
      | '+' => do readLevels fuel outer (← level.repeatLast 1 none) names (dropLazy rest)
      | '\x7b' => do
          let ((least, most), rest) ← readBounds rest
          readLevels fuel outer (← level.repeatLast least most) names (dropLazy rest)
      | '\\' => do
          let (e, rest) ← readEscape rest
          readLevels fuel outer (level.addEscape e) names rest
      | c => readLevels fuel outer (level.addChar c) names rest

/-- How deep a pattern may be nested. -/
def depthLimit : Nat := 250

/-- Read a pattern. -/
def read (text : String) : Except PatternProblem Pattern := do
  let cs := text.toList
  let (p, depth) ← readLevels (cs.length + 1) [] { switches := {} } [] cs
  if depthLimit < depth then throw .nestedTooDeep
  if !p.fits then throw .tooLarge
  return p

end Pattern

end RowPipeline.Text
