/-!
# Wildcard patterns

A pattern matches a text when the percent signs stand for runs of characters, the underscores for
single ones and every other character for itself. Text and pattern are read side by side. A percent
sign stands for nothing at first; where the reading gets stuck, the last percent sign takes one
character more and the reading goes on behind it.
-/

namespace RowPipeline.Text

namespace Like

/-- The percent sign that can still take more: its place in the pattern, and the place in the text
where what it stands for ends. -/
structure Retry where
  percent : Nat
  upTo : Nat

/-- The places in the text and in the pattern that are read next. -/
structure Cursor where
  inText : Nat
  inPattern : Nat
  retry : Option Retry

/-- What one turn leads to. -/
inductive Turn where
  | next (c : Cursor)
  | answer (matched : Bool)

namespace Cursor

def start : Cursor := ⟨0, 0, none⟩

/-- One character of the text is read by one of the pattern. -/
def advance (c : Cursor) : Cursor := ⟨c.inText + 1, c.inPattern + 1, c.retry⟩

/-- A percent sign is met, which stands for nothing so far. -/
def enterPercent (c : Cursor) : Cursor := ⟨c.inText, c.inPattern + 1, some ⟨c.inPattern, c.inText⟩⟩

/-- Behind a percent sign that took one character more. -/
def again (r : Retry) : Cursor := ⟨r.upTo + 1, r.percent + 1, some ⟨r.percent, r.upTo + 1⟩⟩

/-- The reading is stuck: without a percent sign there is no match. -/
def backtrack (c : Cursor) : Turn :=
  match c.retry with
  | some r => .next (again r)
  | none => .answer false

/-- One turn. At the end of the text only percent signs may be left of the pattern. -/
def turn (text pattern : Array Char) (c : Cursor) : Turn :=
  if h : c.inText < text.size then
    match pattern[c.inPattern]? with
    | some '%' => .next c.enterPercent
    | some '_' => .next c.advance
    | some p => if p = text[c.inText] then .next c.advance else c.backtrack
    | none => c.backtrack
  else .answer ((pattern.toList.drop c.inPattern).all (· == '%'))

end Cursor

/-- What a character of a pattern reads: an underscore any character, others but a percent sign
themselves. -/
def Reads (p c : Char) : Prop := p ≠ '%' ∧ (p = '_' ∨ p = c)

/-- What a turn can lead to, and when. -/
inductive TurnsTo (text pattern : Array Char) (c : Cursor) : Turn → Prop
  | percent (inText : c.inText < text.size) (char : pattern[c.inPattern]? = some '%') :
      TurnsTo text pattern c (.next c.enterPercent)
  | advance {p : Char} (inText : c.inText < text.size) (char : pattern[c.inPattern]? = some p)
      (reads : Reads p text[c.inText]) : TurnsTo text pattern c (.next c.advance)
  | again {r : Retry} (inText : c.inText < text.size) (last : c.retry = some r)
      (stuck : ∀ p, pattern[c.inPattern]? = some p → p ≠ '%' ∧ ¬ Reads p text[c.inText]) :
      TurnsTo text pattern c (.next (.again r))
  | stuck (inText : c.inText < text.size) (first : c.retry = none)
      (stuck : ∀ p, pattern[c.inPattern]? = some p → p ≠ '%' ∧ ¬ Reads p text[c.inText]) :
      TurnsTo text pattern c (.answer false)
  | atEnd (inText : ¬ c.inText < text.size) :
      TurnsTo text pattern c (.answer ((pattern.toList.drop c.inPattern).all (· == '%')))

/-- The places are in the text and in the pattern or at their ends, and the last percent sign and the
end of what it stands for are not past them. -/
structure Valid (text pattern : Array Char) (c : Cursor) : Prop where
  inText_le : c.inText ≤ text.size
  inPattern_le : c.inPattern ≤ pattern.size
  retry_behind : ∀ r ∈ c.retry, r.percent < c.inPattern ∧ r.upTo ≤ c.inText

variable {text pattern : Array Char} {c c' : Cursor}

theorem TurnsTo.backtrack (inText : c.inText < text.size)
    (stuck : ∀ p, pattern[c.inPattern]? = some p → p ≠ '%' ∧ ¬ Reads p text[c.inText]) :
    TurnsTo text pattern c c.backtrack := by
  rw [Cursor.backtrack]
  cases last : c.retry with
  | some r => exact .again inText last stuck
  | none => exact .stuck inText last stuck

theorem turnsTo_turn (text pattern : Array Char) (c : Cursor) :
    TurnsTo text pattern c (c.turn text pattern) := by
  rw [Cursor.turn]
  split
  · rename_i inText
    split
    · rename_i char
      exact .percent inText char
    · rename_i char
      exact .advance inText char ⟨by decide, .inl rfl⟩
    · rename_i p percent underscore char
      split
      · rename_i same
        exact .advance inText char ⟨percent, .inr same⟩
      · rename_i different
        refine .backtrack inText fun q hq => ?_
        obtain rfl : p = q := Option.some.inj (char.symm.trans hq)
        exact ⟨percent, fun reads => reads.2.elim underscore different⟩
    · rename_i char
      refine .backtrack inText fun q hq => ?_
      rw [char] at hq
      cases hq
  · rename_i inText
    exact .atEnd inText

theorem Valid.start : Valid text pattern .start := ⟨Nat.zero_le _, Nat.zero_le _, nofun⟩

theorem inPattern_lt {p : Char} (char : pattern[c.inPattern]? = some p) :
    c.inPattern < pattern.size := (Array.getElem?_eq_some_iff.mp char).1

/-- A turn leads to a valid place. -/
theorem Valid.next (h : Valid text pattern c) (turn : TurnsTo text pattern c (.next c')) :
    Valid text pattern c' := by
  cases turn with
  | percent inText char =>
      refine ⟨h.inText_le, inPattern_lt char, ?_⟩
      rintro r ⟨⟩
      exact ⟨Nat.lt_succ_self _, Nat.le_refl _⟩
  | advance inText char reads =>
      refine ⟨inText, inPattern_lt char, fun r hr => ?_⟩
      obtain ⟨hpercent, hupTo⟩ := h.retry_behind r hr
      exact ⟨Nat.lt_succ_of_lt hpercent, Nat.le_succ_of_le hupTo⟩
  | again inText last stuck =>
      obtain ⟨hpercent, hupTo⟩ := h.retry_behind _ last
      refine ⟨Nat.lt_of_le_of_lt hupTo inText, Nat.lt_of_lt_of_le hpercent h.inPattern_le, ?_⟩
      rintro r ⟨⟩
      exact ⟨Nat.lt_succ_self _, Nat.le_refl _⟩

/-- What is left to read: pattern behind the last percent sign, text behind what it stands for, text
behind the place. -/
def Cursor.remaining (text pattern : Array Char) (c : Cursor) : Nat × Nat × Nat :=
  match c.retry with
  | none => (pattern.size + 1, 0, text.size - c.inText)
  | some r => (pattern.size - r.percent, text.size - r.upTo, text.size - c.inText)

/-- Places move backwards only when more is read for the last percent sign. -/
theorem Valid.remaining_lt (h : Valid text pattern c) (turn : TurnsTo text pattern c (.next c')) :
    Prod.Lex (· < ·) (Prod.Lex (· < ·) (· < ·)) (c'.remaining text pattern)
      (c.remaining text pattern) := by
  rw [Cursor.remaining, Cursor.remaining]
  cases turn with
  | percent inText char =>
      have hplace := inPattern_lt char
      dsimp only [Cursor.enterPercent]
      cases hretry : c.retry with
      | none => exact .left _ _ (by omega)
      | some r =>
          have hbehind := h.retry_behind r hretry
          exact .left _ _ (by omega)
  | advance inText char reads =>
      dsimp only [Cursor.advance]
      cases c.retry with
      | none => exact .right _ (.right _ (by omega))
      | some r => exact .right _ (.right _ (by omega))
  | again inText last stuck =>
      have hbehind := h.retry_behind _ last
      rw [last]
      dsimp only [Cursor.again]
      exact .right _ (.left _ _ (by omega))

/-- The answer of a reading from a place on. -/
def run (text pattern : Array Char) (c : Cursor) (valid : Valid text pattern c) : Bool :=
  match h : c.turn text pattern with
  | .next c' => run text pattern c' (valid.next (h ▸ turnsTo_turn text pattern c))
  | .answer matched => matched
termination_by c.remaining text pattern
decreasing_by exact valid.remaining_lt (h ▸ turnsTo_turn text pattern c)

end Like

/-- SQL LIKE: the whole text has to match. -/
def like (text pattern : String) : Bool :=
  Like.run text.toList.toArray pattern.toList.toArray .start .start

end RowPipeline.Text
