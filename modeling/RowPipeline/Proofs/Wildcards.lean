import Mathlib.Logic.Relation
import RowPipeline.Text.Like

/-!
# What wildcard patterns match

The side-by-side reading of text and pattern answers whether the pattern matches. Only the last percent
sign is ever read again: what an earlier one could still take, the last one can take as well. Each turn
keeps whether there is a match, and the places stay in the text and in the pattern or at their ends.
-/

namespace RowPipeline.Text.Like

/-- The pattern, given first, matches the text. -/
inductive Matches : List Char → List Char → Prop
  | nil : Matches [] []
  | percent {pattern text : List Char} (run : List Char) (rest : Matches pattern text) :
      Matches ('%' :: pattern) (run ++ text)
  | underscore {pattern text : List Char} (c : Char) (rest : Matches pattern text) :
      Matches ('_' :: pattern) (c :: text)
  | self {pattern text : List Char} {c : Char} (plain : c ≠ '%' ∧ c ≠ '_')
      (rest : Matches pattern text) : Matches (c :: pattern) (c :: text)

/-! ## The first character of a pattern -/

section Heads

variable {pattern text : List Char}

theorem matches_percent :
    Matches ('%' :: pattern) text ↔ ∃ k ≤ text.length, Matches pattern (text.drop k) := by
  constructor
  · intro h
    cases h with
    | percent run rest =>
        refine ⟨run.length, by simp, ?_⟩
        rwa [List.drop_left]
    | self plain rest => exact absurd rfl plain.1
  · rintro ⟨k, -, h⟩
    have hmatch := h.percent (text.take k)
    rwa [List.take_append_drop] at hmatch

theorem matches_of_reads {p c : Char} (h : Reads p c) :
    Matches (p :: pattern) (c :: text) ↔ Matches pattern text := by
  obtain ⟨percent, same⟩ := h
  constructor
  · intro h
    generalize hchars : c :: text = chars at h
    cases h with
    | percent run rest => exact absurd rfl percent
    | underscore d rest => exact (List.cons.inj hchars).2 ▸ rest
    | self plain rest => exact (List.cons.inj hchars).2 ▸ rest
  · intro h
    by_cases underscore : p = '_'
    · rw [underscore]
      exact h.underscore c
    · obtain rfl : p = c := same.resolve_left underscore
      exact h.self ⟨percent, underscore⟩

theorem reads_of_matches {p c : Char} (percent : p ≠ '%')
    (h : Matches (p :: pattern) (c :: text)) : Reads p c := by
  generalize hchars : c :: text = chars at h
  cases h with
  | percent run rest => exact absurd rfl percent
  | underscore d rest => exact ⟨percent, .inl rfl⟩
  | self plain rest => exact ⟨percent, .inr (List.cons.inj hchars).1.symm⟩

/-- Nothing is matched by percent signs and by nothing else. -/
theorem matches_end : Matches pattern [] ↔ pattern.all (· == '%') = true := by
  induction pattern with
  | nil => exact iff_of_true .nil rfl
  | cons p rest ih =>
      rw [List.all_cons, Bool.and_eq_true, beq_iff_eq, ← ih]
      constructor
      · intro h
        generalize hchars : ([] : List Char) = chars at h
        cases h with
        | percent run hrest =>
            obtain ⟨rfl, rfl⟩ := List.append_eq_nil_iff.mp hchars.symm
            exact ⟨rfl, hrest⟩
        | underscore c rest => cases hchars
        | self plain rest => cases hchars
      · rintro ⟨rfl, h⟩
        exact h.percent []

/-- A pattern without percent signs reads as many characters as it has. -/
theorem Matches.behind {front : List Char} (noPercent : '%' ∉ front)
    (h : Matches (front ++ pattern) text) :
    front.length ≤ text.length ∧ Matches pattern (text.drop front.length) := by
  induction front generalizing text with
  | nil => exact ⟨Nat.zero_le _, h⟩
  | cons p front ih =>
      obtain ⟨hp, hfront⟩ := not_or.mp (mt List.mem_cons.mpr noPercent)
      cases text with
      | nil =>
          have hall := matches_end.mp h
          rw [List.cons_append, List.all_cons, Bool.and_eq_true, beq_iff_eq] at hall
          exact absurd hall.1.symm hp
      | cons c text =>
          have hreads := reads_of_matches (Ne.symm hp) h
          obtain ⟨hlength, hrest⟩ := ih hfront ((matches_of_reads hreads).mp h)
          exact ⟨Nat.succ_le_succ hlength, hrest⟩

end Heads

/-! ## Places in a text -/

variable {text pattern : Array Char} {c c' : Cursor}

theorem drop_of_char {p : Char} (char : pattern[c.inPattern]? = some p) :
    pattern.toList.drop c.inPattern = p :: pattern.toList.drop (c.inPattern + 1) := by
  obtain ⟨hlt, rfl⟩ := Array.getElem?_eq_some_iff.mp char
  exact List.drop_eq_getElem_cons hlt

theorem drop_of_lt {i : Nat} (h : i < text.size) :
    text.toList.drop i = text[i] :: text.toList.drop (i + 1) := List.drop_eq_getElem_cons h

/-- The pattern from a place on matches the text from a place on. -/
def MatchesFrom (text pattern : Array Char) (inPattern inText : Nat) : Prop :=
  Matches (pattern.toList.drop inPattern) (text.toList.drop inText)

/-- A percent sign leaves the pattern behind it to match from here or from a later place on. -/
theorem matchesFrom_percent (char : pattern[c.inPattern]? = some '%') {i : Nat} (hi : i ≤ text.size) :
    MatchesFrom text pattern c.inPattern i ↔
      ∃ k, i ≤ k ∧ k ≤ text.size ∧ MatchesFrom text pattern (c.inPattern + 1) k := by
  rw [MatchesFrom, drop_of_char char, matches_percent]
  simp only [List.drop_drop, List.length_drop, Array.length_toList]
  constructor
  · rintro ⟨k, hk, h⟩
    exact ⟨i + k, by omega, by omega, h⟩
  · rintro ⟨k, hik, hk, h⟩
    refine ⟨k - i, by omega, ?_⟩
    rwa [Nat.add_sub_cancel' hik]

/-! ## What the turns keep -/

/-- The pattern between the last percent sign and the place has no other one and has read the text
since what that sign stands for. -/
def Aligned (pattern : Array Char) (c : Cursor) : Prop :=
  ∀ r ∈ c.retry, ∃ front, '%' ∉ front ∧
    pattern.toList.drop (r.percent + 1) = front ++ pattern.toList.drop c.inPattern ∧
    c.inText = r.upTo + front.length

theorem Aligned.start : Aligned pattern .start := nofun

theorem Aligned.next (h : Aligned pattern c) (turn : TurnsTo text pattern c (.next c')) :
    Aligned pattern c' := by
  cases turn with
  | percent inText char =>
      rintro r ⟨⟩
      exact ⟨[], List.not_mem_nil, rfl, rfl⟩
  | @advance p inText char reads =>
      intro r hr
      obtain ⟨front, hpercent, hfront, hlength⟩ := h r hr
      refine ⟨front ++ [p], ?_, ?_, ?_⟩
      · rw [List.mem_append, List.mem_singleton, not_or]
        exact ⟨hpercent, Ne.symm reads.1⟩
      · rw [hfront, drop_of_char char, List.append_assoc]
        rfl
      · rw [Cursor.advance, hlength, List.length_append]
        rfl
  | again inText last stuck =>
      rintro r ⟨⟩
      exact ⟨[], List.not_mem_nil, rfl, rfl⟩

/-- There is a match from the places on, or from behind the last percent sign if that takes more. -/
def Open (text pattern : Array Char) (c : Cursor) : Prop :=
  MatchesFrom text pattern c.inPattern c.inText ∨
    ∃ r ∈ c.retry, ∃ k, r.upTo < k ∧ k ≤ text.size ∧ MatchesFrom text pattern (r.percent + 1) k

/-- Where the last percent sign can take more, the pattern from the place on matches later on. -/
theorem Aligned.later (h : Aligned pattern c) {r : Retry} (hr : r ∈ c.retry) {k : Nat}
    (more : r.upTo < k) (inText : k ≤ text.size)
    (rest : MatchesFrom text pattern (r.percent + 1) k) :
    ∃ j, c.inText < j ∧ j ≤ text.size ∧ MatchesFrom text pattern c.inPattern j := by
  obtain ⟨front, hpercent, hfront, hlength⟩ := h r hr
  rw [MatchesFrom, hfront] at rest
  obtain ⟨hle, hmatch⟩ := rest.behind hpercent
  rw [List.drop_drop] at hmatch
  have hsize : text.toList.length = text.size := Array.length_toList
  rw [List.length_drop] at hle
  exact ⟨k + front.length, by omega, by omega, hmatch⟩

/-- What it means for a turn that there is a match. -/
def Turn.Open (text pattern : Array Char) : Turn → Prop
  | .next c => Like.Open text pattern c
  | .answer matched => matched = true

theorem open_enterPercent (aligned : Aligned pattern c) (inText : c.inText < text.size)
    (char : pattern[c.inPattern]? = some '%') :
    Open text pattern c ↔ Open text pattern c.enterPercent := by
  have hhere : Open text pattern c.enterPercent ↔ MatchesFrom text pattern c.inPattern c.inText := by
    rw [matchesFrom_percent char (Nat.le_of_lt inText)]
    constructor
    · rintro (hnow | ⟨r, ⟨⟩, k, hmore, hk, hlater⟩)
      · exact ⟨c.inText, Nat.le_refl _, Nat.le_of_lt inText, hnow⟩
      · exact ⟨k, Nat.le_of_lt hmore, hk, hlater⟩
    · rintro ⟨k, hle, hk, h⟩
      rcases Nat.eq_or_lt_of_le hle with rfl | hlt
      · exact .inl h
      · exact .inr ⟨_, rfl, k, hlt, hk, h⟩
  rw [hhere]
  constructor
  · rintro (hnow | ⟨r, hr, k, hmore, hk, hrest⟩)
    · exact hnow
    · -- the new percent sign can take what the old one could have taken
      obtain ⟨j, hj, hle, hlater⟩ := aligned.later hr hmore hk hrest
      obtain ⟨k, hjk, hk, h⟩ := (matchesFrom_percent char hle).mp hlater
      exact (matchesFrom_percent char (Nat.le_of_lt inText)).mpr ⟨k, by omega, hk, h⟩
  · exact .inl

theorem open_advance {p : Char} (inText : c.inText < text.size)
    (char : pattern[c.inPattern]? = some p) (reads : Reads p text[c.inText]) :
    Open text pattern c ↔ Open text pattern c.advance := by
  have hnow : MatchesFrom text pattern c.inPattern c.inText ↔
      MatchesFrom text pattern (c.inPattern + 1) (c.inText + 1) := by
    rw [MatchesFrom, drop_of_char char, drop_of_lt inText, matches_of_reads reads]
    rfl
  exact or_congr_left hnow

/-- Where the reading is stuck there is no match from the places on. -/
theorem not_matchesFrom_of_stuck (inText : c.inText < text.size)
    (stuck : ∀ p, pattern[c.inPattern]? = some p → p ≠ '%' ∧ ¬ Reads p text[c.inText]) :
    ¬ MatchesFrom text pattern c.inPattern c.inText := by
  intro h
  rw [MatchesFrom, drop_of_lt inText] at h
  cases hchar : pattern[c.inPattern]? with
  | none =>
      rw [List.drop_eq_nil_of_le (Array.getElem?_eq_none_iff.mp hchar)] at h
      cases h
  | some p =>
      obtain ⟨hpercent, hreads⟩ := stuck p hchar
      rw [drop_of_char hchar] at h
      exact hreads (reads_of_matches hpercent h)

theorem open_again {r : Retry} (valid : Valid text pattern c) (inText : c.inText < text.size)
    (last : c.retry = some r)
    (stuck : ∀ p, pattern[c.inPattern]? = some p → p ≠ '%' ∧ ¬ Reads p text[c.inText]) :
    Open text pattern c ↔ Open text pattern (.again r) := by
  have hend := (valid.retry_behind r last).2
  constructor
  · rintro (hnow | ⟨r', hr, k, hmore, hk, h⟩)
    · exact absurd hnow (not_matchesFrom_of_stuck inText stuck)
    · obtain rfl : r = r' := Option.some.inj (last.symm.trans hr)
      rcases Nat.eq_or_lt_of_le hmore with rfl | hlt
      · exact .inl h
      · exact .inr ⟨_, rfl, k, hlt, hk, h⟩
  · rintro (hnow | ⟨r', ⟨⟩, k, hmore, hk, h⟩)
    · exact .inr ⟨r, last, r.upTo + 1, Nat.lt_succ_self _, by omega, hnow⟩
    · exact .inr ⟨r, last, k, Nat.lt_of_succ_lt hmore, hk, h⟩

/-- A turn keeps whether there is a match. -/
theorem open_turn (valid : Valid text pattern c) (aligned : Aligned pattern c) {turn : Turn}
    (h : TurnsTo text pattern c turn) : Open text pattern c ↔ turn.Open text pattern := by
  cases h with
  | percent inText char => exact open_enterPercent aligned inText char
  | advance inText char reads => exact open_advance inText char reads
  | again inText last stuck => exact open_again valid inText last stuck
  | stuck inText first stuck =>
      refine iff_of_false ?_ Bool.false_ne_true
      rintro (hnow | ⟨r, hr, -⟩)
      · exact not_matchesFrom_of_stuck inText stuck hnow
      · rw [first] at hr
        cases hr
  | atEnd inText =>
      have hend : text.toList.drop c.inText = [] :=
        List.drop_eq_nil_of_le (Nat.le_of_not_lt inText)
      rw [Turn.Open, ← matches_end, ← hend]
      constructor
      · rintro (hnow | ⟨r, hr, k, hmore, hk, hrest⟩)
        · exact hnow
        · obtain ⟨j, hj, hle, -⟩ := aligned.later hr hmore hk hrest
          omega
      · exact .inl

/-! ## Whole readings -/

/-- One place leads to another in some turns. -/
def Leads (text pattern : Array Char) : Cursor → Cursor → Prop :=
  Relation.ReflTransGen fun c c' => c.turn text pattern = .next c'

theorem Valid.leads (h : Valid text pattern c) (leads : Leads text pattern c c') :
    Valid text pattern c' := by
  induction leads with
  | refl => exact h
  | tail _ turn ih => exact ih.next (turn ▸ turnsTo_turn text pattern _)

/-- A reading answers whether there is a match, and its answer is that of the last turn. -/
theorem run_open (valid : Valid text pattern c) (aligned : Aligned pattern c) :
    (run text pattern c valid = true ↔ Open text pattern c) ∧
      ∃ last, Leads text pattern c last ∧
        last.turn text pattern = .answer (run text pattern c valid) := by
  fun_induction run text pattern c valid with
  | case1 c valid c' turn ih =>
      have hturn : TurnsTo text pattern c (.next c') := turn ▸ turnsTo_turn text pattern c
      obtain ⟨hopen, last, hleads, hanswer⟩ := ih (aligned.next hturn)
      exact ⟨hopen.trans (open_turn valid aligned hturn).symm, last, .head turn hleads, hanswer⟩
  | case2 c valid matched turn =>
      have hturn : TurnsTo text pattern c (.answer matched) := turn ▸ turnsTo_turn text pattern c
      exact ⟨(open_turn valid aligned hturn).symm, c, .refl, turn⟩

end Like

open Like in
/-- SQL LIKE holds just when the pattern matches the whole text. The reading that decides it comes to its
answer in some turns, and on the way to it the places never go past the ends of text and pattern. -/
theorem like_iff_matches (text pattern : String) :
    (like text pattern = true ↔ Matches pattern.toList text.toList) ∧
      (∃ last, Leads text.toList.toArray pattern.toList.toArray .start last ∧
        last.turn text.toList.toArray pattern.toList.toArray = .answer (like text pattern)) ∧
      ∀ c, Leads text.toList.toArray pattern.toList.toArray .start c →
        c.inText ≤ text.toList.length ∧ c.inPattern ≤ pattern.toList.length := by
  have hstart : Valid text.toList.toArray pattern.toList.toArray .start := .start
  obtain ⟨hopen, hend⟩ := run_open hstart .start
  refine ⟨hopen.trans ?_, hend, fun c hc => ?_⟩
  · constructor
    · rintro (hnow | ⟨r, hr, -⟩)
      · exact hnow
      · cases hr
    · exact .inl
  · have hvalid := hstart.leads hc
    exact ⟨hvalid.inText_le, hvalid.inPattern_le⟩

open Like in
/-- The pattern gets stuck behind the first letter and matches from the second one on. -/
theorem like_iff_matches_aab :
    like "aab" "%ab" = true ∧
      Leads "aab".toList.toArray "%ab".toList.toArray .start ⟨1, 1, some ⟨0, 1⟩⟩ ∧
      1 ≤ "aab".toList.length ∧ 1 ≤ "%ab".toList.length := by
  obtain ⟨hmatch, -, hplaces⟩ := like_iff_matches "aab" "%ab"
  have hleads : Leads "aab".toList.toArray "%ab".toList.toArray .start ⟨1, 1, some ⟨0, 1⟩⟩ :=
    .tail (b := ⟨1, 2, some ⟨0, 0⟩⟩) (.tail (b := ⟨0, 1, some ⟨0, 0⟩⟩) (.single rfl) rfl) rfl
  refine ⟨hmatch.mpr ?_, hleads, hplaces _ hleads⟩
  have ha : 'a' ≠ '%' ∧ 'a' ≠ '_' := by decide
  have hb : 'b' ≠ '%' ∧ 'b' ≠ '_' := by decide
  exact .percent ['a'] (.self ha (.self hb .nil))

end RowPipeline.Text
