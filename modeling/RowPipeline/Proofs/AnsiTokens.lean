import RowPipeline.Proofs.Lexemes
import RowPipeline.Sql.Render

/-!
# SQL texts as ANSI tokens

The tokens of an SQL text by the ANSI rules: a text between single quotes is a string in which a
doubled quote stands for one, a text between double quotes is a name, and comments run from two dashes
to the end of the line or between slashes with stars. The tokens are read character by character, so a
text can be cut wherever no quote or comment is open and a character stands that belongs to no longer
token.
-/

namespace RowPipeline.Ansi

open Text

inductive Token where
  | word (text : String)
  | mark (c : Char)
  | string (contents : String)
  | name (contents : String)
  /-- The end of the text inside quotes or a comment. -/
  | unterminated
deriving DecidableEq

namespace Token

/-- A token without the contents of a string. -/
def blank : Token → Token
  | .string _ => .string ""
  | t => t

def string? : Token → Option String
  | .string contents => some contents
  | _ => none

end Token

/-- The quotes of strings and of names. -/
inductive Quote where
  | single
  | double
deriving DecidableEq

namespace Quote

def char : Quote → Char
  | .single => '\''
  | .double => '"'

/-- The token between two quotes. -/
def token (contents : String) : Quote → Token
  | .single => .string contents
  | .double => .name contents

end Quote

/-- What has been read of the token at hand, the last character first. -/
inductive State where
  | code (word : List Char)
  /-- After a dash or a slash, which may start a comment. -/
  | dash
  | slash
  | quoted (quote : Quote) (contents : List Char)
  /-- After a quote between quotes, which ends the token or is the first of two. -/
  | closing (quote : Quote) (contents : List Char)
  | line
  | block
  /-- After a star in a comment. -/
  | star
deriving DecidableEq

namespace State

/-- The tokens that are complete when the text ends. -/
def finish : State → List Token
  | .code [] | .line => []
  | .code word => [.word (String.ofList word.reverse)]
  | .dash => [.mark '-']
  | .slash => [.mark '/']
  | .closing quote contents => [quote.token (String.ofList contents.reverse)]
  | .quoted .. | .block | .star => [.unterminated]

/-- A character outside quotes and comments. -/
def stepCode (word : List Char) (c : Char) : List Token × State :=
  let before := finish (.code word)
  if c = '\'' then (before, .quoted .single [])
  else if c = '"' then (before, .quoted .double [])
  else if c = '-' then (before, .dash)
  else if c = '/' then (before, .slash)
  else if Lexer.isWordChar c then ([], .code (c :: word))
  else if isBlank c then (before, .code [])
  else (before ++ [.mark c], .code [])

/-- A character, and the tokens that it completes. -/
def step (s : State) (c : Char) : List Token × State :=
  let fresh := (finish s ++ (stepCode [] c).1, (stepCode [] c).2)
  match s with
  | .code word => stepCode word c
  | .dash => if c = '-' then ([], .line) else fresh
  | .slash => if c = '*' then ([], .block) else fresh
  | .quoted quote contents =>
      ([], if c = quote.char then .closing quote contents else .quoted quote (c :: contents))
  | .closing quote contents => if c = quote.char then ([], .quoted quote (c :: contents)) else fresh
  | .line => ([], if c = '\n' then .code [] else .line)
  | .block => ([], if c = '*' then .star else .block)
  | .star => ([], if c = '/' then .code [] else if c = '*' then .star else .block)

/-- The tokens completed along a text. -/
def emitted (s : State) : List Char → List Token
  | [] => []
  | c :: rest => (s.step c).1 ++ emitted (s.step c).2 rest

def after (s : State) : List Char → State
  | [] => s
  | c :: rest => after (s.step c).2 rest

end State

def tokens (sql : String) : List Token :=
  State.emitted (.code []) sql.toList ++ (State.after (.code []) sql.toList).finish

/-- The contents of the strings in a text. -/
def strings (sql : String) : List String := (tokens sql).filterMap Token.string?

/-! ## Cutting a text -/

variable {s : State} {a b : String} {c : Char} {cs ds : List Char}

theorem State.emitted_append (s : State) (cs ds : List Char) :
    s.emitted (cs ++ ds) = s.emitted cs ++ (s.after cs).emitted ds := by
  induction cs generalizing s with
  | nil => rfl
  | cons c rest ih => simp only [List.cons_append, emitted, after, ih, List.append_assoc]

theorem State.after_append (s : State) (cs ds : List Char) :
    s.after (cs ++ ds) = (s.after cs).after ds := by
  induction cs generalizing s with
  | nil => rfl
  | cons c rest ih => simp only [List.cons_append, after, ih]

/-- Whether a quote or a comment is open. -/
def State.isOpen : State → Bool
  | .code _ | .dash | .slash | .closing .. => false
  | .quoted .. | .line | .block | .star => true

/-- A character that starts no quotes and no comment and goes on with none. -/
def isHarmless (c : Char) : Bool := c ∉ ['\'', '"', '-', '/', '*']

/-- A character that belongs to no longer token, on either side. -/
def separates (c : Char) : Bool := !Lexer.isWordChar c && isHarmless c

theorem isHarmless_iff :
    isHarmless c = true ↔ c ≠ '\'' ∧ c ≠ '"' ∧ c ≠ '-' ∧ c ≠ '/' ∧ c ≠ '*' := by
  simp [isHarmless]

theorem State.stepCode_separates (hc : separates c = true) (word : List Char) :
    stepCode word c = (finish (.code word) ++ if isBlank c then [] else [.mark c], .code []) := by
  obtain ⟨hword, hharmless⟩ : Lexer.isWordChar c = false ∧ isHarmless c = true := by
    simpa [separates] using hc
  obtain ⟨hsingle, hdouble, hdash, hslash, -⟩ := isHarmless_iff.1 hharmless
  simp only [stepCode, hword, hsingle, hdouble, hdash, hslash, if_false]
  cases isBlank c <;> simp

/-- Where nothing is open, a separating character ends the token at hand and starts afresh. -/
theorem State.step_separates (hs : s.isOpen = false) (hc : separates c = true) :
    s.step c = (s.finish ++ ((State.code []).step c).1, .code []) ∧
      ((State.code []).step c).2 = .code [] := by
  obtain ⟨hsingle, hdouble, hdash, -, hstar⟩ := isHarmless_iff.1 (Bool.and_eq_true_iff.1 hc).2
  have hfresh := stepCode_separates hc []
  have hstep : (State.code []).step c = stepCode [] c := rfl
  refine ⟨?_, by rw [hstep, hfresh]⟩
  cases s with
  | code word =>
      rw [hstep, hfresh]
      exact stepCode_separates hc word
  | dash =>
      rw [hstep, step]
      simp only [if_neg hdash, hfresh]
  | slash =>
      rw [hstep, step]
      simp only [if_neg hstar, hfresh]
  | closing quote contents =>
      have hquote : c ≠ quote.char := by
        cases quote with
        | single => exact hsingle
        | double => exact hdouble
      rw [hstep, step]
      simp only [if_neg hquote, hfresh]
  | _ => cases hs

/-- A text ends where no quote or comment is open. -/
def Whole (text : String) : Prop := (State.after (.code []) text.toList).isOpen = false

/-- A text is empty or starts with a separating character. -/
def Detached (text : String) : Prop := ∀ c ∈ text.toList.head?, separates c = true

theorem Detached.append (ha : Detached a) (hb : Detached b) : Detached (a ++ b) := by
  intro c hc
  rw [String.toList_append] at hc
  cases hchars : a.toList with
  | nil =>
      rw [hchars] at hc
      exact hb c hc
  | cons d rest =>
      rw [hchars] at hc
      exact ha c (by rw [hchars]; exact hc)

/-- A whole text is cut where a detached one starts. -/
theorem tokens_append (ha : Whole a) (hb : Detached b) :
    tokens (a ++ b) = tokens a ++ tokens b ∧ (Whole b → Whole (a ++ b)) := by
  unfold tokens Whole
  rw [String.toList_append, State.emitted_append, State.after_append]
  cases htext : b.toList with
  | nil => exact ⟨by simp [State.emitted, State.after, State.finish], fun _ => ha⟩
  | cons c rest =>
      obtain ⟨hstep, hstart⟩ := State.step_separates ha (hb c (by rw [htext]; rfl))
      simp only [State.emitted, State.after, hstep, hstart, List.append_assoc, true_and]
      exact id

/-- Any text can follow one that ends in nothing. -/
theorem tokens_append_fresh (ha : State.after (.code []) a.toList = .code []) :
    tokens (a ++ b) = tokens a ++ tokens b ∧ (Whole b → Whole (a ++ b)) := by
  unfold tokens Whole
  rw [String.toList_append, State.emitted_append, State.after_append, ha]
  exact ⟨by simp [State.finish], id⟩

/-! ## Quoted texts and words -/

/-- Between quotes, a text with its quotes doubled is read as it is. -/
theorem State.quoted_doubled (text contents : List Char) :
    (State.quoted .single contents).emitted
        (text.flatMap fun c => if c = '\'' then ['\'', '\''] else [c]) = [] ∧
      (State.quoted .single contents).after
        (text.flatMap fun c => if c = '\'' then ['\'', '\''] else [c])
          = .quoted .single (text.reverse ++ contents) := by
  induction text generalizing contents with
  | nil => exact ⟨rfl, rfl⟩
  | cons c rest ih =>
      obtain ⟨hemitted, hafter⟩ := ih (c :: contents)
      rw [List.flatMap_cons, State.emitted_append, State.after_append]
      -- a quote goes through the state after the first of two
      have hone :
          (State.quoted .single contents).emitted (if c = '\'' then ['\'', '\''] else [c]) = [] ∧
          (State.quoted .single contents).after (if c = '\'' then ['\'', '\''] else [c])
            = .quoted .single (c :: contents) := by
        by_cases hquote : c = '\''
        · rw [if_pos hquote, hquote]
          exact ⟨rfl, rfl⟩
        · rw [if_neg hquote]
          simp [emitted, after, step, Quote.char, hquote]
      rw [hone.1, hone.2, hemitted, hafter]
      simp

/-- A quoted text is one string, whatever it holds. -/
theorem quoteString_spec (x : String) :
    tokens (Sql.quoteString x) = [.string x] ∧ Whole (Sql.quoteString x) := by
  obtain ⟨hemitted, hafter⟩ := State.quoted_doubled x.toList []
  have htext : (Sql.quoteString x).toList = '\'' ::
      (x.toList.flatMap (fun c => if c = '\'' then ['\'', '\''] else [c]) ++ ['\'']) := by
    rw [Sql.quoteString, String.toList_ofList, List.cons_append]
  have hopen : (State.code []).step '\'' = ([], .quoted .single []) := rfl
  unfold tokens Whole
  simp only [htext, State.emitted, State.after, hopen, State.emitted_append, State.after_append,
    hemitted, hafter, List.append_nil, List.nil_append]
  have hclose : (State.quoted .single x.toList.reverse).step '\''
      = ([], .closing .single x.toList.reverse) := rfl
  simp only [hclose, State.finish, Quote.token, List.reverse_reverse, String.ofList_toList]
  exact ⟨rfl, rfl⟩

theorem State.code_harmless (word : List Char) (h : ∀ c ∈ cs, isHarmless c = true) :
    (∃ word', (State.code word).after cs = .code word') ∧
      ((State.code word).emitted cs).filterMap Token.string? = [] := by
  induction cs generalizing word with
  | nil => exact ⟨⟨word, rfl⟩, rfl⟩
  | cons c rest ih =>
      obtain ⟨hc, hrest⟩ := List.forall_mem_cons.1 h
      obtain ⟨hsingle, hdouble, hdash, hslash, -⟩ := isHarmless_iff.1 hc
      have hfinish : (finish (.code word)).filterMap Token.string? = [] := by
        cases word <;> rfl
      obtain ⟨word', tokens, hstep, htokens⟩ : ∃ word' tokens,
          (State.code word).step c = (tokens, .code word') ∧ tokens.filterMap Token.string? = [] := by
        simp only [step, stepCode, hsingle, hdouble, hdash, hslash, if_false]
        split
        · exact ⟨_, _, rfl, rfl⟩
        · split
          · exact ⟨_, _, rfl, hfinish⟩
          · exact ⟨_, _, rfl, by rw [List.filterMap_append, hfinish]; rfl⟩
      obtain ⟨hafter, hemitted⟩ := ih word' hrest
      simp only [after, emitted, hstep, List.filterMap_append, htokens, List.nil_append]
      exact ⟨hafter, hemitted⟩

theorem harmless_spec (h : ∀ c ∈ a.toList, isHarmless c = true) : Whole a ∧ strings a = [] := by
  obtain ⟨⟨word, hafter⟩, hemitted⟩ := State.code_harmless [] h
  unfold Whole strings tokens
  rw [hafter, List.filterMap_append, hemitted]
  cases word <;> exact ⟨rfl, rfl⟩

/-- Harmless characters, perhaps behind a sign. -/
theorem signed_spec (negative : Bool) (h : ∀ c ∈ a.toList, isHarmless c = true) :
    Whole ((if negative then "-" else "") ++ a) ∧
      strings ((if negative then "-" else "") ++ a) = [] := by
  cases negative with
  | false =>
      rw [if_neg Bool.false_ne_true, String.empty_append]
      exact harmless_spec h
  | true =>
      obtain ⟨hwhole, hstrings⟩ := harmless_spec h
      have htext : ("-" ++ a).toList = '-' :: a.toList := by simp
      have hdash : (State.code []).step '-' = ([], .dash) := rfl
      rw [if_pos rfl]
      unfold Whole strings tokens at *
      simp only [htext, State.emitted, State.after, hdash, List.nil_append]
      cases hchars : a.toList with
      | nil => exact ⟨rfl, rfl⟩
      | cons first rest =>
          rw [hchars] at h hwhole hstrings
          -- another dash would start a comment
          obtain ⟨-, -, hfirst, -⟩ := isHarmless_iff.1 (h first List.mem_cons_self)
          have hfresh : State.dash.step first
              = (.mark '-' :: ((State.code []).step first).1, ((State.code []).step first).2) :=
            if_neg hfirst
          simp only [State.emitted, State.after, hfresh] at hwhole hstrings ⊢
          exact ⟨hwhole, hstrings⟩

end RowPipeline.Ansi
