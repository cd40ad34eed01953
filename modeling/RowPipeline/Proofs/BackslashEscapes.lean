import RowPipeline.Sql.Render

/-!
# String literals with backslash escapes

In MySQL a backslash between single quotes escapes the next character. Literals are written with their
quotes doubled and their backslashes as they are, so a literal denotes its string exactly if no backslash
in it escapes anything. Another one is lost, or it takes the closing quote, or it takes the first of two
quotes and leaves the second to end the literal.
-/

namespace RowPipeline.MySql

/-! ## The grammar -/

/-- What a character stands for behind a backslash: for one character, or for itself with the backslash
before it. An escaped quote is a quote. -/
structure Escapes where
  meaning : Char → List Char
  quote : meaning '\'' = ['\'']
  narrow : ∀ c, (meaning c).length = 1 ∨ meaning c = ['\\', c]

namespace Escapes

/-- Every character stands for itself. -/
def plain : Escapes where
  meaning c := [c]
  quote := rfl
  narrow _ := .inl rfl

def documentedMeaning : Char → List Char
  | '0' => ['\x00']
  | 'b' => ['\x08']
  | 't' => ['\t']
  | 'n' => ['\n']
  | 'r' => ['\r']
  | 'Z' => ['\x1a']
  | '%' => ['\\', '%']
  | '_' => ['\\', '_']
  | c => [c]

/-- The escape sequences of MySQL. The wildcards of LIKE keep their backslash. -/
def documented : Escapes where
  meaning := documentedMeaning
  quote := rfl
  narrow c := by
    unfold documentedMeaning
    split <;> simp

end Escapes

variable (esc : Escapes)

/-- What a text denotes up to the quote that ends it, and what stands behind. -/
def readBody : List Char → Option (List Char × List Char)
  | '\'' :: '\'' :: rest => (readBody rest).map fun r => ('\'' :: r.1, r.2)
  | '\'' :: rest => some ([], rest)
  | '\\' :: c :: rest => (readBody rest).map fun r => (esc.meaning c ++ r.1, r.2)
  | c :: rest => (readBody rest).map fun r => (c :: r.1, r.2)
  | [] => none

/-- The string literal at the start of a text, and what stands behind it. -/
def readString : List Char → Option (List Char × List Char)
  | '\'' :: rest => readBody esc rest
  | _ => none

/-- A text is one literal and denotes a string, whatever stands behind it. Another quote would go on
with the literal. -/
def Denotes (text s : String) : Prop :=
  ∀ after : List Char, after.head? ≠ some '\'' →
    readString esc (text.toList ++ after) = some (s.toList, after)

/-- Every backslash stands before a character that keeps it. -/
inductive Kept : List Char → Prop
  | nil : Kept []
  | plain {c : Char} {rest : List Char} (other : c ≠ '\\') (more : Kept rest) : Kept (c :: rest)
  | escape {c : Char} {rest : List Char} (keeps : esc.meaning c = ['\\', c]) (more : Kept rest) :
      Kept ('\\' :: c :: rest)

variable {esc} {c : Char} {cs after : List Char}

theorem readBody_pair :
    readBody esc ('\'' :: '\'' :: cs) = (readBody esc cs).map fun r => ('\'' :: r.1, r.2) := rfl

theorem readBody_close (h : cs.head? ≠ some '\'') : readBody esc ('\'' :: cs) = some ([], cs) := by
  cases cs with
  | nil => rfl
  | cons d rest =>
      have hd : d ≠ '\'' := fun hd => h (congrArg some hd)
      simp [readBody, hd]

theorem readBody_escape :
    readBody esc ('\\' :: c :: cs) = (readBody esc cs).map fun r => (esc.meaning c ++ r.1, r.2) := by
  simp [readBody]

theorem readBody_plain (hquote : c ≠ '\'') (hbackslash : c ≠ '\\') :
    readBody esc (c :: cs) = (readBody esc cs).map fun r => (c :: r.1, r.2) := by
  simp [readBody, hquote, hbackslash]

/-! ## Doubled quotes -/

/-- A text with its quotes doubled. -/
def doubled (cs : List Char) : List Char :=
  cs.flatMap fun c => if c = '\'' then ['\'', '\''] else [c]

theorem toList_quoteString (s : String) :
    (Sql.quoteString s).toList = '\'' :: (doubled s.toList ++ ['\'']) := by
  rw [Sql.quoteString, String.toList_ofList]
  rfl

theorem doubled_quote : doubled ('\'' :: cs) = '\'' :: '\'' :: doubled cs := rfl

theorem doubled_other (h : c ≠ '\'') : doubled (c :: cs) = c :: doubled cs := by
  simp [doubled, h]

theorem doubled_backslash : doubled ('\\' :: cs) = '\\' :: doubled cs := rfl

/-- A character other than a backslash is read as itself, a quote from its two. -/
theorem readBody_doubled (h : c ≠ '\\') :
    readBody esc (doubled (c :: cs) ++ after) =
      (readBody esc (doubled cs ++ after)).map fun r => (c :: r.1, r.2) := by
  by_cases hquote : c = '\''
  · subst hquote
    exact readBody_pair
  · rw [doubled_other hquote]
    exact readBody_plain hquote h

/-- So is what a backslash escapes, unless it is a quote. -/
theorem readBody_escaped (h : c ≠ '\'') :
    readBody esc (doubled ('\\' :: c :: cs) ++ after) =
      (readBody esc (doubled cs ++ after)).map fun r => (esc.meaning c ++ r.1, r.2) := by
  rw [doubled_backslash, doubled_other h]
  exact readBody_escape

/-- Where nothing is escaped, the text between the quotes is read as it was before. -/
theorem readBody_of_kept (h : Kept esc cs) (hafter : after.head? ≠ some '\'') :
    readBody esc (doubled cs ++ '\'' :: after) = some (cs, after) := by
  induction h with
  | nil => exact readBody_close hafter
  | plain other more ih =>
      rw [readBody_doubled other, ih]
      rfl
  | @escape c rest keeps more ih =>
      have hquote : c ≠ '\'' := by
        rintro rfl
        rw [esc.quote] at keeps
        exact absurd keeps (by decide)
      rw [readBody_escaped hquote, ih, keeps]
      rfl

/-- After an escaped quote, the second of the two ends the literal before the text ends, or goes with
the first of the next two, and of the last two none is left to end it. -/
theorem readBody_shifted (cs w : List Char) :
    readBody esc ('\'' :: (doubled cs ++ ['\''])) ≠ some (w, []) := by
  induction cs generalizing w with
  | nil => exact nofun
  | cons c rest ih =>
      by_cases hquote : c = '\''
      · subst hquote
        rw [doubled_quote, List.cons_append, List.cons_append, readBody_pair]
        intro h
        obtain ⟨r, hr, hw⟩ := Option.map_eq_some_iff.1 h
        obtain ⟨-, hnil⟩ := Prod.mk.inj hw
        exact ih r.1 (by rw [hr, ← hnil])
      · have hhead : (doubled (c :: rest) ++ ['\'']).head? ≠ some '\'' := by
          rw [doubled_other hquote]
          exact fun h => hquote (Option.some.inj h)
        rw [readBody_close hhead, doubled_other hquote]
        exact nofun

/-- So a literal with an escaped quote does not reach to the end of the text. -/
theorem readBody_escaped_quote (cs w : List Char) :
    readBody esc (doubled ('\\' :: '\'' :: cs) ++ ['\'']) ≠ some (w, []) := by
  rw [doubled_backslash, doubled_quote, List.cons_append, List.cons_append, readBody_escape]
  intro h
  obtain ⟨r, hr, hw⟩ := Option.map_eq_some_iff.1 h
  obtain ⟨-, hnil⟩ := Prod.mk.inj hw
  exact readBody_shifted cs r.1 (hr.trans (by rw [← hnil]))

/-- What is read to the end denotes no more characters than it has, and fewer if something in it is
escaped. -/
theorem kept_of_readBody {cs w : List Char}
    (h : readBody esc (doubled cs ++ ['\'']) = some (w, [])) :
    w.length ≤ cs.length ∧ (w.length = cs.length → Kept esc cs) := by
  induction hlength : cs.length using Nat.strongRecOn generalizing cs w with
  | _ n ih =>
      subst hlength
      cases cs with
      | nil =>
          obtain rfl : [] = w := congrArg Prod.fst (Option.some.inj h)
          exact ⟨Nat.le_refl _, fun _ => .nil⟩
      | cons c rest =>
          by_cases hbackslash : c = '\\'
          · subst hbackslash
            cases rest with
            -- the closing quote is escaped
            | nil => cases h
            | cons d rest =>
                have hquote : d ≠ '\'' := by
                  rintro rfl
                  exact readBody_escaped_quote rest w h
                rw [readBody_escaped hquote] at h
                obtain ⟨⟨v, after⟩, hr, hw⟩ := Option.map_eq_some_iff.1 h
                obtain ⟨rfl, rfl⟩ := Prod.mk.inj hw
                obtain ⟨hle, hkept⟩ := ih rest.length (by simp only [List.length_cons]; omega) hr rfl
                simp only [List.length_append, List.length_cons]
                rcases esc.narrow d with hone | hkeeps
                · omega
                · have htwo : (esc.meaning d).length = 2 := by rw [hkeeps]; rfl
                  exact ⟨by omega, fun heq => .escape hkeeps (hkept (by omega))⟩
          · rw [readBody_doubled hbackslash] at h
            obtain ⟨⟨v, after⟩, hr, hw⟩ := Option.map_eq_some_iff.1 h
            obtain ⟨rfl, rfl⟩ := Prod.mk.inj hw
            obtain ⟨hle, hkept⟩ := ih rest.length (Nat.lt_succ_self _) hr rfl
            simp only [List.length_cons]
            exact ⟨by omega, fun heq => .plain hbackslash (hkept (by omega))⟩

theorem denotes_quoteString_iff {s : String} :
    Denotes esc (Sql.quoteString s) s ↔ Kept esc s.toList := by
  have hread (after : List Char) : readString esc ((Sql.quoteString s).toList ++ after) =
      readBody esc (doubled s.toList ++ '\'' :: after) := by
    rw [toList_quoteString, List.cons_append, List.append_assoc]
    rfl
  constructor
  · intro h
    have hwhole := h [] nofun
    rw [hread] at hwhole
    exact (kept_of_readBody hwhole).2 rfl
  · intro h after hafter
    rw [hread]
    exact readBody_of_kept h hafter

/-! ## Strings whose literals denote them -/

/-- Where every escape loses its backslash, there has to be none. -/
theorem kept_plain_iff : Kept .plain cs ↔ '\\' ∉ cs := by
  constructor
  · intro h
    induction h with
    | nil => exact List.not_mem_nil
    | plain other more ih => exact fun hmem => (List.mem_cons.1 hmem).elim (other ∘ Eq.symm) ih
    | escape keeps more ih => cases keeps
  · intro h
    induction cs with
    | nil => exact .nil
    | cons c rest ih =>
        exact .plain (fun hc => h (hc ▸ List.mem_cons_self)) (ih fun hmem => h (.tail _ hmem))

theorem keeps_documented_iff :
    Escapes.documented.meaning c = ['\\', c] ↔ c = '%' ∨ c = '_' := by
  constructor
  · intro h
    change Escapes.documentedMeaning c = _ at h
    unfold Escapes.documentedMeaning at h
    split at h <;> simp at h ⊢
  · rintro (rfl | rfl) <;> rfl

/-- Only the wildcards of LIKE keep a backslash. -/
theorem kept_documented_iff :
    Kept .documented cs ↔ ∀ front rest, cs = front ++ '\\' :: rest →
      rest.head? = some '%' ∨ rest.head? = some '_' := by
  constructor
  · intro h
    induction h with
    | nil =>
        intro front rest heq
        cases front <;> cases heq
    | plain other more ih =>
        intro front rest heq
        cases front with
        | nil => exact absurd (List.cons.inj heq).1 other
        | cons d front => exact ih front rest (List.cons.inj heq).2
    | @escape c more keeps _ ih =>
        have hwild := keeps_documented_iff.1 keeps
        intro front rest heq
        match front with
        | [] =>
            obtain rfl : c :: more = rest := (List.cons.inj heq).2
            exact hwild.imp (congrArg some) (congrArg some)
        | [_] =>
            obtain ⟨rfl, -⟩ := List.cons.inj (List.cons.inj heq).2
            exact absurd hwild (by decide)
        | _ :: _ :: front => exact ih front rest (List.cons.inj (List.cons.inj heq).2).2
  · intro h
    induction hlength : cs.length using Nat.strongRecOn generalizing cs with
    | _ n ih =>
        subst hlength
        cases cs with
        | nil => exact .nil
        | cons c rest =>
            by_cases hbackslash : c = '\\'
            · subst hbackslash
              obtain ⟨d, more, rfl, hwild⟩ : ∃ d more, rest = d :: more ∧ (d = '%' ∨ d = '_') := by
                have hnext := h [] rest rfl
                cases rest with
                | nil => exact absurd hnext (by decide)
                | cons d more =>
                    exact ⟨d, more, rfl, hnext.imp Option.some.inj Option.some.inj⟩
              refine .escape (keeps_documented_iff.2 hwild) (ih more.length ?_ ?_ rfl)
              · simp only [List.length_cons]
                omega
              · intro front rest heq
                exact h ('\\' :: d :: front) rest (by rw [heq]; rfl)
            · refine .plain hbackslash (ih rest.length (Nat.lt_succ_self _) ?_ rfl)
              intro front more heq
              exact h (c :: front) more (by rw [heq]; rfl)

theorem literal_string (s : String) : Sql.literal .mySql (.string s) = Sql.quoteString s := by
  rw [Sql.literal]

/-- The literal of a string for MySQL denotes it, whatever stands behind, exactly if the string holds no
backslash. By the escape sequences that MySQL documents a backslash may also stand before a percent sign
or an underscore, which keep it. -/
theorem string_literal_denotes_iff (s : String) :
    (Denotes .plain (Sql.literal .mySql (.string s)) s ↔ '\\' ∉ s.toList) ∧
      (Denotes .documented (Sql.literal .mySql (.string s)) s ↔
        ∀ front rest, s.toList = front ++ '\\' :: rest →
          rest.head? = some '%' ∨ rest.head? = some '_') := by
  rw [literal_string, denotes_quoteString_iff, denotes_quoteString_iff]
  exact ⟨kept_plain_iff, kept_documented_iff⟩

/-- The literal of a backslash has no end. Where a quote comes behind the backslash, the literal ends there
and the rest of the string is SQL. -/
theorem backslash_literal_denotes_other :
    ¬ Denotes .plain (Sql.literal .mySql (.string "\\")) "\\" ∧
      ¬ Denotes .documented (Sql.literal .mySql (.string "\\")) "\\" ∧
      readString .documented (Sql.literal .mySql (.string "\\' OR 1=1 -- ")).toList =
        some (['\''], " OR 1=1 -- '".toList) := by
  refine ⟨?_, ?_, ?_⟩
  · rw [literal_string, denotes_quoteString_iff, kept_plain_iff]
    decide
  · rw [literal_string, denotes_quoteString_iff, kept_documented_iff]
    exact fun h => absurd (h [] [] rfl) (by decide)
  · rw [literal_string, toList_quoteString]
    rfl

end RowPipeline.MySql
