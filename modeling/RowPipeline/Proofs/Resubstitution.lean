import RowPipeline.Proofs.CanonicalTexts
import RowPipeline.Proofs.Places

/-!
# Putting in parameters again

Putting parameters into a text that refers to none with a value leaves it as it is. A filled text is
such a text if what was put in refers to none itself and does not end as a reference could, and if none
of it came to stand where a reference that stayed could go on.
-/

namespace RowPipeline

namespace Piece

variable {replace : String → Option String} {cs behind : List Char}

/-! ## References that could go on -/

/-- Whether a reference could go on behind these characters, which follow a dollar sign: there are none,
or they are a name so far, perhaps behind an opening brace. -/
def unfinished (cs : List Char) : Bool :=
  match cs with
  | '\x7b' :: name => name.isEmpty || isName name
  | name => name.isEmpty || isName name

theorem isName_of_append {name more : List Char} (h : isName (name ++ more) = true)
    (some : name ≠ []) : isName name = true := by
  cases name with
  | nil => exact absurd rfl some
  | cons c rest =>
      obtain ⟨hc, hrest⟩ := Bool.and_eq_true_iff.mp h
      change (rest ++ more).all isNameChar = true at hrest
      rw [List.all_append, Bool.and_eq_true] at hrest
      exact Bool.and_eq_true_iff.mpr ⟨hc, hrest.1⟩

theorem isName_append_eq_false {name : List Char} (h : (name.isEmpty || isName name) = false)
    (more : List Char) : isName (name ++ more) = false := by
  rw [Bool.or_eq_false_iff, List.isEmpty_eq_false_iff] at h
  rw [Bool.eq_false_iff] at h ⊢
  exact fun hmore => h.2 (isName_of_append hmore h.1)

theorem referenceAfterDollar?_finished_braced {name : List Char}
    (h : (name.isEmpty || isName name) = false) (more : List Char) :
    referenceAfterDollar? ('\x7b' :: name ++ more) = referenceAfterDollar? ('\x7b' :: name) := by
  by_cases hend : '\x7d' ∈ name
  · exact referenceAfterDollar?_closed hend more
  · have hopen : ∀ c ∈ name, (c != '\x7d') = true := by
      intro c hc
      have hne : c ≠ '\x7d' := fun heq => hend (heq ▸ hc)
      simpa using hne
    have hself := isName_append_eq_false h []
    rw [List.append_nil] at hself
    rw [List.cons_append, referenceAfterDollar?_braced, referenceAfterDollar?_braced,
      List.takeWhile_append_of_pos hopen, isName_append_eq_false h, takeWhile_of_all hopen, hself]
    rfl

theorem referenceAfterDollar?_finished_bare (hbrace : cs.head? ≠ some '\x7b')
    (h : (cs.isEmpty || isName cs) = false) (more : List Char) :
    referenceAfterDollar? (cs ++ more) = referenceAfterDollar? cs := by
  have hsome : cs ≠ [] := by
    rintro rfl
    cases h
  have hhead : (cs ++ more).head? ≠ some '\x7b' := by
    rwa [List.head?_append_of_ne_nil _ hsome]
  rw [referenceAfterDollar?_bare hbrace, referenceAfterDollar?_bare hhead]
  by_cases hstop : ∃ q ∈ cs, isNameChar q = false
  · obtain ⟨q, hq, hchar⟩ := hstop
    rw [takeWhile_append_of_mem hq hchar]
  · have hall : ∀ c ∈ cs, isNameChar c = true := by
      intro c hc
      cases hchar : isNameChar c with
      | true => rfl
      | false => exact absurd ⟨c, hc, hchar⟩ hstop
    have hself := isName_append_eq_false h []
    rw [List.append_nil] at hself
    rw [List.takeWhile_append_of_pos hall, isName_append_eq_false h, takeWhile_of_all hall, hself]
    rfl

/-- What is finished refers to the same whatever follows. -/
theorem referenceAfterDollar?_finished (h : unfinished cs = false) (more : List Char) :
    referenceAfterDollar? (cs ++ more) = referenceAfterDollar? cs := by
  unfold unfinished at h
  split at h
  · exact referenceAfterDollar?_finished_braced h more
  · rename_i hbrace
    refine referenceAfterDollar?_finished_bare ?_ h more
    intro hhead
    obtain ⟨rest, rfl⟩ := List.head?_eq_some_iff.mp hhead
    exact hbrace rest rfl

/-- Whether every reference that is replaced stands apart from those that stay. `behind` are the
characters since the last dollar sign that stays, if they are not cut off by a replacement. -/
def apart (replace : String → Option String) : Option (List Char) → List Piece → Bool
  | _, [] => true
  | behind, .char c :: rest =>
      apart replace (if c = '$' then some [] else behind.map fun cs => cs ++ [c]) rest
  | behind, .reference name source :: rest =>
      match replace name with
      | some _ => !behind.any unfinished && apart replace none rest
      | none => apart replace (some source.tail) rest

/-- A text that is put in and refers to nothing that is replaced, whatever it is followed by. -/
structure Inert (replace : String → Option String) (text : String) : Prop where
  dead : ∀ name ∈ names text, replace name = none
  finished : ∀ cs ∈ text.toList.tails, cs.head? = some '$' → unfinished cs.tail = false

instance (text : String) : Decidable (Inert replace text) :=
  decidable_of_iff ((∀ name ∈ names text, replace name = none) ∧
    ∀ cs ∈ text.toList.tails, cs.head? = some '$' → unfinished cs.tail = false)
    ⟨fun h => ⟨h.1, h.2⟩, fun h => ⟨h.dead, h.finished⟩⟩

/-- What is put into a text is inert, and no reference that stays goes on with it. -/
structure TextSettles (replace : String → Option String) (text : String) : Prop where
  inert : ∀ name ∈ names text, ∀ s ∈ replace name, Inert replace s
  apart : Piece.apart replace none (scan text) = true

instance (text : String) : Decidable (TextSettles replace text) :=
  decidable_of_iff ((∀ name ∈ names text, ∀ s ∈ replace name, Inert replace s) ∧
    Piece.apart replace none (scan text) = true)
    ⟨fun h => ⟨h.1, h.2⟩, fun h => ⟨h.inert, h.apart⟩⟩

theorem Inert.scanFrom_append {text : String} (h : Inert replace text) (more : List Char) :
    scanFrom 0 (text.toList ++ more) = scan text ++ scanFrom 0 more := by
  refine Piece.scanFrom_append (Nat.zero_le _) fun before after hsplit => ?_
  refine referenceAfterDollar?_finished (h.finished ('$' :: after) ?_ rfl) more
  rw [List.mem_tails, hsplit]
  exact List.suffix_append before _

/-! ## How a text is filled -/

theorem fillChars_char {c : Char} (h : c ≠ '$') (rest : List Char) :
    fillChars replace (c :: rest) = c :: fillChars replace rest := by
  rw [fillChars, scanFrom_char h]
  rfl

theorem fillChars_dollar {rest : List Char} (h : referenceAfterDollar? rest = none) :
    fillChars replace ('$' :: rest) = '$' :: fillChars replace rest := by
  rw [fillChars, scanFrom_dollar h]
  rfl

theorem fillChars_name {rest name : List Char} {n : Nat}
    (h : referenceAfterDollar? rest = some (name, n)) :
    fillChars replace ('$' :: rest) =
      filled replace (.reference (String.ofList name) ('$' :: rest.take n)) ++
        fillChars replace (rest.drop n) := by
  rw [fillChars, scanFrom_name h, List.flatMap_cons]
  rfl

/-- What a dollar sign that stays refers to is the same in the filled text. -/
theorem referenceAfterDollar?_fillChars (h : apart replace (some behind) (scanFrom 0 cs) = true) :
    referenceAfterDollar? (behind ++ fillChars replace cs) = referenceAfterDollar? (behind ++ cs) := by
  induction cs generalizing behind with
  | nil => rfl
  | cons c rest ih =>
      cases hbehind : unfinished behind with
      | false => rw [referenceAfterDollar?_finished hbehind, referenceAfterDollar?_finished hbehind]
      | true =>
          by_cases hc : c = '$'
          · subst hc
            -- what is put in cannot stand here, so both texts go on with the dollar sign
            have hcut : ∀ more, referenceAfterDollar? (behind ++ '$' :: more) =
                referenceAfterDollar? (behind ++ ['$']) := by
              intro more
              have hmem : '$' ∈ behind ++ ['$'] := List.mem_append_right _ (List.mem_singleton.mpr rfl)
              rw [← referenceAfterDollar?_append_of_mem hmem (by decide) (by decide) more,
                List.append_assoc]
              rfl
            obtain ⟨more, hmore⟩ : ∃ more, fillChars replace ('$' :: rest) = '$' :: more := by
              cases hreference : referenceAfterDollar? rest with
              | none => exact ⟨_, fillChars_dollar hreference⟩
              | some found =>
                  obtain ⟨name, n⟩ := found
                  rw [scanFrom_name hreference, apart] at h
                  rw [fillChars_name hreference, filled]
                  cases hreplace : replace (String.ofList name) with
                  | none => exact ⟨_, rfl⟩
                  | some s => simp [hreplace, hbehind] at h
            rw [hmore, hcut more, hcut rest]
          · have hrest : apart replace (some (behind ++ [c])) (scanFrom 0 rest) = true := by
              rw [scanFrom_char hc, apart, if_neg hc] at h
              exact h
            have hstep := ih hrest
            rw [List.append_assoc, List.append_assoc] at hstep
            rw [fillChars_char hc]
            exact hstep

/-- A filled text refers to nothing that is replaced, if what was put in is inert and stands apart. -/
theorem replace_eq_none_of_filled {before : Option (List Char)}
    (inert : ∀ name source, .reference name source ∈ scanFrom 0 cs → ∀ s, replace name = some s →
      Inert replace s)
    (h : apart replace before (scanFrom 0 cs) = true) :
    ∀ name source, .reference name source ∈ scanFrom 0 (fillChars replace cs) →
      replace name = none := by
  induction cs using scan_induction generalizing before with
  | nil =>
      intro name source hmem
      cases hmem
  | char c rest hc ih =>
      intro name source hmem
      rw [scanFrom_char hc] at inert h
      rw [fillChars_char hc, scanFrom_char hc] at hmem
      rcases List.mem_cons.mp hmem with heq | hmem
      · cases heq
      · exact ih (fun name source hmem => inert name source (List.mem_cons_of_mem _ hmem)) h
          name source hmem
  | dollar rest hreference ih =>
      intro name source hmem
      rw [scanFrom_dollar hreference] at inert h
      have hsame : referenceAfterDollar? (fillChars replace rest) = none :=
        (@referenceAfterDollar?_fillChars replace rest [] h).trans hreference
      rw [fillChars_dollar hreference, scanFrom_dollar hsame] at hmem
      rcases List.mem_cons.mp hmem with heq | hmem
      · cases heq
      · exact ih (fun name source hmem => inert name source (List.mem_cons_of_mem _ hmem)) h
          name source hmem
  | reference rest found n hreference ih =>
      intro name source hmem
      rw [scanFrom_name hreference] at inert h
      have hrest := fun name source hmem => inert name source (List.mem_cons_of_mem _ hmem)
      rw [apart] at h
      rw [fillChars_name hreference, filled] at hmem
      cases hreplace : replace (String.ofList found) with
      | some s =>
          have hs := inert _ _ List.mem_cons_self s hreplace
          simp only [hreplace] at h hmem
          rw [hs.scanFrom_append] at hmem
          rcases List.mem_append.mp hmem with hmem | hmem
          · exact hs.dead name (mem_names.mpr ⟨source, hmem⟩)
          · exact ih hrest (Bool.and_eq_true_iff.mp h).2 name source hmem
      | none =>
          -- the reference stays, and the filled text goes on behind it
          simp only [hreplace, List.tail_cons] at h hmem
          have hsame := referenceAfterDollar?_fillChars h
          rw [List.take_append_drop, hreference] at hsame
          have hlength : (rest.take n).length = n :=
            List.length_take_of_le (referenceAfterDollar?_spec hreference).2
          rw [List.cons_append, scanFrom_name hsame, List.drop_left' hlength] at hmem
          rcases List.mem_cons.mp hmem with heq | hmem
          · obtain ⟨rfl, -⟩ := Piece.reference.inj heq
            exact hreplace
          · exact ih hrest h name source hmem

theorem TextSettles.names_fill {text name : String} (h : TextSettles replace text)
    (hname : name ∈ names (fill replace text)) : replace name = none := by
  obtain ⟨source, hmem⟩ := mem_names.mp hname
  rw [scan, fill_eq] at hmem
  exact replace_eq_none_of_filled
    (fun name source hmem => h.inert name (mem_names.mpr ⟨source, hmem⟩)) h.apart name source hmem

end Piece

namespace Json

/-! ## Texts of a value -/

/-- The text of an expression that stands under a key. -/
def formula? (key : String) (j : Json) : Option String :=
  if key = expressionKey then j.asString? else none

theorem formula?_eq_some {key text : String} {j : Json} (h : formula? key j = some text) :
    key = expressionKey ∧ j = .string text := by
  unfold formula? at h
  split at h
  · rename_i hkey
    cases j with
    | string other => exact ⟨hkey, congrArg Json.string (Option.some.inj h)⟩
    | _ => cases h
  · cases h

section Texts

variable (plain formula : String → Prop)

mutual

/-- What holds of every text that substitution rewrites: `plain` of a string, `formula` of the text of
an expression, and nothing of those in a gate. -/
def Texts : Json → Prop
  | .string text => plain text
  | .array items => ItemTexts items
  | .object fields => FieldTexts fields
  | _ => True

def ItemTexts : List Json → Prop
  | [] => True
  | j :: rest => Texts j ∧ ItemTexts rest

def FieldTexts : List (String × Json) → Prop
  | [] => True
  | (key, j) :: rest =>
      (key = gateKey ∨
        match formula? key j with
        | some text => formula text
        | none => Texts j) ∧ FieldTexts rest

end

variable [DecidablePred plain] [DecidablePred formula]

mutual

instance decidableTexts : ∀ j, Decidable (Texts plain formula j)
  | .string text => inferInstanceAs (Decidable (plain text))
  | .array items => decidableItemTexts items
  | .object fields => decidableFieldTexts fields
  | .null | .bool _ | .number _ => inferInstanceAs (Decidable True)

instance decidableItemTexts : ∀ items, Decidable (ItemTexts plain formula items)
  | [] => inferInstanceAs (Decidable True)
  | j :: rest => @instDecidableAnd _ _ (decidableTexts j) (decidableItemTexts rest)

instance decidableFieldTexts : ∀ fields, Decidable (FieldTexts plain formula fields)
  | [] => inferInstanceAs (Decidable True)
  | (key, j) :: rest =>
      let value : Decidable (match formula? key j with
          | some text => formula text
          | none => Texts plain formula j) :=
        match formula? key j with
        | some text => inferInstanceAs (Decidable (formula text))
        | none => decidableTexts j
      @instDecidableAnd _ _ (@instDecidableOr _ _ _ value) (decidableFieldTexts rest)

end

end Texts

end Json

open Json

/-- What a text shows of a parameter. -/
def Parameters.shown? (params : Parameters) (name : String) : Option String :=
  (params.get? name).map Value.display

/-- What an expression writes for a parameter. -/
def Parameters.written? (params : Parameters) (name : String) : Option String :=
  (params.get? name).bind Value.expressionLiteral?

section Substitution

variable (params : Parameters)

/-- A text that refers to nothing that would be put in. -/
def Dead (text : String) : Prop := ¬ Mentions params text

/-- The text of an expression that refers to nothing that would be put in. -/
def DeadFormula (text : String) : Prop := ∀ name ∈ Piece.names text, params.written? name = none

instance : DecidablePred (Dead params) := fun text =>
  decidable_of_iff (∀ name ∈ Piece.names text, ¬ (params.get? name).isSome = true)
    ⟨fun h ⟨name, hname, hsome⟩ => h name hname hsome, fun h name hname hsome => h ⟨name, hname, hsome⟩⟩

instance : DecidablePred (DeadFormula params) := fun text =>
  inferInstanceAs (Decidable (∀ name ∈ Piece.names text, params.written? name = none))

/-- A text after which nothing is left to put in: a value put in for all of it has dead texts only, and
what is put into it is inert and stands apart. -/
def Settling (text : String) : Prop :=
  match Piece.scan text with
  | [.reference name _] => ∀ v ∈ params.get? name, v.toJson.Texts (Dead params) (DeadFormula params)
  | _ => Piece.TextSettles params.shown? text

instance : DecidablePred (Settling params) := fun text => by
  unfold Settling
  split <;> infer_instance

/-- What becomes of the value of a field. -/
def substituteField (key : String) (j : Json) : Json :=
  if key = gateKey then j
  else
    match formula? key j with
    | some text => .string (substituteExpression params text)
    | none => substituteValue params j

variable {params} {text key : String}

theorem substituteFields_cons (j : Json) (rest : List (String × Json)) :
    substituteFields params ((key, j) :: rest) =
      (key, substituteField params key j) :: substituteFields params rest := by
  unfold substituteField formula?
  by_cases hkey : key = expressionKey
  · cases j <;> simp [substituteFields, asString?, hkey]
  · cases j <;> simp [substituteFields, hkey]

/-- A text has to be one of an expression before it is taken as one. -/
theorem formula?_substituteValue {j : Json} (h : formula? key j = none) :
    formula? key (substituteValue params j) = none := by
  unfold formula? at h ⊢
  by_cases hkey : key = expressionKey
  · rw [if_pos hkey] at h ⊢
    cases j with
    | string text => cases h
    | array items => rw [substituteValue]; rfl
    | object fields => rw [substituteValue]; rfl
    | _ => rfl
  · rw [if_neg hkey]

/-! ## A value without live references stays -/

theorem dead_of_shown (h : ∀ name ∈ Piece.names text, params.shown? name = none) : Dead params text := by
  rintro ⟨name, hname, hsome⟩
  obtain ⟨v, hv⟩ := Option.isSome_iff_exists.mp hsome
  have hnone := h name hname
  rw [Parameters.shown?, hv] at hnone
  cases hnone

theorem substituteField_of_dead {j : Json} {rest : List (String × Json)}
    (hvalue : j.Texts (Dead params) (DeadFormula params) → substituteValue params j = j)
    (h : FieldTexts (Dead params) (DeadFormula params) ((key, j) :: rest)) :
    substituteField params key j = j := by
  unfold substituteField
  split
  · rfl
  · rename_i hgate
    have hfield := h.1.resolve_left hgate
    split
    · rename_i text hformula
      simp only [hformula] at hfield
      rw [(formula?_eq_some hformula).2]
      exact congrArg Json.string (fill_of_none hfield)
    · rename_i hformula
      simp only [hformula] at hfield
      exact hvalue hfield

mutual

/-- A value with dead texts only stays. -/
theorem substituteValue_of_dead : ∀ {j : Json}, j.Texts (Dead params) (DeadFormula params) →
    substituteValue params j = j
  | .string _, h => substituteString_of_not_mentions h
  | .array items, h => by rw [substituteValue, substituteItems_of_dead h]
  | .object fields, h => by rw [substituteValue, substituteFields_of_dead h]
  | .null, _ | .bool _, _ | .number _, _ => rfl

theorem substituteItems_of_dead : ∀ {items : List Json},
    ItemTexts (Dead params) (DeadFormula params) items → substituteItems params items = items
  | [], _ => rfl
  | _ :: _, h => by rw [substituteItems, substituteValue_of_dead h.1, substituteItems_of_dead h.2]

theorem substituteFields_of_dead : ∀ {fields : List (String × Json)},
    FieldTexts (Dead params) (DeadFormula params) fields → substituteFields params fields = fields
  | [], _ => rfl
  | (_, _) :: _, h => by
      rw [substituteFields_cons, substituteField_of_dead substituteValue_of_dead h,
        substituteFields_of_dead h.2]

end

/-! ## Substitution leaves no live references -/

/-- A text that is one reference becomes the value of the parameter. -/
theorem texts_substituteString_reference {name : String} {source : List Char}
    (hscan : Piece.scan text = [.reference name source]) (h : Settling params text) :
    (substituteString params text).Texts (Dead params) (DeadFormula params) := by
  simp only [Settling, hscan] at h
  simp only [substituteString, hscan]
  split
  · rename_i v hv
    exact h v hv
  · rename_i hnone
    rintro ⟨name', hname', hsome⟩
    rw [Piece.names, hscan] at hname'
    obtain rfl := List.mem_singleton.mp hname'
    rw [hnone] at hsome
    cases hsome

theorem substituteString_text (hscan : ∀ name source, Piece.scan text ≠ [.reference name source]) :
    substituteString params text = .string (Piece.fill params.shown? text) := by
  rw [substituteString]
  split
  · rename_i name source hreference
    exact absurd hreference (hscan name source)
  · rfl

theorem textSettles_of_settling (hscan : ∀ name source, Piece.scan text ≠ [.reference name source])
    (h : Settling params text) : Piece.TextSettles params.shown? text := by
  rw [Settling] at h
  split at h
  · rename_i name source hreference
    exact absurd hreference (hscan name source)
  · exact h

theorem texts_substituteString (h : Settling params text) :
    (substituteString params text).Texts (Dead params) (DeadFormula params) := by
  by_cases hwhole : ∃ name source, Piece.scan text = [.reference name source]
  · obtain ⟨name, source, hscan⟩ := hwhole
    exact texts_substituteString_reference hscan h
  · have hscan : ∀ name source, Piece.scan text ≠ [.reference name source] :=
      fun name source heq => hwhole ⟨name, source, heq⟩
    rw [substituteString_text hscan]
    exact dead_of_shown fun name hname => (textSettles_of_settling hscan h).names_fill hname

theorem texts_substituteField {j : Json} {rest : List (String × Json)}
    (hvalue : j.Texts (Settling params) (Piece.TextSettles params.written?) →
      (substituteValue params j).Texts (Dead params) (DeadFormula params))
    (h : FieldTexts (Settling params) (Piece.TextSettles params.written?) ((key, j) :: rest))
    (hrest : FieldTexts (Dead params) (DeadFormula params) (substituteFields params rest)) :
    FieldTexts (Dead params) (DeadFormula params) (substituteFields params ((key, j) :: rest)) := by
  rw [substituteFields_cons]
  refine ⟨?_, hrest⟩
  by_cases hgate : key = gateKey
  · exact .inl hgate
  right
  have hfield := h.1.resolve_left hgate
  rw [substituteField, if_neg hgate]
  cases hformula : formula? key j with
  | some text =>
      simp only [hformula] at hfield
      simp only [formula?, if_pos (formula?_eq_some hformula).1]
      exact fun name hname => hfield.names_fill hname
  | none =>
      simp only [hformula] at hfield
      simp only [formula?_substituteValue hformula]
      exact hvalue hfield

mutual

/-- What is put into settling texts leaves dead ones. -/
theorem texts_substituteValue : ∀ {j : Json},
    j.Texts (Settling params) (Piece.TextSettles params.written?) →
      (substituteValue params j).Texts (Dead params) (DeadFormula params)
  | .string _, h => texts_substituteString h
  | .array _, h => texts_substituteItems h
  | .object _, h => texts_substituteFields h
  | .null, _ | .bool _, _ | .number _, _ => trivial

theorem texts_substituteItems : ∀ {items : List Json},
    ItemTexts (Settling params) (Piece.TextSettles params.written?) items →
      ItemTexts (Dead params) (DeadFormula params) (substituteItems params items)
  | [], _ => trivial
  | _ :: _, h => ⟨texts_substituteValue h.1, texts_substituteItems h.2⟩

theorem texts_substituteFields : ∀ {fields : List (String × Json)},
    FieldTexts (Settling params) (Piece.TextSettles params.written?) fields →
      FieldTexts (Dead params) (DeadFormula params) (substituteFields params fields)
  | [], _ => trivial
  | (_, _) :: _, h => texts_substituteField texts_substituteValue h (texts_substituteFields h.2)

end

/-- Putting in parameters leaves nothing to put in, and doing so again changes nothing, if every text
settles: texts put into others and values put in whole refer to nothing that is put in, and no reference
is made where they meet what stays. -/
theorem substituteValue_idempotent {j : Json}
    (settling : j.Texts (Settling params) (Piece.TextSettles params.written?)) :
    (substituteValue params j).Texts (Dead params) (DeadFormula params) ∧
      substituteValue params (substituteValue params j) = substituteValue params j := by
  have hdead := texts_substituteValue settling
  exact ⟨hdead, substituteValue_of_dead hdead⟩

end Substitution

def reportParameters : Parameters :=
  ⟨[("fee", .string "$5.00"), ("ids", .array [.int 1, .int 2]), ("region", .string "EU")], by decide⟩

/-- A value for a whole string, texts within others and a literal in an expression. -/
def reportSettings : Json :=
  .object [("label", .string "${region}: $fee of $total"), ("ids", .array [.string "$ids"]),
    ("column", .object [(expressionKey, .string "region = $region")])]

/-- A reference without a parameter stays behind a text with a dollar sign. -/
theorem substituteValue_idempotent_report :
    reportSettings.Texts (Settling reportParameters) (Piece.TextSettles reportParameters.written?) ∧
      (substituteValue reportParameters reportSettings).Texts (Dead reportParameters)
        (DeadFormula reportParameters) ∧
      substituteValue reportParameters (substituteValue reportParameters reportSettings) =
        substituteValue reportParameters reportSettings := by
  have hsettling : reportSettings.Texts (Settling reportParameters)
      (Piece.TextSettles reportParameters.written?) := by
    decide +kernel
  exact ⟨hsettling, substituteValue_idempotent hsettling⟩

/-- The values of the parameters of a chain are references. -/
def chainedParameters : Parameters :=
  ⟨[("a", .string "$b"), ("b", .string "x"), ("c", .string "b")], by decide⟩

/-- The second time a value is followed that is a reference itself, and a reference that a dollar sign
of the text makes with the value behind it. -/
theorem substituteValue_follows_values :
    substituteValue chainedParameters (substituteValue chainedParameters (.string "$a")) ≠
        substituteValue chainedParameters (.string "$a") ∧
      substituteValue chainedParameters (substituteValue chainedParameters (.string "$$c")) ≠
        substituteValue chainedParameters (.string "$$c") := by
  refine ⟨fun h => ?_, fun h => ?_⟩
  · exact absurd (congrArg asString? h) (by decide +kernel)
  · exact absurd (congrArg asString? h) (by decide +kernel)

end RowPipeline
