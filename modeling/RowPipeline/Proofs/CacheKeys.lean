import RowPipeline.Run
import RowPipeline.Proofs.CanonicalTexts

/-!
# Cache keys

What a key of the cache tells, as long as no two of the texts it is made from have the same digest: of
a step its kind, its settings and the rows it reads, and of a run the document, the parameters and the
page; all of this up to the order of names.
-/

namespace RowPipeline

/-! ## Keys of steps -/

/-- What the key of a step is the digest of. -/
def stepMaterial (kind : String) (config : Json) (inputs : List String) : Json :=
  .object [("type", .string kind), ("config", config), ("upstream", .array (inputs.map .string))]

theorem stepKey_eq (kind : String) (config : Json) (inputs : List String) :
    stepKey kind config inputs =
      "uqm:step:" ++ Sha256.ofText (stepMaterial kind config inputs).canonical := rfl

theorem canonical_stepFields (kind config inputs : Json) :
    (Json.object [("type", kind), ("config", config), ("upstream", inputs)]).canonical.toList =
      "\x7b\"config\":".toList ++ (config.canonical.toList ++ ',' :: ("\"type\":".toList ++
        (kind.canonical.toList ++ ',' :: ("\"upstream\":".toList ++
          (inputs.canonical.toList ++ ['\x7d']))))) := by
  have hsorted : ∀ config kind inputs : String,
      sortBy (fun a b => compare a.1 b.1) [("type", kind), ("config", config), ("upstream", inputs)] =
        [("config", config), ("type", kind), ("upstream", inputs)] := by
    have hfirst : compare "config" "type" = .lt := by decide
    have hlast : compare "upstream" "type" ≠ .lt := by decide
    simp [sortBy, insertDescending, hfirst, hlast]
  rw [Json.canonical]
  simp only [Json.canonicalFields, hsorted]
  simp [Json.renderString, Json.escapedChar]

/-- The key of a step tells its kind, its settings and what stands for its inputs. -/
theorem stepMaterial_told {kind kind' : String} {config config' : Json} {inputs inputs' : List String}
    (h : (stepMaterial kind config inputs).canonical =
      (stepMaterial kind' config' inputs').canonical) :
    kind = kind' ∧ config.canonical = config'.canonical ∧ inputs = inputs' := by
  have htext := congrArg String.toList h
  rw [stepMaterial, stepMaterial, canonical_stepFields, canonical_stepFields] at htext
  -- each value is cut off at the comma or brace behind it
  obtain ⟨hconfig, htext⟩ := Json.canonical_append (Json.follows_comma _) (Json.follows_comma _)
    (List.append_cancel_left htext)
  obtain ⟨hkind, htext⟩ := Json.canonical_append (Json.follows_comma _) (Json.follows_comma _)
    (List.append_cancel_left (List.cons.inj htext).2)
  obtain ⟨hinputs, -⟩ := Json.canonical_append (Json.follows_brace _) (Json.follows_brace _)
    (List.append_cancel_left (List.cons.inj htext).2)
  exact ⟨Json.renderString_injective hkind, hconfig, Json.canonical_strings hinputs⟩

/-! ## Inputs -/

theorem digitChar_ne {n : ℕ} {c : Char} (h : c = ':' ∨ c = 'm') : Nat.digitChar n ≠ c := by
  by_cases hn : n < 16
  · rcases h with rfl | rfl <;> (revert n; decide)
  · have hstar : Nat.digitChar n = '*' := by
      unfold Nat.digitChar
      repeat rw [if_neg (by omega)]
    rw [hstar]
    rcases h with rfl | rfl <;> decide

/-- A digest has neither a colon nor the first letter of what stands for a missing input. -/
theorem Sha256.ofText_ne {text : String} {c : Char} (h : c = ':' ∨ c = 'm') :
    c ∉ (Sha256.ofText text).toList := by
  rw [Sha256.ofText, Sha256.hex, String.toList_ofList]
  intro hmem
  obtain ⟨b, -, hb⟩ := List.mem_flatMap.mp hmem
  simp only [Sha256.hexDigit, List.mem_cons, List.not_mem_nil, or_false] at hb
  rcases hb with hb | hb <;> exact digitChar_ne h hb.symm

/-- What stands in a key for an input. -/
def inputText (name : String) (rows : Option (List Row)) : String :=
  match rows with
  | some rows => name ++ ":" ++ rowsFingerprint rows
  | none => name ++ ":missing"

theorem inputText_told {name name' : String} {rows rows' : Option (List Row)}
    (h : inputText name rows = inputText name' rows') :
    name = name' ∧ rows.map rowsFingerprint = rows'.map rowsFingerprint := by
  have hform : ∀ (name : String) (rows : Option (List Row)), (inputText name rows).toList =
      name.toList ++ ':' :: ((rows.map rowsFingerprint).getD "missing").toList := by
    intro name rows
    cases rows <;> simp [inputText]
  have hcolon : ∀ rows : Option (List Row),
      ':' ∉ ((rows.map rowsFingerprint).getD "missing").toList := by
    intro rows
    cases rows with
    | none => decide
    | some rows => exact Sha256.ofText_ne (.inl rfl)
  have htext := congrArg String.toList h
  rw [hform, hform] at htext
  obtain ⟨hname, hrows⟩ := split_last (hcolon rows) (hcolon rows') htext
  refine ⟨String.toList_inj.mp hname, ?_⟩
  -- a digest has no letter m, so it is not taken for a missing input
  have hmissing : ∀ rows : List Row, (rowsFingerprint rows).toList ≠ "missing".toList := by
    intro rows heq
    have hm : 'm' ∈ (rowsFingerprint rows).toList := by
      rw [heq]
      decide
    exact Sha256.ofText_ne (.inr rfl) hm
  cases rows with
  | none =>
      cases rows' with
      | none => rfl
      | some rows' => exact absurd hrows.symm (hmissing rows')
  | some rows =>
      cases rows' with
      | none => exact absurd hrows (hmissing rows)
      | some rows' => exact congrArg some (String.toList_inj.mp hrows)

/-- The names of the inputs are told from their texts, and so are the digests. -/
theorem inputTexts_told {names names' : List String} {rows rows' : String → Option (List Row)}
    (h : (names.map fun name => inputText name (rows name)) =
      names'.map fun name => inputText name (rows' name)) :
    names = names' ∧
      ∀ name ∈ names, (rows name).map rowsFingerprint = (rows' name).map rowsFingerprint := by
  induction names generalizing names' with
  | nil =>
      cases names' with
      | nil => exact ⟨rfl, fun _ hname => by cases hname⟩
      | cons name' rest' => cases h
  | cons name rest ih =>
      cases names' with
      | nil => cases h
      | cons name' rest' =>
          rw [List.map_cons, List.map_cons, List.cons.injEq] at h
          obtain ⟨rfl, hfirst⟩ := inputText_told h.1
          obtain ⟨rfl, hrest⟩ := ih h.2
          exact ⟨rfl, List.forall_mem_cons.mpr ⟨hfirst, hrest⟩⟩

/-- Two steps that are the same up to the order of names, as far as a key tells them. -/
structure StepContext.Akin (c c' : StepContext) : Prop where
  kind : c.kind = c'.kind
  config : c.config.canonical = c'.config.canonical
  dependencies : c.dependencies = c'.dependencies
  inputs : ∀ name ∈ c.dependencies,
    (c.inputs.get? name).map canonicalRows = (c'.inputs.get? name).map canonicalRows

/-- The text whose digest is the key of a step. -/
def StepContext.keyText (c : StepContext) : String :=
  (stepMaterial c.kind.name c.config (Run.dependencyTexts c)).canonical

theorem StepKind.ofName?_name (k : StepKind) : ofName? k.name = some k := by
  cases k <;> rfl

theorem StepKind.name_injective : Function.Injective StepKind.name := by
  intro a b h
  have hread := congrArg ofName? h
  rw [ofName?_name, ofName?_name] at hread
  exact Option.some.inj hread

/-- What the key of a step tells, as long as its digest tells the text: which inputs are missing, and of
the others their digests. -/
theorem StepContext.keyText_told {c c' : StepContext} (h : c.keyText = c'.keyText) :
    c.kind = c'.kind ∧ c.config.canonical = c'.config.canonical ∧ c.dependencies = c'.dependencies ∧
      ∀ name ∈ c.dependencies, (c.inputs.get? name).map rowsFingerprint =
        (c'.inputs.get? name).map rowsFingerprint := by
  obtain ⟨hkind, hconfig, hinputs⟩ := stepMaterial_told h
  have hform : ∀ c : StepContext, Run.dependencyTexts c =
      c.dependencies.map fun name => inputText name (c.inputs.get? name) := by
    intro c
    refine List.map_congr_left ?_
    intro name _
    cases c.inputs.get? name <;> rfl
  rw [hform, hform] at hinputs
  exact ⟨StepKind.name_injective hkind, hconfig, inputTexts_told hinputs⟩

/-- Steps with one key are the same up to the order of names, if the digests of the texts in the keys
tell the texts. -/
theorem StepContext.akin_of_keyText {c c' : StepContext} (h : c.keyText = c'.keyText)
    (rows : ∀ name rows rows', c.inputs.get? name = some rows → c'.inputs.get? name = some rows' →
      rowsFingerprint rows = rowsFingerprint rows' → canonicalRows rows = canonicalRows rows') :
    c.Akin c' := by
  obtain ⟨hkind, hconfig, hdependencies, hinputs⟩ := keyText_told h
  refine ⟨hkind, hconfig, hdependencies, ?_⟩
  intro name hname
  have hprint := hinputs name hname
  cases hget : c.inputs.get? name with
  | none =>
      rw [hget] at hprint
      rw [Option.map_eq_none_iff.mp hprint.symm]
  | some given =>
      rw [hget, Option.map_some] at hprint
      obtain ⟨given', hget', hsame⟩ := Option.map_eq_some_iff.mp hprint.symm
      rw [hget', Option.map_some, Option.map_some, rows name given given' hget hget' hsame.symm]

/-! ## Keys of runs -/

/-- The number of a page, or null. -/
def pageJson (n : Option UInt64) : Json := (n.map fun n => Json.ofNat n.toNat).getD .null

/-- What the key of a run is the digest of. -/
def runMaterial (document : Json) (params : Parameters) (page pageSize : Option UInt64) : Json :=
  .object [("document", document), ("parameters", Row.toJson params), ("page", pageJson page),
    ("page_size", pageJson pageSize)]

theorem runKey_eq (document : Json) (params : Parameters) (page pageSize : Option UInt64) :
    runKey document params page pageSize =
      "uqm:pipeline:" ++ Sha256.ofText (runMaterial document params page pageSize).canonical := rfl

theorem canonical_runFields (document params page pageSize : Json) :
    (Json.object [("document", document), ("parameters", params), ("page", page),
        ("page_size", pageSize)]).canonical.toList =
      "\x7b\"document\":".toList ++ (document.canonical.toList ++ ',' :: ("\"page\":".toList ++
        (page.canonical.toList ++ ',' :: ("\"page_size\":".toList ++
          (pageSize.canonical.toList ++ ',' :: ("\"parameters\":".toList ++
            (params.canonical.toList ++ ['\x7d']))))))) := by
  have hsorted : ∀ document params page pageSize : String,
      sortBy (fun a b => compare a.1 b.1) [("document", document), ("parameters", params),
          ("page", page), ("page_size", pageSize)] =
        [("document", document), ("page", page), ("page_size", pageSize),
          ("parameters", params)] := by
    have h₁ : compare "parameters" "document" ≠ .lt := by decide
    have h₂ : compare "page" "parameters" = .lt := by decide
    have h₃ : compare "page" "document" ≠ .lt := by decide
    have h₄ : compare "page_size" "parameters" = .lt := by decide
    have h₅ : compare "page_size" "page" ≠ .lt := by decide
    simp [sortBy, insertDescending, h₁, h₂, h₃, h₄, h₅]
  rw [Json.canonical]
  simp only [Json.canonicalFields, hsorted]
  simp [Json.renderString, Json.escapedChar]

theorem pageJson_told {n m : Option UInt64} (h : (pageJson n).canonical = (pageJson m).canonical) :
    n = m := by
  have hnumber : ∀ n : UInt64, (pageJson (some n)).canonical = toString n.toNat :=
    fun n => Json.canonical_ofNat n.toNat_lt
  -- the letters of null are no digits
  have hnull : ∀ n : UInt64, toString n.toNat ≠ (pageJson none).canonical := by
    intro n heq
    have hdigit := (Decimal.digits_toString n.toNat).all 'n' (by rw [heq]; decide)
    exact absurd hdigit (by decide)
  cases n with
  | none =>
      cases m with
      | none => rfl
      | some m => exact absurd ((hnumber m).symm.trans h.symm) (hnull m)
  | some n =>
      cases m with
      | none => exact absurd ((hnumber n).symm.trans h) (hnull n)
      | some m =>
          rw [hnumber, hnumber] at h
          rw [UInt64.toNat_inj.mp (Json.toString_injective h)]

/-- The key of a run tells the document, the parameters and the page. -/
theorem runMaterial_told {document document' : Json} {params params' : Parameters}
    {page page' pageSize pageSize' : Option UInt64}
    (h : (runMaterial document params page pageSize).canonical =
      (runMaterial document' params' page' pageSize').canonical) :
    document.canonical = document'.canonical ∧
      (Row.toJson params).canonical = (Row.toJson params').canonical ∧
      page = page' ∧ pageSize = pageSize' := by
  have htext := congrArg String.toList h
  rw [runMaterial, runMaterial, canonical_runFields, canonical_runFields] at htext
  obtain ⟨hdocument, htext⟩ := Json.canonical_append (Json.follows_comma _) (Json.follows_comma _)
    (List.append_cancel_left htext)
  obtain ⟨hpage, htext⟩ := Json.canonical_append (Json.follows_comma _) (Json.follows_comma _)
    (List.append_cancel_left (List.cons.inj htext).2)
  obtain ⟨hsize, htext⟩ := Json.canonical_append (Json.follows_comma _) (Json.follows_comma _)
    (List.append_cancel_left (List.cons.inj htext).2)
  obtain ⟨hparams, -⟩ := Json.canonical_append (Json.follows_brace _) (Json.follows_brace _)
    (List.append_cancel_left (List.cons.inj htext).2)
  exact ⟨hdocument, hparams, pageJson_told hpage, pageJson_told hsize⟩

end RowPipeline
