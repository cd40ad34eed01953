import Mathlib.Data.List.TakeWhile
import RowPipeline.Proofs.OrderIndependence

/-!
# What reading a document checks

Reading and validation go through a document in the same way: a document is read if and only if it is
found valid, and the problem it is refused with is the first one reported. What was read keeps all that
is promised of a pipeline: names that tell steps and parameters apart, references to steps that are
there, and an order in which every step comes after those it depends on.
-/

namespace RowPipeline

/-! ## Problems -/

namespace Document

/-- Problems each of which tells where it is. -/
def Located (errors : List ParseError) : Prop := ∀ e ∈ errors, ∃ field, e.field = some field

namespace Located

theorem nil : Located [] := by
  intro e he
  cases he

theorem cons {e : ParseError} {errors : List ParseError} (head : ∃ field, e.field = some field)
    (rest : Located errors) : Located (e :: errors) := by
  intro other hother
  rcases List.mem_cons.mp hother with rfl | hother
  · exact head
  · exact rest other hother

theorem append {first second : List ParseError} (h : Located first) (h' : Located second) :
    Located (first ++ second) := by
  intro e he
  rcases List.mem_append.mp he with he | he
  · exact h e he
  · exact h' e he

theorem problem (field message : String) (value : Option Json) :
    Located [Document.problem field message value] :=
  .cons ⟨field, rfl⟩ .nil

end Located

theorem readMetadata_located (field : Option Json) : Located (readMetadata field).errors := by
  unfold readMetadata
  split
  · exact .nil
  · exact .nil
  · split
    · exact .nil
    · exact .problem _ _ _

theorem readDeclarations_located (seen : List String) (index : Nat) (items : List Json) :
    Located (readDeclarations seen index items).errors := by
  induction items generalizing seen index with
  | nil => exact .nil
  | cons item rest ih =>
      rw [readDeclarations]
      split
      · exact .cons ⟨_, rfl⟩ (ih _ _)
      · dsimp only
        split
        · exact .cons ⟨_, rfl⟩ (ih _ _)
        · refine .append ?_ (ih _ _)
          split
          · exact .problem _ _ _
          · exact .nil

theorem readParameters_located (field : Option Json) : Located (readParameters field).errors := by
  unfold readParameters
  split
  · exact .nil
  · exact .nil
  · exact readDeclarations_located _ _ _
  · exact .problem _ _ _

theorem readStepBody_located (field name : String) (fields : List (String × Json)) :
    Located (readStepBody field name fields).errors := by
  unfold readStepBody
  dsimp only
  split
  · rename_i e hkind
    refine .cons ?_ .nil
    split at hkind
    · split at hkind
      · cases hkind
      · cases hkind
        exact ⟨_, rfl⟩
    · cases hkind
      exact ⟨_, rfl⟩
  · split
    · exact .problem _ _ _
    · split
      · exact .nil
      · exact .nil
      · exact .nil
      · exact .problem _ _ _
    · exact .problem _ _ _

theorem readStepsFrom_located (seen : List String) (index : Nat) (items : List Json) :
    Located (readStepsFrom seen index items).errors := by
  induction items generalizing seen index with
  | nil => exact .nil
  | cons item rest ih =>
      cases item with
      | object fields =>
          rw [readStepsFrom]
          split
          · exact .cons ⟨_, rfl⟩ (ih _ _)
          · refine .append (.append ?_ (readStepBody_located _ _ _)) (ih _ _)
            split
            · exact .problem _ _ _
            · exact .nil
      | _ => exact .cons ⟨_, rfl⟩ (ih _ _)

theorem readSteps_located (field : Option Json) : Located (readSteps field).errors := by
  unfold readSteps
  split
  · exact .problem _ _ _
  · exact readStepsFrom_located _ _ _
  · exact .problem _ _ _
  · exact .problem _ _ _
  · exact .problem _ _ _

theorem readOutput_located (steps : List Step) (field : Option Json) :
    Located (readOutput steps field).errors := by
  unfold readOutput
  split
  · exact .nil
  · exact .nil
  · dsimp only
    split
    · exact .problem _ _ _
    · exact .nil
  · exact .problem _ _ _

theorem readDependencies_located (names : List String) (index : Nat) (s : Step) :
    Located (readDependencies names index s).errors := by
  refine .append ?_ ?_
  · unfold sourcesNames
    split
    · exact .nil
    · intro e he
      obtain ⟨o, ho, heq⟩ := List.mem_filterMap.mp he
      obtain ⟨i, hi, hitem⟩ := List.mem_mapIdx.mp ho
      rw [id_eq] at heq
      subst heq
      split at hitem
      · cases hitem
      · cases hitem
        exact ⟨_, rfl⟩
    · exact .nil
  · intro e he
    obtain ⟨reference, -, rfl⟩ := List.mem_map.mp he
    exact ⟨_, rfl⟩

theorem readGraph_located (steps : List Step) : Located (readGraph steps).errors := by
  intro e he
  obtain ⟨errors, herrors, he⟩ := List.mem_flatten.mp he
  obtain ⟨part, hpart, rfl⟩ := List.mem_map.mp herrors
  obtain ⟨i, hi, rfl⟩ := List.mem_mapIdx.mp hpart
  exact readDependencies_located _ i _ e he

/-- A document that is not read has a problem, and each problem tells where it is. -/
theorem read_located {doc : Json} {errors : List ParseError}
    (h : (read doc).pipeline = .error errors) : errors ≠ [] ∧ Located errors := by
  unfold read at h
  split at h
  · dsimp only at h
    split at h
    · rename_i hsome
      cases h
      refine ⟨by simpa [List.isEmpty_iff] using hsome, ?_⟩
      exact .append (.append (.append (readMetadata_located _) (readParameters_located _))
        (readSteps_located _)) (readOutput_located _ _)
    · split at h
      · rename_i hsome
        cases h
        exact ⟨by simpa [List.isEmpty_iff] using hsome, readGraph_located _⟩
      · split at h
        · cases h
          exact ⟨List.cons_ne_nil _ _, .cons ⟨_, rfl⟩ .nil⟩
        · cases h
  · cases h
    exact ⟨List.cons_ne_nil _ _, .problem _ _ _⟩

/-! ## Names -/

/-- What is not empty after blanks are cut off holds a character that is none. -/
theorem exists_of_trimBlanks {text : String} (h : (Text.trimBlanks text).isEmpty = false) :
    ∃ c ∈ text.toList, Text.isBlank c = false := by
  by_contra hblank
  have hall : ∀ c ∈ text.toList, Text.isBlank c = true := by
    intro c hc
    by_contra hnot
    exact hblank ⟨c, hc, by simpa using hnot⟩
  have hdropped : text.toList.dropWhile Text.isBlank = [] := List.dropWhile_eq_nil_iff.mpr hall
  rw [Text.trimBlanks, hdropped] at h
  cases h

/-- Declarations read without problems have new, different names. -/
theorem readDeclarations_sound {seen : List String} {index : Nat} {items : List Json}
    (h : (readDeclarations seen index items).errors = []) :
    ((readDeclarations seen index items).value.map ParameterDecl.name).Nodup ∧
      ∀ d ∈ (readDeclarations seen index items).value, d.name ∉ seen := by
  induction items generalizing seen index with
  | nil => simp [readDeclarations]
  | cons item rest ih =>
      rw [readDeclarations] at h ⊢
      cases hdecl : ParameterDecl.ofJson item with
      | error e => simp [hdecl] at h
      | ok d =>
          simp only [hdecl] at h ⊢
          by_cases hblank : (Text.trimBlanks d.name).isEmpty = true
          · rw [if_pos hblank] at h
            cases h
          · rw [if_neg hblank] at h ⊢
            rw [List.append_eq_nil_iff] at h
            obtain ⟨hrepeated, hothers⟩ := h
            obtain ⟨hnodup, hfresh⟩ := ih hothers
            have hnew : d.name ∉ seen := by
              intro hmem
              simp [hmem] at hrepeated
            constructor
            · rw [List.map_cons, List.nodup_cons]
              refine ⟨?_, hnodup⟩
              intro hmem
              obtain ⟨other, hother, heq⟩ := List.mem_map.mp hmem
              exact hfresh other hother (heq ▸ List.mem_cons_self)
            · intro other hother
              rcases List.mem_cons.mp hother with rfl | hother
              · exact hnew
              · intro hmem
                exact hfresh other hother (List.mem_cons_of_mem _ hmem)

theorem readParameters_sound {field : Option Json} (h : (readParameters field).errors = []) :
    ((readParameters field).value.map ParameterDecl.name).Nodup := by
  unfold readParameters at h ⊢
  split at h
  · exact List.nodup_nil
  · exact List.nodup_nil
  · exact (readDeclarations_sound h).1
  · exact List.nodup_nil

/-- A name that is taken for a step's is not blank. -/
theorem trimBlanks_of_stepName? {fields : List (String × Json)} {name : String}
    (h : stepName? fields = some name) : (Text.trimBlanks name).isEmpty = false := by
  unfold stepName? at h
  split at h
  · split at h
    · cases h
    · rename_i hblank
      cases h
      simpa using hblank
  · cases h

/-- What holds of the step of every sound item holds of all steps that are read. -/
theorem readStepsFrom_each {P : Step → Prop}
    (body : ∀ field name fields s, stepName? fields = some name →
      (readStepBody field name fields).errors = [] →
      (readStepBody field name fields).value = some s → P s)
    {items : List Json} {seen : List String} {index : Nat}
    (h : (readStepsFrom seen index items).errors = []) :
    ∀ s ∈ (readStepsFrom seen index items).value, P s := by
  induction items generalizing seen index with
  | nil => simp [readStepsFrom]
  | cons item rest ih =>
      cases item with
      | object fields =>
          rw [readStepsFrom] at h ⊢
          cases hname : stepName? fields with
          | none => simp [hname] at h
          | some name =>
              simp only [hname, List.append_eq_nil_iff] at h ⊢
              obtain ⟨⟨-, hbody⟩, hothers⟩ := h
              obtain ⟨s, hs, -⟩ := readStepBody_sound hbody
              intro other hother
              rw [hs, Option.toList_some, List.singleton_append] at hother
              rcases List.mem_cons.mp hother with rfl | hother
              · exact body _ _ _ _ hname hbody hs
              · exact ih hothers other hother
      | _ => simp [readStepsFrom] at h

theorem readSteps_each {P : Step → Prop}
    (body : ∀ field name fields s, stepName? fields = some name →
      (readStepBody field name fields).errors = [] →
      (readStepBody field name fields).value = some s → P s)
    {field : Option Json} (h : (readSteps field).errors = []) :
    ∀ s ∈ (readSteps field).value, P s := by
  unfold readSteps at h ⊢
  split at h
  · simp at h
  · exact readStepsFrom_each body h
  · simp at h
  · simp at h
  · simp at h

/-- So no step that is read without problems has a blank name. -/
theorem readSteps_nonblank {field : Option Json} (h : (readSteps field).errors = []) :
    ∀ s ∈ (readSteps field).value, ∃ c ∈ s.name.toList, Text.isBlank c = false := by
  refine readSteps_each ?_ h
  intro field name fields s hname hbody hs
  obtain ⟨s', hs', rfl⟩ := readStepBody_sound hbody
  obtain rfl : s' = s := Option.some.inj (hs'.symm.trans hs)
  exact exists_of_trimBlanks (trimBlanks_of_stepName? hname)

/-! ## References -/

theorem nodup_foldl_addName (names : List String) {list : List String} (h : list.Nodup) :
    (names.foldl addName list).Nodup := by
  induction names generalizing list with
  | nil => exact h
  | cons head rest ih =>
      rw [List.foldl_cons]
      apply ih
      rw [addName]
      split
      · exact h
      · rename_i hnew
        exact nodup_snoc h hnew

/-- The names under a key of settings: a text, or the texts of an array. -/
def NamedUnder (config : Json) (key name : String) : Prop :=
  config.field? key = some (.string name) ∨
    ∃ items, config.field? key = some (.array items) ∧ .string name ∈ items

/-- The texts of an array, each with its place. -/
theorem mem_itemNames {field name : String} {items : List Json} :
    name ∈ (((items.mapIdx fun i item => item.asString?.map fun name =>
      (itemField field i, name)).filterMap id).map Prod.snd) ↔ .string name ∈ items := by
  constructor
  · intro h
    obtain ⟨⟨place, text⟩, hpair, rfl⟩ := List.mem_map.mp h
    obtain ⟨entry, hentry, hid⟩ := List.mem_filterMap.mp hpair
    obtain ⟨i, hi, hitem⟩ := List.mem_mapIdx.mp hentry
    obtain ⟨found, hfound, hnamed⟩ := Option.map_eq_some_iff.mp (hitem.trans hid)
    cases hnamed
    have hstring : items[i] = .string text := by
      generalize items[i] = item at hfound
      cases item <;> cases hfound
      rfl
    exact hstring ▸ List.getElem_mem hi
  · intro h
    obtain ⟨i, hi, hitem⟩ := List.getElem_of_mem h
    refine List.mem_map.mpr ⟨(itemField field i, name), ?_, rfl⟩
    refine List.mem_filterMap.mpr ⟨some (itemField field i, name), ?_, rfl⟩
    refine List.mem_mapIdx.mpr ⟨i, hi, ?_⟩
    rw [hitem]
    rfl

/-- Strict references are what is named under a key. -/
theorem mem_strictNames {config : Json} {key name : String}
    {read : Option Json → List (String × String)}
    (text : ∀ text, read (some (.string text)) = [(key, text)])
    (array : ∀ items, (read (some (.array items))).map Prod.snd =
      ((items.mapIdx fun i item => item.asString?.map fun name =>
        (itemField key i, name)).filterMap id).map Prod.snd)
    (other : ∀ j, (∀ text, j ≠ some (.string text)) → (∀ items, j ≠ some (.array items)) →
      read j = []) :
    name ∈ (read (config.field? key)).map Prod.snd ↔ NamedUnder config key name := by
  rw [NamedUnder]
  generalize config.field? key = j
  by_cases hstring : ∃ text, j = some (.string text)
  · obtain ⟨text', rfl⟩ := hstring
    rw [text]
    simp [eq_comm]
  by_cases harray : ∃ items, j = some (.array items)
  · obtain ⟨items, rfl⟩ := harray
    rw [array, mem_itemNames]
    simp
  · rw [other j (fun text h => hstring ⟨text, h⟩) fun items h => harray ⟨items, h⟩]
    refine ⟨fun h => absurd h List.not_mem_nil, ?_⟩
    rintro (h | ⟨items, h, -⟩)
    · exact absurd ⟨name, h⟩ hstring
    · exact absurd ⟨items, h⟩ harray

theorem mem_sourceNames {config : Json} {name : String} :
    name ∈ (sourceNames (config.field? "source")).map Prod.snd ↔ NamedUnder config "source" name := by
  refine mem_strictNames (fun _ => rfl) (fun _ => rfl) ?_
  intro j hstring harray
  unfold sourceNames
  split
  · exact absurd rfl (hstring _)
  · exact absurd rfl (harray _)
  · rfl

theorem mem_sourcesNames {config : Json} {field name : String} :
    name ∈ (sourcesNames field (config.field? "sources")).value.map Prod.snd ↔
      NamedUnder config "sources" name := by
  refine @mem_strictNames _ _ _ (fun j => (sourcesNames field j).value) (fun _ => rfl) (fun _ => rfl) ?_
  intro j hstring harray
  unfold sourcesNames
  split
  · exact absurd rfl (hstring _)
  · exact absurd rfl (harray _)
  · rfl

/-- Read without problems, the dependencies of a step hold all it names as a source. -/
theorem readDependencies_sources {names : List String} {index : Nat} {s : Step}
    (h : (readDependencies names index s).errors = []) {name : String}
    (named : NamedUnder s.config "source" name ∨ NamedUnder s.config "sources" name) :
    name ∈ (readDependencies names index s).value := by
  obtain ⟨-, hunknown⟩ := List.append_eq_nil_iff.mp h
  have hstrict : name ∈ (sourceNames (s.config.field? "source") ++
      (sourcesNames (itemField "steps" index) (s.config.field? "sources")).value).map Prod.snd := by
    rw [List.map_append, List.mem_append]
    rcases named with named | named
    · exact .inl (mem_sourceNames.mpr named)
    · exact .inr (mem_sourcesNames.mpr named)
  -- an unknown source would be among the problems
  have hknown : name ∈ names := by
    by_contra hnot
    obtain ⟨reference, hreference, rfl⟩ := List.mem_map.mp hstrict
    have hlisted : reference ∈ List.filter (fun p => p.2 ∉ names) _ :=
      List.mem_filter.mpr ⟨hreference, by simpa using hnot⟩
    rw [List.map_eq_nil_iff.mp hunknown] at hlisted
    cases hlisted
  rw [readDependencies, mem_foldl_addName]
  refine .inr (List.mem_append_left _ ?_)
  exact List.mem_filter.mpr ⟨hstrict, by simpa using hknown⟩

/-- The entry of a step in the graph. -/
theorem readGraph_get? {steps : List Step} (nodup : (steps.map Step.name).Nodup) {s : Step}
    (hs : s ∈ steps) :
    ∃ i, (readGraph steps).value.get? s.name =
        some (readDependencies (steps.map Step.name) i s).value ∧
      ((readGraph steps).errors = [] →
        (readDependencies (steps.map Step.name) i s).errors = []) := by
  obtain ⟨i, hi, rfl⟩ := List.getElem_of_mem hs
  refine ⟨i, ?_, ?_⟩
  · refine Record.get?_ofList_of_mem (by rw [readGraph_names]; exact nodup) ?_
    exact List.mem_map.mpr ⟨(steps[i].name, readDependencies (steps.map Step.name) i steps[i]),
      List.mem_mapIdx.mpr ⟨i, hi, rfl⟩, rfl⟩
  · intro hnone
    have hall := List.flatten_eq_nil_iff.mp hnone
    refine hall _ (List.mem_map.mpr ⟨(steps[i].name, readDependencies (steps.map Step.name) i
      steps[i]), List.mem_mapIdx.mpr ⟨i, hi, rfl⟩, rfl⟩)

theorem readGraph_keys {steps : List Step} (nodup : (steps.map Step.name).Nodup) :
    (readGraph steps).value.keys = steps.map Step.name := by
  rw [readGraph, Record.keys_ofList_of_nodup _ (by rw [readGraph_names]; exact nodup),
    readGraph_names]

end Document

/-! ## Pipelines -/

/-- What is promised of every pipeline that was read. -/
structure Pipeline.Consistent (p : Pipeline) : Prop where
  names_nonblank : ∀ s ∈ p.steps, ∃ c ∈ s.name.toList, Text.isBlank c = false
  names_nodup : (p.steps.map Step.name).Nodup
  parameters_nodup : (p.parameters.map ParameterDecl.name).Nodup
  output_mem : p.output ∈ p.steps.map Step.name
  listed : p.dependencies.keys = p.steps.map Step.name
  dependencies_nodup : ∀ s ∈ p.steps, (p.dependenciesOf s.name).Nodup
  dependencies_known : ∀ s ∈ p.steps, ∀ d ∈ p.dependenciesOf s.name, d ∈ p.steps.map Step.name
  sources : ∀ s ∈ p.steps, ∀ name, Document.NamedUnder s.config "source" name ∨
    Document.NamedUnder s.config "sources" name → name ∈ p.dependenciesOf s.name
  irreflexive : ∀ s ∈ p.steps, s.name ∉ p.dependenciesOf s.name
  order_perm : p.order.Perm (p.steps.map Step.name)
  ordered : DependenciesFirst p.dependenciesOf p.order

/-- In an order without repetition no name comes after itself. -/
theorem DependenciesFirst.irreflexive {dependsOn : String → List String} {order : List String}
    (h : DependenciesFirst dependsOn order) (nodup : order.Nodup) {name : String}
    (hname : name ∈ order) : name ∉ dependsOn name := by
  intro hself
  obtain ⟨before, after, rfl⟩ := List.append_of_mem hname
  have hbefore := h before name after rfl name hself
  rw [List.nodup_append] at nodup
  exact nodup.2.2 name hbefore name List.mem_cons_self rfl

/-- The dependencies of a step were read off its settings, without problems. -/
theorem Pipeline.dependenciesOf_read {doc : Json} {p : Pipeline}
    (h : (Document.read doc).pipeline = .ok p) {s : Step} (hs : s ∈ p.steps) :
    ∃ i, p.dependenciesOf s.name = (Document.readDependencies (p.steps.map Step.name) i s).value ∧
      (Document.readDependencies (p.steps.map Step.name) i s).errors = [] := by
  obtain ⟨root, -, hfrom⟩ := Document.read_parts h
  obtain ⟨i, hget, herrors⟩ := Document.readGraph_get? (WellFormed.of_read h).names_nodup hs
  refine ⟨i, ?_, herrors hfrom.graph⟩
  rw [dependenciesOf, hfrom.graph_eq, hget]
  rfl

theorem Pipeline.Consistent.of_read {doc : Json} {p : Pipeline}
    (h : (Document.read doc).pipeline = .ok p) : p.Consistent := by
  have wellFormed := Pipeline.WellFormed.of_read h
  obtain ⟨root, -, hfrom⟩ := Document.read_parts h
  have hordered := wellFormed.orderedBy
  exact
    { names_nonblank := hfrom.steps_eq ▸ Document.readSteps_nonblank hfrom.steps
      names_nodup := wellFormed.names_nodup
      parameters_nodup := hfrom.parameters_eq ▸ Document.readParameters_sound hfrom.parameters
      output_mem := (wellFormed.mem_order _).mp wellFormed.output_mem
      listed := hfrom.graph_eq ▸ Document.readGraph_keys wellFormed.names_nodup
      dependencies_nodup := by
        intro s hs
        obtain ⟨i, heq, -⟩ := dependenciesOf_read h hs
        rw [heq]
        exact Document.nodup_foldl_addName _ List.nodup_nil
      dependencies_known := by
        intro s hs
        obtain ⟨i, heq, -⟩ := dependenciesOf_read h hs
        rw [heq]
        exact Document.readDependencies_subset _ i s
      sources := by
        intro s hs name named
        obtain ⟨i, heq, herrors⟩ := dependenciesOf_read h hs
        rw [heq]
        exact Document.readDependencies_sources herrors named
      irreflexive := by
        intro s hs
        exact hordered.ordered.irreflexive wellFormed.order_nodup
          ((wellFormed.mem_order _).mpr (List.mem_map_of_mem hs))
      order_perm := hordered.perm
      ordered := hordered.ordered }

/-- Reading and validation agree: a document is read if and only if it is found valid, and what it is
refused with is the first problem that the validation reports, with the same field and message. A
pipeline that was read is consistent. -/
theorem reading_agrees_with_validation (doc : Json) (stepLimit : UInt64) :
    ((∃ p, Pipeline.ofJson doc = .ok p) ↔ (Document.validate doc stepLimit).valid = true) ∧
      (∀ e, Pipeline.ofJson doc = .error e →
        ∃ issue rest, (Document.validate doc stepLimit).errors = issue :: rest ∧
          e.field = some issue.field ∧ e.message = issue.message) ∧
      ∀ p, Pipeline.ofJson doc = .ok p → p.Consistent := by
  -- reading and validation look at one pass over the document
  cases hread : (Document.read doc).pipeline with
  | ok p =>
      have hok : Pipeline.ofJson doc = .ok p := by
        rw [Pipeline.ofJson, hread]
      have hvalid : (Document.validate doc stepLimit).valid = true := by
        rw [Document.validate, hread]
        rfl
      refine ⟨⟨fun _ => hvalid, fun _ => ⟨p, hok⟩⟩, ?_, ?_⟩
      · intro e he
        rw [hok] at he
        cases he
      · intro q hq
        rw [hok] at hq
        cases hq
        exact .of_read hread
  | error errors =>
      obtain ⟨hsome, hlocated⟩ := Document.read_located hread
      obtain ⟨e, rest, rfl⟩ := List.exists_cons_of_ne_nil hsome
      obtain ⟨field, hfield⟩ := hlocated e List.mem_cons_self
      have herror : Pipeline.ofJson doc = .error e := by
        rw [Pipeline.ofJson, hread]
      have hissues : (Document.validate doc stepLimit).errors =
          e.toIssue :: rest.map ParseError.toIssue := by
        rw [Document.validate, hread]
        rfl
      refine ⟨⟨?_, ?_⟩, ?_, ?_⟩
      · rintro ⟨p, hp⟩
        rw [herror] at hp
        cases hp
      · intro hvalid
        rw [Document.Validation.valid, hissues] at hvalid
        cases hvalid
      · intro e' he'
        rw [herror] at he'
        cases he'
        refine ⟨_, _, hissues, ?_, rfl⟩
        rw [ParseError.toIssue, hfield]
        rfl
      · intro p hp
        rw [herror] at hp
        cases hp

/-- A document of one step whose source is missing. -/
def danglingDocument : Json :=
  .object [("steps", .array [
    .object [("name", .string "copy"), ("type", .string "union"),
      ("config", .object [("sources", .array [.string "paid"])])]])]

theorem reading_agrees_with_validation_dangling :
    (∃ p, Pipeline.ofJson unionDocument = .ok p ∧ p.Consistent) ∧
      ∃ e issue rest, Pipeline.ofJson danglingDocument = .error e ∧
        (Document.validate danglingDocument 50).errors = issue :: rest ∧
        e.field = some issue.field ∧ e.message = issue.message ∧
        issue.field = "steps[0].config.sources[0]" ∧
        issue.message = "step 'copy' references unknown step 'paid'" := by
  have hread : ∃ p, Pipeline.ofJson unionDocument = .ok p := ⟨_, rfl⟩
  obtain ⟨p, hp⟩ := hread
  obtain ⟨-, -, hconsistent⟩ := reading_agrees_with_validation unionDocument 50
  obtain ⟨-, hrefused, -⟩ := reading_agrees_with_validation danglingDocument 50
  obtain ⟨issue, rest, hissues, hfield, hmessage⟩ := hrefused _ rfl
  refine ⟨⟨p, hp, hconsistent p hp⟩, _, issue, rest, rfl, hissues, hfield, hmessage, ?_, ?_⟩
  · exact Option.some.inj hfield.symm
  · exact hmessage.symm

end RowPipeline
