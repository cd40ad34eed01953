import RowPipeline.Document.Reader
import RowPipeline.Proofs.ExecutionOrder
import RowPipeline.Proofs.Outcomes

/-!
# Documents that were read

A document is read part by part, and a problem in any part refuses it. So a pipeline that was read has
steps with different names, an order that lists each of them after the steps it depends on, and an
output among them. Putting in parameters changes none of this.
-/

namespace RowPipeline

namespace Document

/-! ## Steps -/

/-- A step body without problems gives a step of that name. -/
theorem readStepBody_sound {field name : String} {fields : List (String × Json)}
    (h : (readStepBody field name fields).errors = []) :
    ∃ s, (readStepBody field name fields).value = some s ∧ s.name = name := by
  unfold readStepBody at h ⊢
  generalize Assoc.get? "type" fields = type at h ⊢
  generalize Assoc.get? "config" fields = config at h ⊢
  generalize Assoc.get? "cache" fields = cache at h ⊢
  rcases type with _ | _ | _ | _ | text | _ | _
  case some.string =>
    cases hkind : StepKind.read text with
    | error e => simp [hkind] at h
    | ok kind =>
        simp only [hkind] at h ⊢
        rcases config with _ | _ | _ | _ | _ | _ | config
        case some.object =>
          rcases cache with _ | _ | _ | _ | _ | _ | _
          all_goals simp at h ⊢
        all_goals simp at h
  all_goals simp at h

/-- Steps read without problems have new, different names, and no item of the array is lost. -/
theorem readStepsFrom_sound {items : List Json} {seen : List String} {index : Nat}
    (h : (readStepsFrom seen index items).errors = []) :
    ((readStepsFrom seen index items).value.map Step.name).Nodup ∧
      (∀ s ∈ (readStepsFrom seen index items).value, s.name ∉ seen) ∧
      (readStepsFrom seen index items).value.length = items.length := by
  induction items generalizing seen index with
  | nil => simp [readStepsFrom]
  | cons item rest ih =>
      cases item with
      | object fields =>
          rw [readStepsFrom] at h ⊢
          cases hname : stepName? fields with
          | none => simp [hname] at h
          | some name =>
              simp only [hname, List.append_eq_nil_iff] at h ⊢
              obtain ⟨⟨hrepeated, hbody⟩, hothers⟩ := h
              obtain ⟨s, hs, rfl⟩ := readStepBody_sound hbody
              obtain ⟨hnodup, hfresh, hlength⟩ := ih hothers
              have hnew : s.name ∉ seen := by
                intro hmem
                simp [hmem] at hrepeated
              simp only [hs, Option.toList_some, List.singleton_append, List.map_cons,
                List.nodup_cons, List.mem_map, not_exists, not_and, List.mem_cons,
                List.length_cons, hlength, and_true]
              refine ⟨⟨?_, hnodup⟩, ?_⟩
              · intro other hother heq
                exact hfresh other hother (by simp [heq])
              · rintro other (rfl | hother)
                · exact hnew
                · intro hmem
                  exact hfresh other hother (List.mem_cons_of_mem _ hmem)
      | _ => simp [readStepsFrom] at h

/-- A steps field without problems holds at least one step, and the names differ. -/
theorem readSteps_sound {field : Option Json} (h : (readSteps field).errors = []) :
    ((readSteps field).value.map Step.name).Nodup ∧ (readSteps field).value ≠ [] := by
  unfold readSteps at h ⊢
  split at h
  · simp at h
  · rename_i items hitems
    obtain ⟨hnodup, -, hlength⟩ := readStepsFrom_sound h
    refine ⟨hnodup, ?_⟩
    intro hnil
    rw [hnil] at hlength
    exact hitems (List.eq_nil_of_length_eq_zero hlength.symm)
  · simp at h
  · simp at h
  · simp at h

/-- An output read without problems names a step. -/
theorem readOutput_sound {steps : List Step} {field : Option Json} (nonempty : steps ≠ [])
    (h : (readOutput steps field).errors = []) :
    (readOutput steps field).value.1 ∈ steps.map Step.name := by
  have hlast : lastName steps ∈ steps.map Step.name := by
    rw [lastName, List.getLast?_eq_some_getLast nonempty]
    exact List.mem_map_of_mem (List.getLast_mem nonempty)
  unfold readOutput at h ⊢
  split at h
  · exact hlast
  · exact hlast
  · rename_i name
    have hany : steps.any (fun s => s.name == name) = true := by
      by_contra hnone
      rw [Bool.not_eq_true] at hnone
      rw [hnone] at h
      simp [nonempty] at h
    obtain ⟨s, hs, hname⟩ := List.any_eq_true.mp hany
    rw [← eq_of_beq hname]
    exact List.mem_map_of_mem hs
  · simp at h

/-! ## Dependencies -/

theorem mem_foldl_addName (names : List String) (list : List String) (name : String) :
    name ∈ names.foldl addName list ↔ name ∈ list ∨ name ∈ names := by
  induction names generalizing list with
  | nil => simp
  | cons head rest ih =>
      rw [List.foldl_cons, ih, addName]
      by_cases h : head ∈ list
      · rw [if_pos h]
        constructor
        · rintro (hmem | hmem)
          · exact .inl hmem
          · exact .inr (List.mem_cons_of_mem _ hmem)
        · rintro (hmem | hmem)
          · exact .inl hmem
          · rcases List.mem_cons.mp hmem with rfl | hmem
            · exact .inl h
            · exact .inr hmem
      · rw [if_neg h]
        rw [List.mem_append, List.mem_singleton, List.mem_cons, or_assoc]

/-- A step depends on names of the document only. -/
theorem readDependencies_subset (names : List String) (index : Nat) (s : Step) :
    ∀ d ∈ (readDependencies names index s).value, d ∈ names := by
  intro d hd
  simp only [readDependencies, mem_foldl_addName, List.not_mem_nil, false_or, List.mem_append,
    List.mem_filter, Bool.and_eq_true, decide_eq_true_eq] at hd
  rcases hd with hd | hd
  · exact hd.2
  · exact hd.2.2

/-- Numbering the items of a list loses none of them. -/
theorem map_zipIdx_fst {α β : Type} (f : α → β) (list : List α) :
    (list.zipIdx.map fun x => f x.1) = list.map f := by
  conv_rhs => rw [← List.zipIdx_map_fst 0 list, List.map_map]
  rfl

/-- The names of the steps are the keys of the graph. -/
theorem readGraph_names (steps : List Step) :
    ((steps.mapIdx fun i s => (s.name, readDependencies (steps.map Step.name) i s)).map
      fun p => (p.1, p.2.value)).map Prod.fst = steps.map Step.name := by
  rw [List.mapIdx_eq_zipIdx_map, List.map_map, List.map_map]
  exact map_zipIdx_fst Step.name steps

/-- The graph leads from names of steps to names of steps. -/
theorem readGraph_closed {steps : List Step} (nodup : (steps.map Step.name).Nodup) (name : String) :
    ∀ d ∈ namesBelow (readGraph steps).value name, d ∈ steps.map Step.name := by
  intro d hd
  rw [namesBelow] at hd
  cases hget : (readGraph steps).value.get? name with
  | none => simp [hget] at hd
  | some names =>
      rw [hget, Option.getD_some] at hd
      have hmem := Assoc.mem_of_get? hget
      rw [readGraph, Record.entries_ofList_of_nodup _ (by rw [readGraph_names]; exact nodup)]
        at hmem
      obtain ⟨⟨other, part⟩, hpart, heq⟩ := List.mem_map.mp hmem
      obtain ⟨i, hi, hstep⟩ := List.mem_mapIdx.mp hpart
      injection hstep with _ hdeps
      injection heq with _ hvalue
      subst hdeps hvalue
      exact readDependencies_subset _ i _ d hd

/-! ## Whole documents -/

/-- The parts of a document that was read: none has a problem, and the pipeline is made of them. -/
structure ReadFrom (root : List (String × Json)) (p : Pipeline) : Prop where
  metadata : (readMetadata (Assoc.get? "metadata" root)).errors = []
  metadata_eq : p.metadata = (readMetadata (Assoc.get? "metadata" root)).value
  parameters : (readParameters (Assoc.get? "parameters" root)).errors = []
  parameters_eq : p.parameters = (readParameters (Assoc.get? "parameters" root)).value
  steps : (readSteps (Assoc.get? "steps" root)).errors = []
  steps_eq : p.steps = (readSteps (Assoc.get? "steps" root)).value
  output : (readOutput p.steps (Assoc.get? "output" root)).errors = []
  output_eq : p.output = (readOutput p.steps (Assoc.get? "output" root)).value.1
  graph : (readGraph p.steps).errors = []
  graph_eq : p.dependencies = (readGraph p.steps).value
  order : topologicalOrder (p.steps.map Step.name) p.dependencies = .ok p.order

/-- What a pipeline is made of. -/
theorem read_parts {doc : Json} {p : Pipeline} (h : (read doc).pipeline = .ok p) :
    ∃ root, doc = .object root ∧ ReadFrom root p := by
  unfold read at h
  split at h
  · rename_i root
    dsimp only at h
    split at h
    · cases h
    split at h
    · cases h
    rename_i herrors hgraph
    simp only [Bool.not_eq_true', Bool.not_eq_false, List.isEmpty_iff,
      List.append_eq_nil_iff] at herrors hgraph
    obtain ⟨⟨⟨hmetadata, hparameters⟩, hsteps⟩, houtput⟩ := herrors
    split at h
    · cases h
    · rename_i order horder
      cases h
      exact ⟨root, rfl, hmetadata, rfl, hparameters, rfl, hsteps, rfl, houtput, rfl, hgraph, rfl,
        horder⟩
  · cases h

/-- Parts without problems make a pipeline. -/
theorem ReadFrom.read {root : List (String × Json)} {p : Pipeline} (h : ReadFrom root p) :
    (Document.read (.object root)).pipeline = .ok p := by
  rw [Document.read]
  dsimp only
  rw [h.metadata, h.parameters, h.steps, ← h.steps_eq, h.output, h.graph, ← h.graph_eq, h.order,
    ← h.metadata_eq, ← h.parameters_eq, ← h.output_eq]
  rfl

end Document

/-! ## Pipelines -/

namespace Pipeline

/-- What a run relies on. -/
structure WellFormed (p : Pipeline) : Prop where
  names_nodup : (p.steps.map Step.name).Nodup
  order_nodup : p.order.Nodup
  mem_order : ∀ name, name ∈ p.order ↔ name ∈ p.steps.map Step.name
  ordered : DependenciesFirst p.dependenciesOf p.order
  output_mem : p.output ∈ p.order

theorem read_of_ofJson {doc : Json} {p : Pipeline} (h : ofJson doc = .ok p) :
    (Document.read doc).pipeline = .ok p := by
  unfold ofJson at h
  split at h
  · rename_i hread
    cases h
    exact hread
  · cases h
  · cases h

/-- Reading a document leads to a well-formed pipeline or to a problem. -/
theorem WellFormed.of_read {doc : Json} {p : Pipeline} (h : (Document.read doc).pipeline = .ok p) :
    p.WellFormed := by
  obtain ⟨root, -, hfrom⟩ := Document.read_parts h
  obtain ⟨hnodup, hnonempty⟩ := Document.readSteps_sound hfrom.steps
  rw [← hfrom.steps_eq] at hnodup hnonempty
  have hclosed : ∀ name ∈ p.steps.map Step.name,
      ∀ d ∈ namesBelow p.dependencies name, d ∈ p.steps.map Step.name := by
    intro name _
    rw [hfrom.graph_eq]
    exact Document.readGraph_closed hnodup name
  obtain ⟨hunique, hmem, hordered⟩ := topologicalOrder_sound hclosed hfrom.order
  have houtput := Document.readOutput_sound hnonempty hfrom.output
  rw [← hfrom.output_eq] at houtput
  exact
    { names_nodup := hnodup
      order_nodup := hunique
      mem_order := hmem
      ordered := hordered
      output_mem := (hmem _).mpr houtput }

theorem WellFormed.of_ofJson {doc : Json} {p : Pipeline} (h : ofJson doc = .ok p) : p.WellFormed :=
  .of_read (read_of_ofJson h)

/-- The settings of the steps play no part. -/
theorem WellFormed.of_steps {p : Pipeline} (h : p.WellFormed) {steps : List Step}
    (names : steps.map Step.name = p.steps.map Step.name) :
    ({ p with steps } : Pipeline).WellFormed where
  names_nodup := names ▸ h.names_nodup
  order_nodup := h.order_nodup
  mem_order := fun name => by
    rw [h.mem_order, names]
  ordered := h.ordered
  output_mem := h.output_mem

theorem WellFormed.substitute {p : Pipeline} (h : p.WellFormed) (params : Parameters) :
    (p.substitute params).WellFormed :=
  h.of_steps (by simp [Function.comp_def])

/-- Dropping closed conditions keeps the names of the steps. -/
theorem resolveFilters_names {p q : Pipeline} {params : Parameters}
    (h : p.resolveFilters params = .ok q) :
    ∃ steps, q = { p with steps } ∧ steps.map Step.name = p.steps.map Step.name := by
  rw [resolveFilters] at h
  obtain ⟨steps, hsteps, h⟩ := bind_eq_ok h
  cases h
  refine ⟨steps, rfl, ?_⟩
  have hnames := map_of_mapM (fun x : Step × Nat => x.1.name) Step.name ?_ hsteps
  · rw [hnames]
    exact Document.map_zipIdx_fst Step.name p.steps
  · rintro ⟨s, i⟩ other hother
    obtain ⟨config, -, hother⟩ := bind_eq_ok hother
    cases hother
    rfl

theorem WellFormed.resolveFilters {p q : Pipeline} (h : p.WellFormed) {params : Parameters}
    (hq : p.resolveFilters params = .ok q) : q.WellFormed := by
  obtain ⟨steps, rfl, names⟩ := resolveFilters_names hq
  exact h.of_steps names

end Pipeline

end RowPipeline
