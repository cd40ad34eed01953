import RowPipeline.Proofs.Decoding
import RowPipeline.Proofs.DocumentChecks
import RowPipeline.Proofs.Engines
import RowPipeline.Proofs.Places
import RowPipeline.Proofs.StepEngines

/-!
# References between steps

The settings of a step refer to other steps at certain places. The dependencies of a step are read off
the document, before parameters are put in: every reference to a step that stands in the document is
among them, and so is every one in the resolved settings that no parameter put there. Where a name could
also be one of a table, a step it depends on goes first: no SQL is sent then.
-/

namespace RowPipeline

open Json

/-- The places where the settings of a step of some kind refer to steps. -/
inductive Reference : StepKind → List Move → Prop
  | dataSource : Reference .query [.field "data_source"]
  | join (index : Nat) : Reference .query [.field "joins", .item index, .field "table"]
  | source {kind : StepKind} : kind ∈ [.enrich, .pivot, .unpivot, .assert] →
      Reference kind [.field "source"]
  | lookup : Reference .enrich [.field "lookup"]
  | lookupStep : Reference .enrich [.field "lookup", .field "step"]
  | sources (index : Nat) : Reference .union [.field "sources", .item index]
  | assertion (index : Nat) :
      Reference .assert [.field "assertions", .item index, .field "reference"]

/-- Those of them where a table could be meant as well. -/
inductive TableReference : StepKind → List Move → Prop
  | dataSource : TableReference .query [.field "data_source"]
  | join (index : Nat) : TableReference .query [.field "joins", .item index, .field "table"]
  | lookup : TableReference .enrich [.field "lookup"]
  | lookupStep : TableReference .enrich [.field "lookup", .field "step"]

theorem Reference.plain {kind : StepKind} {places : List Move} (h : Reference kind places) :
    ∀ m ∈ places, m.Plain := by
  cases h <;> simp [Move.Plain, filterKeys, gateKey, expressionKey]

/-! ## In the document -/

namespace Document

theorem mem_filterMap_field {items : List Json} {index : Nat} {key name : String} {j : Json}
    (hitem : items[index]? = some j) (hfield : j.field? key = some (.string name)) :
    name ∈ items.filterMap fun j => (j.field? key).bind asString? := by
  refine List.mem_filterMap.mpr ⟨j, List.mem_of_getElem? hitem, ?_⟩
  rw [hfield]
  rfl

/-- The item that stands at a place of an array under a key. -/
theorem item_of_at? {j : Json} {key : String} {index : Nat} {rest : List Move} {inner : Json}
    (h : j.at? (.field key :: .item index :: rest) = some inner) :
    ∃ items item, j.field? key = some (.array items) ∧ items[index]? = some item ∧
      item.at? rest = some inner := by
  rw [at?] at h
  obtain ⟨array, harray, hinner⟩ := Option.bind_eq_some_iff.mp h
  rw [at?] at hinner
  obtain ⟨item, hitem, hrest⟩ := Option.bind_eq_some_iff.mp hinner
  cases array with
  | array items => exact ⟨items, item, harray, hitem, hrest⟩
  | _ => cases hitem

theorem field_of_at? {j inner : Json} {key : String} (h : j.at? [.field key] = some inner) :
    j.field? key = some inner := by
  rw [at?] at h
  obtain ⟨value, hvalue, h⟩ := Option.bind_eq_some_iff.mp h
  cases h
  exact hvalue

/-- A dependency is read off every place that refers to a step. -/
theorem readDependencies_references {names : List String} {index : Nat} {s : Step}
    (h : (readDependencies names index s).errors = []) {places : List Move}
    (reference : Reference s.kind places) {name : String}
    (hat : s.config.at? places = some (.string name)) (known : name ∈ names)
    (other : name ≠ s.name) : name ∈ (readDependencies names index s).value := by
  -- sources must be known; what the other places name counts if it is a step
  have hsoft : name ∈ softReferences s → name ∈ (readDependencies names index s).value := by
    intro hmem
    rw [readDependencies, mem_foldl_addName]
    refine .inr (List.mem_append_right _ (List.mem_filter.mpr ⟨hmem, ?_⟩))
    simp [other, known]
  generalize hkind : s.kind = kind at reference
  cases reference with
  | dataSource =>
      apply hsoft
      rw [softReferences, hkind]
      dsimp only
      refine List.mem_append_left _ ?_
      rw [field_of_at? hat]
      exact List.mem_singleton.mpr rfl
  | join index =>
      apply hsoft
      obtain ⟨items, item, hitems, hitem, hrest⟩ := item_of_at? hat
      rw [softReferences, hkind]
      dsimp only
      refine List.mem_append_right _ ?_
      rw [hitems]
      exact mem_filterMap_field hitem (field_of_at? hrest)
  | source _ => exact readDependencies_sources h (.inl (.inl (field_of_at? hat)))
  | lookup =>
      apply hsoft
      rw [softReferences, hkind]
      dsimp only
      refine List.mem_append_left _ ?_
      rw [field_of_at? hat]
      exact List.mem_singleton.mpr rfl
  | lookupStep =>
      apply hsoft
      rw [at?] at hat
      obtain ⟨lookup, hlookup, hrest⟩ := Option.bind_eq_some_iff.mp hat
      have hlookup : s.config.field? "lookup" = some lookup := hlookup
      rw [softReferences, hkind]
      dsimp only
      refine List.mem_append_right _ ?_
      rw [hlookup, Option.bind_some, field_of_at? hrest]
      exact List.mem_singleton.mpr rfl
  | sources index =>
      obtain ⟨items, item, hitems, hitem, hrest⟩ := item_of_at? hat
      obtain rfl := Option.some.inj hrest
      exact readDependencies_sources h (.inr (.inr ⟨items, hitems, List.mem_of_getElem? hitem⟩))
  | assertion index =>
      apply hsoft
      obtain ⟨items, item, hitems, hitem, hrest⟩ := item_of_at? hat
      rw [softReferences, hkind]
      dsimp only
      rw [hitems]
      exact mem_filterMap_field hitem (field_of_at? hrest)

end Document

/-! ## Carried out -/

namespace Query

/-- The data source and the joins of a query, as far as its settings are an object that has them. -/
theorem Config.ofJson_fields {fields : List (String × Json)} {config : Config}
    (h : Config.ofJson (.object fields) = .ok config) :
    (∀ j, Assoc.get? "data_source" fields = some j → decodeString j = .ok config.source) ∧
      ∀ j, Assoc.get? "joins" fields = some j →
        decodeArray JoinConfig.ofJson j = .ok config.joins := by
  rw [Config.ofJson] at h
  obtain ⟨s, hslots, h⟩ := bind_eq_ok h
  obtain ⟨source, hsource, h⟩ := bind_eq_ok h
  obtain ⟨dimensions, -, h⟩ := bind_eq_ok h
  obtain ⟨metrics, -, h⟩ := bind_eq_ok h
  obtain ⟨filters, -, h⟩ := bind_eq_ok h
  obtain ⟨whereFilter, -, h⟩ := bind_eq_ok h
  obtain ⟨joins, hjoins, h⟩ := bind_eq_ok h
  obtain ⟨groupBy, -, h⟩ := bind_eq_ok h
  obtain ⟨having, -, h⟩ := bind_eq_ok h
  obtain ⟨calculated, -, h⟩ := bind_eq_ok h
  obtain ⟨orderBy, -, h⟩ := bind_eq_ok h
  obtain ⟨limit, -, h⟩ := bind_eq_ok h
  obtain ⟨offset, -, h⟩ := bind_eq_ok h
  obtain ⟨distinct, -, h⟩ := bind_eq_ok h
  obtain ⟨expressionFailure, -, h⟩ := bind_eq_ok h
  cases h
  constructor
  · intro j hj
    have hget := objectSlots_get hslots (by decide) (by decide) hj
    rw [Slots.required_given hget] at hsource
    exact hsource
  · intro j hj
    have hget := objectSlots_get hslots (by decide) (by decide) hj
    rw [Slots.withDefault_given hget] at hjoins
    exact hjoins

theorem JoinConfig.ofJson_table {j : Json} {config : JoinConfig} (h : JoinConfig.ofJson j = .ok config)
    {name : String} (hname : j.field? "table" = some (.string name)) : config.table = name := by
  cases j with
  | object fields =>
      rw [JoinConfig.ofJson] at h
      obtain ⟨s, hslots, h⟩ := bind_eq_ok h
      obtain ⟨type, -, h⟩ := bind_eq_ok h
      obtain ⟨table, htable, h⟩ := bind_eq_ok h
      obtain ⟨tableAlias, -, h⟩ := bind_eq_ok h
      obtain ⟨on, -, h⟩ := bind_eq_ok h
      cases h
      have hget := objectSlots_get hslots (by decide) (by decide) hname
      rw [Slots.required_given hget] at htable
      cases htable
      rfl
  | _ => cases hname

theorem joinOfConfig_table {config : JoinConfig} {j : JoinClause} (h : joinOfConfig config = .ok j) :
    j.table = config.table := by
  rw [joinOfConfig] at h
  split at h
  all_goals
    obtain ⟨type, -, h⟩ := bind_eq_ok h
    obtain ⟨on, -, h⟩ := bind_eq_ok h
    dsimp only at h
    split at h
    · cases h
    · cases h
      rfl

theorem Plan.ofConfig_joins {c : Config} {plan : Plan} (h : Plan.ofConfig c = .ok plan)
    {config : JoinConfig} (hconfig : config ∈ c.joins) :
    ∃ j ∈ plan.joins, j.table = config.table := by
  rw [Plan.ofConfig] at h
  split at h
  · cases h
  obtain ⟨metrics, -, h⟩ := bind_eq_ok h
  obtain ⟨filters, -, h⟩ := bind_eq_ok h
  obtain ⟨whereFilter, -, h⟩ := bind_eq_ok h
  obtain ⟨joins, hjoins, h⟩ := bind_eq_ok h
  obtain ⟨having, -, h⟩ := bind_eq_ok h
  cases h
  obtain ⟨j, hj, hjoin⟩ := exists_of_mapM hjoins hconfig
  exact ⟨j, hj, joinOfConfig_table hjoin⟩

/-- A table is not joined with a step: the query fails before it asks for anything. -/
theorem runOnTable_upstreamJoin {p : Plan} {c : StepContext} {j : JoinClause} (hj : j ∈ p.joins)
    (upstream : j.table ∈ c.dependencies) (policy : ExpressionFailure) :
    ∃ f, (runOnTable p c policy).start = (.error f, []) := by
  have hfind : ∃ first, p.joins.find? (fun j => c.dependsOn j.table) = some first := by
    rw [← Option.isSome_iff_exists, List.find?_isSome]
    exact ⟨j, hj, by simpa [StepContext.dependsOn] using upstream⟩
  obtain ⟨first, hfirst⟩ := hfind
  unfold runOnTable
  rw [hfirst]
  exact ⟨_, rfl⟩

/-- The name of a reference in the settings is the source of the plan or in one of its joins. -/
theorem Plan.named {settings : Json} {config : Config} (hconfig : Config.ofJson settings = .ok config)
    {plan : Plan} (hplan : Plan.ofConfig config = .ok plan) {places : List Move}
    (reference : TableReference .query places) {name : String}
    (hat : settings.at? places = some (.string name)) :
    plan.source = name ∨ ∃ j ∈ plan.joins, j.table = name := by
  cases settings with
  | object fields =>
      obtain ⟨hsource, hjoins⟩ := Config.ofJson_fields hconfig
      cases reference with
      | dataSource =>
          left
          rw [Plan.ofConfig_source hplan]
          exact (Except.ok.inj (hsource _ (Document.field_of_at? hat))).symm
      | join index =>
          right
          obtain ⟨items, item, hitems, hitem, hrest⟩ := Document.item_of_at? hat
          obtain ⟨join, hjoin, hdecoded⟩ :=
            exists_of_mapM (hjoins _ hitems) (List.mem_of_getElem? hitem)
          have htable := JoinConfig.ofJson_table hdecoded (Document.field_of_at? hrest)
          obtain ⟨j, hj, hjtable⟩ := Plan.ofConfig_joins hplan hjoin
          exact ⟨j, hj, hjtable.trans htable⟩
  | _ => cases reference <;> cases hat

/-- A query that refers to a step it depends on sends no SQL. -/
theorem run_sends_nothing {c : StepContext} {places : List Move}
    (reference : TableReference .query places) {name : String}
    (hat : c.config.at? places = some (.string name)) (upstream : name ∈ c.dependencies) :
    (Query.run c).start.2 = [] := by
  rw [run_start]
  cases hread : c.readConfig Config.ofJson with
  | error f => rfl
  | ok config =>
      dsimp only
      cases hplan : Plan.ofConfig config with
      | error f => rfl
      | ok plan =>
          dsimp only
          split
          · rfl
          · rename_i table
            rcases Plan.named (StepContext.readConfig_eq_ok.mp hread) hplan reference hat with
              rfl | ⟨j, hj, rfl⟩
            · exact absurd (by simpa [StepContext.dependsOn] using upstream) table
            · obtain ⟨f, hfailed⟩ := runOnTable_upstreamJoin hj upstream
                (config.expressionFailure.getD c.expressionFailure)
              rw [hfailed]

end Query

namespace Enrich

/-- A lookup that names a step is one in a step. -/
theorem Config.ofJson_lookup {fields : List (String × Json)} {config : Config}
    (h : Config.ofJson (.object fields) = .ok config) {j : Json}
    (hj : Assoc.get? "lookup" fields = some j) : decodeLookup j = .ok config.lookup := by
  rw [Config.ofJson] at h
  obtain ⟨s, hslots, h⟩ := bind_eq_ok h
  obtain ⟨source, -, h⟩ := bind_eq_ok h
  obtain ⟨lookup, hlookup, h⟩ := bind_eq_ok h
  obtain ⟨on, -, h⟩ := bind_eq_ok h
  obtain ⟨how, -, h⟩ := bind_eq_ok h
  obtain ⟨lookupFields, -, h⟩ := bind_eq_ok h
  obtain ⟨onMissing, -, h⟩ := bind_eq_ok h
  obtain ⟨fillValue, -, h⟩ := bind_eq_ok h
  cases h
  have hget := objectSlots_get hslots (by decide) (by decide) hj
  rw [Slots.required_given hget] at hlookup
  exact hlookup

theorem decodeLookup_step {fields : List (String × Json)} {lookup : Lookup}
    (h : decodeLookup (.object fields) = .ok lookup) {name : String}
    (hname : Assoc.get? "step" fields = some (.string name)) : lookup = .step name := by
  rw [decodeLookup] at h
  obtain ⟨s, hslots, h⟩ := bind_eq_ok h
  have hget := objectSlots_get hslots (by decide) (by decide) hname
  obtain ⟨step, hstep, h⟩ := bind_eq_ok h
  rw [Slots.optional, hget] at hstep
  obtain ⟨table, -, h⟩ := bind_eq_ok h
  obtain ⟨columns, -, h⟩ := bind_eq_ok h
  obtain ⟨filter, -, h⟩ := bind_eq_ok h
  cases hstep
  cases h
  rfl

/-- A lookup in a step sends no SQL. -/
theorem run_step_lookup {c : StepContext} (hlookup : ∀ config, Config.ofJson c.config = .ok config →
    ∃ name, config.lookup = .step name) : (Enrich.run c).start.2 = [] := by
  unfold Enrich.run
  rw [Sending.start_lift]
  cases hread : c.readConfig Config.ofJson with
  | error f => rfl
  | ok config =>
      obtain ⟨name, hname⟩ := hlookup config (StepContext.readConfig_eq_ok.mp hread)
      have hrows : (lookupRows config.lookup c).Silent := by
        rw [hname]
        exact .bind (.lift _) fun _ => .pure _
      refine Sending.Silent.start (.bind (.lift _) fun source => .bind hrows fun found => ?_)
      exact .bind (.lift _) fun _ => .pure _

/-- The name of a reference in the settings is that of the step to look up. -/
theorem Config.lookup_named {settings : Json} {config : Config}
    (hconfig : Config.ofJson settings = .ok config) {places : List Move}
    (reference : TableReference .enrich places) {name : String}
    (hat : settings.at? places = some (.string name)) : config.lookup = .step name := by
  cases settings with
  | object fields =>
      cases reference with
      | lookup =>
          exact (Except.ok.inj (Config.ofJson_lookup hconfig (Document.field_of_at? hat))).symm
      | lookupStep =>
          rw [at?] at hat
          obtain ⟨lookup, hfield, hrest⟩ := Option.bind_eq_some_iff.mp hat
          have hlookup := Config.ofJson_lookup hconfig hfield
          cases lookup with
          | object inner => exact decodeLookup_step hlookup (Document.field_of_at? hrest)
          | _ => cases hrest
  | _ => cases reference <;> cases hat

/-- An enrich step that looks up a step sends no SQL. -/
theorem run_sends_nothing {c : StepContext} {places : List Move}
    (reference : TableReference .enrich places) {name : String}
    (hat : c.config.at? places = some (.string name)) : (Enrich.run c).start.2 = [] :=
  run_step_lookup fun _ hconfig => ⟨name, Config.lookup_named hconfig reference hat⟩

end Enrich

/-- Carried out in its context, a step that refers to a step it depends on where a table could be meant
sends no SQL. -/
theorem Run.standard_sends_nothing {w : Workshop} (standard : w.registry = .standard)
    (settings : RunSettings) {p : Pipeline} (params : Parameters) (outputs : Record StepOutput)
    {s : Step} {places : List Move} (reference : TableReference s.kind places) {name : String}
    (hat : s.config.at? places = some (.string name)) (upstream : name ∈ p.dependenciesOf s.name) :
    (w.registry.run (contextOf w settings p params outputs s)).start.2 = [] := by
  have hkind : (contextOf w settings p params outputs s).kind = s.kind := rfl
  rw [standard, StepRegistry.run, hkind]
  generalize s.kind = kind at reference
  have hquery : TableReference .query places →
      (Query.run (contextOf w settings p params outputs s)).start.2 = [] :=
    fun reference => Query.run_sends_nothing reference hat upstream
  have henrich : TableReference .enrich places →
      (Enrich.run (contextOf w settings p params outputs s)).start.2 = [] :=
    fun reference => Enrich.run_sends_nothing reference hat
  cases kind with
  | query => exact hquery reference
  | enrich => exact henrich reference
  | pivot => cases reference
  | unpivot => cases reference
  | union => cases reference
  | assert => cases reference

/-! ## Resolved -/

/-- A step of a resolved pipeline is one of the document whose settings were rewritten. -/
theorem Engine.resolve_steps {document : Json} {params params' : Parameters} {p q : Pipeline}
    (hread : Pipeline.ofJson document = .ok p)
    (hresolve : resolve document params = .ok (q, params')) :
    q.dependencies = p.dependencies ∧ q.steps.map Step.name = p.steps.map Step.name ∧
      ∀ s ∈ q.steps, ∃ written ∈ p.steps, written.name = s.name ∧ written.kind = s.kind ∧
        ∃ path config, resolveFilters params' path written.config = .ok config ∧
          s.config = substituteValue params' config := by
  obtain ⟨read, filtered, hsame, hfilters, rfl⟩ := resolve_eq_ok hresolve
  cases hread.symm.trans hsame
  obtain ⟨steps, rfl, hnames⟩ := Pipeline.resolveFilters_names hfilters
  refine ⟨rfl, ?_, ?_⟩
  · rw [← hnames]
    simp [Pipeline.substitute]
  · intro s hs
    obtain ⟨kept, hkept, rfl⟩ := List.mem_map.mp hs
    rw [Pipeline.resolveFilters] at hfilters
    obtain ⟨list, hlist, hfilters⟩ := bind_eq_ok hfilters
    cases hfilters
    obtain ⟨⟨written, i⟩, hwritten, hconfig⟩ := mem_of_mapM hlist hkept
    obtain ⟨config, hrewritten, hconfig⟩ := bind_eq_ok hconfig
    cases hconfig
    exact ⟨written, (List.mem_zipIdx' hwritten).2 ▸ List.getElem_mem _, rfl, rfl, _, config,
      hrewritten, rfl⟩

/-- Dependencies stay complete for what the document says. In a resolved pipeline, every step that the
settings of another refer to is among the dependencies of that other step, unless it got there through a
parameter: the document has, at the place of the reference or around it, a string that mentions a
parameter with a value. And a reference among the dependencies is not taken for a table: the step
sends no SQL. -/
theorem written_references_are_dependencies {document : Json} {params params' : Parameters}
    {p q : Pipeline} (hread : Pipeline.ofJson document = .ok p)
    (hresolve : Engine.resolve document params = .ok (q, params')) :
    ∀ s ∈ q.steps, ∃ written ∈ p.steps, written.name = s.name ∧ written.kind = s.kind ∧
      ∀ places name, s.config.at? places = some (.string name) →
        (Reference s.kind places → name ∈ q.steps.map Step.name → name ≠ s.name →
          name ∈ q.dependenciesOf s.name ∨
            ∃ front rest text, places = front ++ rest ∧
              written.config.at? front = some (.string text) ∧ Mentions params' text) ∧
        (TableReference s.kind places → name ∈ q.dependenciesOf s.name →
          ∀ w : Workshop, w.registry = .standard → ∀ settings outputs,
            (w.registry.run (Run.contextOf w settings q params' outputs s)).start.2 = []) := by
  obtain ⟨hdependencies, hnames, hsteps⟩ := Engine.resolve_steps hread hresolve
  intro s hs
  obtain ⟨written, hwritten, hname, hkind, path, config, hfilters, hconfig⟩ := hsteps s hs
  refine ⟨written, hwritten, hname, hkind, ?_⟩
  intro places name hat
  constructor
  · intro reference known other
    rw [hconfig] at hat
    rcases at?_substituteValue reference.plain hat with
      hkept | ⟨front, rest, text, hplaces, hfront, hmentions⟩
    · left
      have hraw := (Resolves.at?_iff reference.plain ⟨_, hfilters⟩).mp hkept
      obtain ⟨i, hvalue, herrors⟩ :=
        Pipeline.dependenciesOf_read (Pipeline.read_of_ofJson hread) hwritten
      rw [hnames] at known
      rw [← hname] at other ⊢
      rw [Pipeline.dependenciesOf, hdependencies]
      change name ∈ p.dependenciesOf written.name
      rw [hvalue]
      exact Document.readDependencies_references herrors (hkind ▸ reference) hraw known other
    · right
      have hplain : ∀ m ∈ front, m.Plain := fun m hm =>
        reference.plain m (hplaces ▸ List.mem_append_left _ hm)
      exact ⟨front, rest, text, hplaces, (Resolves.at?_iff hplain ⟨_, hfilters⟩).mp hfront, hmentions⟩
  · intro reference upstream w standard settings outputs
    exact Run.standard_sends_nothing standard settings params' outputs reference hat upstream

/-- A query whose source is a step, by name or through a parameter. -/
def sourceDocument (source : String) : Json :=
  .object [("parameters", .array [.object [("name", .string "src")]]),
    ("steps", .array [
      .object [("name", .string "base"), ("type", .string "query"),
        ("config", .object [("data_source", .string "orders")])],
      .object [("name", .string "out"), ("type", .string "query"),
        ("config", .object [("data_source", .string source)])]])]

def sourceParameters : Parameters := Record.ofList [("src", .string "base")]

/-- The step in which the source is named. -/
def sourceStep : Step := ⟨"out", .query, .object [("data_source", .string "base")], true⟩

theorem written_references_are_dependencies_by_name :
    ∃ p q params', Pipeline.ofJson (sourceDocument "base") = .ok p ∧
      Engine.resolve (sourceDocument "base") sourceParameters = .ok (q, params') ∧
      sourceStep ∈ q.steps ∧ "base" ∈ q.dependenciesOf "out" ∧
      ∀ w : Workshop, w.registry = .standard → ∀ settings outputs,
        (w.registry.run (Run.contextOf w settings q params' outputs sourceStep)).start.2 = [] := by
  have hread : ∃ p q params', Pipeline.ofJson (sourceDocument "base") = .ok p ∧
      Engine.resolve (sourceDocument "base") sourceParameters = .ok (q, params') ∧
      q.steps.map Step.name = ["base", "out"] ∧ sourceStep ∈ q.steps ∧
      "base" ∈ q.dependenciesOf "out" :=
    ⟨_, _, _, rfl, rfl, rfl, List.mem_cons_of_mem _ List.mem_cons_self, List.mem_cons_self⟩
  obtain ⟨p, q, params', hp, hq, hnames, hstep, hdepends⟩ := hread
  obtain ⟨written, -, -, -, hplaces⟩ := written_references_are_dependencies hp hq _ hstep
  obtain ⟨-, hsilent⟩ := hplaces [.field "data_source"] "base" rfl
  exact ⟨p, q, params', hp, hq, hstep, hdepends, hsilent .dataSource hdepends⟩

/-- A parameter can put the name of a step where no dependency was read off. The name is then taken for
a table. -/
theorem parameter_reference_no_dependency :
    ∃ q params', Engine.resolve (sourceDocument "$src") sourceParameters = .ok (q, params') ∧
      sourceStep ∈ q.steps ∧ "base" ∈ q.steps.map Step.name ∧ "base" ≠ sourceStep.name ∧
      sourceStep.config.at? [.field "data_source"] = some (.string "base") ∧
      q.dependenciesOf sourceStep.name = [] ∧
      let w : Workshop := ⟨.standard, some ⟨.generic, fun _ => .ok []⟩, {}⟩
      (w.registry.run (Run.contextOf w ⟨false, .failFast, none⟩ q params' {} sourceStep)).start.2 =
        ["SELECT *\nFROM base"] :=
  ⟨_, _, rfl, List.mem_cons_of_mem _ List.mem_cons_self, List.mem_cons_self, by decide, rfl, rfl, rfl⟩

end RowPipeline
