import RowPipeline.Proofs.References

/-!
# Inputs of steps

The engine of a step asks for the rows of the steps that the settings name at certain places, and fails
without them. The dependencies that are read off a document are those steps and some more: a source in
the settings of a query, or the reference of an assertion that is not about a relationship, counts as a
dependency of the step, but its engine does not look there.
-/

namespace RowPipeline

open Json Document

/-- The settings of a step of some kind name another step where the engine asks for its rows, or in a
form that the engine refuses. -/
inductive StepKind.Asks (config : Json) (name : String) : StepKind → Prop
  | dataSource : config.at? [.field "data_source"] = some (.string name) → Asks config name .query
  | join (index : Nat) :
      config.at? [.field "joins", .item index, .field "table"] = some (.string name) →
      Asks config name .query
  | source {kind : StepKind} : kind ∈ [.enrich, .pivot, .unpivot, .assert] →
      NamedUnder config "source" name → Asks config name kind
  | lookup : config.at? [.field "lookup"] = some (.string name) → Asks config name .enrich
  | lookupStep : config.at? [.field "lookup", .field "step"] = some (.string name) →
      Asks config name .enrich
  | sources : NamedUnder config "sources" name → Asks config name .union
  | relationship (index : Nat) :
      config.at? [.field "assertions", .item index, .field "reference"] = some (.string name) →
      config.at? [.field "assertions", .item index, .field "check"] =
        some (.string "relationship") → Asks config name .assert

/-- The settings of a step name another where it counts as a dependency, but where the engine does not
look: a source of a kind that has none, sources outside a union, or the reference of an assertion that
does not say that it is about a relationship. -/
inductive StepKind.Overlooks (config : Json) (name : String) : StepKind → Prop
  | source {kind : StepKind} : kind ∈ [.query, .union] → NamedUnder config "source" name →
      Overlooks config name kind
  | sources {kind : StepKind} : kind ≠ .union → NamedUnder config "sources" name →
      Overlooks config name kind
  | assertion (index : Nat) :
      config.at? [.field "assertions", .item index, .field "reference"] = some (.string name) →
      config.at? [.field "assertions", .item index, .field "check"] ≠
        some (.string "relationship") → Overlooks config name .assert

/-- The places at which a name stands under a key. -/
theorem Document.namedUnder_iff {config : Json} {key name : String} :
    NamedUnder config key name ↔ config.at? [.field key] = some (.string name) ∨
      ∃ index, config.at? [.field key, .item index] = some (.string name) := by
  constructor
  · rintro (hfield | ⟨items, hfield, hmem⟩)
    · exact .inl (at?_field hfield)
    · obtain ⟨index, hitem⟩ := List.mem_iff_getElem?.mp hmem
      exact .inr ⟨index, (at?_field hfield).trans (at?_item hitem)⟩
  · rintro (hat | ⟨index, hat⟩)
    · exact .inl (field_of_at? hat)
    · obtain ⟨items, item, hitems, hitem, hrest⟩ := item_of_at? hat
      cases hrest
      exact .inr ⟨items, hitems, List.mem_of_getElem? hitem⟩

/-- Where the strings that tell it stay at their places, a step asks for what it asked for. -/
theorem StepKind.Asks.of_places {config config' : Json} {name : String}
    (keep : ∀ places : List Move, (∀ m ∈ places, m.Plain) → ∀ text ∈ [name, "relationship"],
      config.at? places = some (.string text) → config'.at? places = some (.string text))
    {kind : StepKind} (h : kind.Asks config name) : kind.Asks config' name := by
  have hname : ∀ places : List Move, (∀ m ∈ places, m.Plain) →
      config.at? places = some (.string name) → config'.at? places = some (.string name) :=
    fun places plain => keep places plain name List.mem_cons_self
  have hnamed : ∀ key, (Move.field key).Plain → NamedUnder config key name →
      NamedUnder config' key name := by
    intro key plain named
    rw [namedUnder_iff] at named ⊢
    rcases named with hat | ⟨index, hat⟩
    · exact .inl (hname _ (by simpa using plain) hat)
    · exact .inr ⟨index, hname _ (by simpa [Move.Plain] using plain) hat⟩
  cases h with
  | dataSource hat => exact .dataSource (hname _ Reference.dataSource.plain hat)
  | join index hat => exact .join index (hname _ (Reference.join index).plain hat)
  | source hkind named => exact .source hkind (hnamed _ ⟨by decide, by decide, by decide⟩ named)
  | lookup hat => exact .lookup (hname _ Reference.lookup.plain hat)
  | lookupStep hat => exact .lookupStep (hname _ Reference.lookupStep.plain hat)
  | sources named => exact .sources (hnamed _ ⟨by decide, by decide, by decide⟩ named)
  | relationship index hreference hcheck =>
      refine .relationship index (hname _ (Reference.assertion index).plain hreference) ?_
      refine keep _ ?_ _ (by simp) hcheck
      simp [Move.Plain, filterKeys, gateKey, expressionKey]

/-! ## Dependencies -/

namespace Document

/-- A text is read at a place that holds it. -/
theorem text_of_mem {found : Option Json} {name : String}
    (h : name ∈ (found.bind asString?).toList) : found = some (.string name) := by
  obtain ⟨j, rfl, hj⟩ := Option.bind_eq_some_iff.mp (Option.mem_toList.mp h)
  cases j <;> cases hj
  rfl

/-- The texts that the items of an array hold under a key stand at places. -/
theorem at?_of_mem_items {j : Json} {key inner name : String}
    (h : name ∈ (((j.field? key).bind asArray?).getD []).filterMap fun item =>
      (item.field? inner).bind asString?) :
    ∃ index, j.at? [.field key, .item index, .field inner] = some (.string name) := by
  obtain ⟨item, hitem, hname⟩ := List.mem_filterMap.mp h
  obtain ⟨index, hindex⟩ := List.mem_iff_getElem?.mp hitem
  have hfield : item.field? inner = some (.string name) :=
    text_of_mem (Option.mem_toList.mpr hname)
  cases hread : j.field? key with
  | none => simp [hread] at hitem
  | some items =>
      cases items with
      | array items =>
          rw [hread] at hindex
          exact ⟨index, (at?_field hread).trans ((at?_item hindex).trans (at?_field hfield))⟩
      | _ => simp [hread, asArray?] at hitem

/-- A step asks for the rows of what it may refer to, or overlooks it. -/
theorem softReferences_asked {s : Step} {name : String} (h : name ∈ softReferences s) :
    s.kind.Asks s.config name ∨ s.kind.Overlooks s.config name := by
  rw [softReferences] at h
  generalize s.kind = kind at h
  cases kind with
  | query =>
      rcases List.mem_append.mp h with h | h
      · exact .inl (.dataSource (at?_field (text_of_mem h)))
      · obtain ⟨index, hat⟩ := at?_of_mem_items h
        exact .inl (.join index hat)
  | enrich =>
      rcases List.mem_append.mp h with h | h
      · exact .inl (.lookup (at?_field (text_of_mem h)))
      · obtain ⟨lookup, hlookup, hname⟩ := Option.bind_eq_some_iff.mp (Option.mem_toList.mp h)
        have hstep := text_of_mem (Option.mem_toList.mpr hname)
        exact .inl (.lookupStep ((at?_field hlookup).trans (at?_field hstep)))
  | assert =>
      obtain ⟨index, hat⟩ := at?_of_mem_items h
      by_cases hcheck : s.config.at? [.field "assertions", .item index, .field "check"] =
          some (.string "relationship")
      · exact .inl (.relationship index hat hcheck)
      · exact .inr (.assertion index hat hcheck)
  | pivot => cases h
  | unpivot => cases h
  | union => cases h

/-- A step asks for the rows of a dependency that was read off its settings, or overlooks it. -/
theorem readDependencies_asked {names : List String} {index : Nat} {s : Step} {name : String}
    (h : name ∈ (readDependencies names index s).value) :
    s.kind.Asks s.config name ∨ s.kind.Overlooks s.config name := by
  rw [readDependencies, mem_foldl_addName, List.mem_append, List.map_append] at h
  rcases h with h | h | h
  · cases h
  · rcases List.mem_append.mp (List.mem_of_mem_filter h) with h | h
    · have named := mem_sourceNames.mp h
      by_cases hkind : s.kind ∈ [.query, .union]
      · exact .inr (.source hkind named)
      · refine .inl (.source ?_ named)
        revert hkind
        cases s.kind <;> simp
    · have named := mem_sourcesNames.mp h
      by_cases hkind : s.kind = .union
      · rw [hkind]
        exact .inl (.sources named)
      · exact .inr (.sources hkind named)
  · exact softReferences_asked (List.mem_of_mem_filter h)

end Document

/-! ## Rows at hand -/

/-- A step has the rows of another. -/
def StepContext.Has (c : StepContext) (name : String) : Prop := (c.inputs.get? name).isSome = true

/-- A step has the rows of all steps it depends on and asks for. -/
def StepContext.Supplied (c : StepContext) : Prop :=
  ∀ name ∈ c.dependencies, c.kind.Asks c.config name → c.Has name

theorem StepContext.input_has {c : StepContext} {name : String} {rows : List Row}
    (h : c.input name = .ok rows) : c.Has name := by
  rw [input] at h
  rw [Has]
  cases hget : c.inputs.get? name with
  | none =>
      rw [hget] at h
      cases h
  | some rows => rfl

/-! ## Settings with a source -/

/-- A name under a key that is read as a text is that text. -/
theorem required_named {j : Json} {layout : List (List String)} {s : Slots}
    (hslots : slots layout j = .ok s) {key : String} (listed : [key] ∈ layout)
    (alone : ∀ names ∈ layout, names.headD "" = key → names = [key]) {text name : String}
    (h : s.required key decodeString = .ok text) (named : NamedUnder j key name) : text = name := by
  rcases named with hfield | ⟨items, hfield, -⟩
  · rw [Slots.required_given (slots_main hslots listed alone hfield)] at h
    exact (Except.ok.inj h).symm
  · rw [Slots.required_given (slots_main hslots listed alone hfield)] at h
    cases h

section

variable {j : Json} {name : String} (named : NamedUnder j "source" name)

include named

theorem Enrich.Config.source_named {config : Enrich.Config} (h : Config.ofJson j = .ok config) :
    config.source = name := by
  rw [Config.ofJson] at h
  obtain ⟨s, hslots, h⟩ := bind_eq_ok h
  obtain ⟨source, hsource, h⟩ := bind_eq_ok h
  obtain ⟨lookup, -, h⟩ := bind_eq_ok h
  obtain ⟨on, -, h⟩ := bind_eq_ok h
  obtain ⟨how, -, h⟩ := bind_eq_ok h
  obtain ⟨lookupFields, -, h⟩ := bind_eq_ok h
  obtain ⟨onMissing, -, h⟩ := bind_eq_ok h
  obtain ⟨fillValue, -, h⟩ := bind_eq_ok h
  cases h
  exact required_named hslots (by decide) (by decide) hsource named

theorem Pivot.Config.source_named {config : Pivot.Config} (h : Config.ofJson j = .ok config) :
    config.source = name := by
  rw [Config.ofJson] at h
  obtain ⟨s, hslots, h⟩ := bind_eq_ok h
  obtain ⟨source, hsource, h⟩ := bind_eq_ok h
  obtain ⟨index, -, h⟩ := bind_eq_ok h
  obtain ⟨columns, -, h⟩ := bind_eq_ok h
  obtain ⟨values, -, h⟩ := bind_eq_ok h
  obtain ⟨functions, -, h⟩ := bind_eq_ok h
  obtain ⟨before, -, h⟩ := bind_eq_ok h
  obtain ⟨after, -, h⟩ := bind_eq_ok h
  obtain ⟨fillValue, -, h⟩ := bind_eq_ok h
  cases h
  exact required_named hslots (by decide) (by decide) hsource named

theorem Unpivot.Config.source_named {config : Unpivot.Config} (h : Config.ofJson j = .ok config) :
    config.source = name := by
  rw [Config.ofJson] at h
  obtain ⟨s, hslots, h⟩ := bind_eq_ok h
  obtain ⟨source, hsource, h⟩ := bind_eq_ok h
  obtain ⟨idColumns, -, h⟩ := bind_eq_ok h
  obtain ⟨valueColumns, -, h⟩ := bind_eq_ok h
  obtain ⟨nameColumn, -, h⟩ := bind_eq_ok h
  obtain ⟨valueColumn, -, h⟩ := bind_eq_ok h
  obtain ⟨dropNulls, -, h⟩ := bind_eq_ok h
  cases h
  exact required_named hslots (by decide) (by decide) hsource named

end

/-- The names in the sources of a union are among those it combines. -/
theorem Union.Config.sources_named {j : Json} {name : String} (named : NamedUnder j "sources" name)
    {config : Union.Config} (h : Config.ofJson j = .ok config) : name ∈ config.sources := by
  rw [Config.ofJson] at h
  obtain ⟨s, hslots, h⟩ := bind_eq_ok h
  obtain ⟨sources, hsources, h⟩ := bind_eq_ok h
  obtain ⟨mode, -, h⟩ := bind_eq_ok h
  cases h
  have hread : ∀ v, j.field? "sources" = some v → decodeArray decodeString v = .ok sources := by
    intro v hv
    have hget : s.get "sources" = .given v :=
      slots_main hslots (show ["sources"] ∈ _ by decide) (by decide) hv
    rwa [Slots.required_given hget] at hsources
  rcases named with hfield | ⟨items, hfield, hmem⟩
  · cases hread _ hfield
  · obtain ⟨text, htext, hname⟩ := exists_of_mapM (hread _ hfield) hmem
    exact Except.ok.inj hname ▸ htext

namespace Assert

theorem Config.ofJson_fields {j : Json} {config : Config} (h : Config.ofJson j = .ok config) :
    (∀ name, NamedUnder j "source" name → config.source = name) ∧
      ∀ items, j.field? "assertions" = some items →
        decodeArray Assertion.ofJson items = .ok config.assertions := by
  rw [Config.ofJson] at h
  obtain ⟨s, hslots, h⟩ := bind_eq_ok h
  obtain ⟨source, hsource, h⟩ := bind_eq_ok h
  obtain ⟨assertions, hassertions, h⟩ := bind_eq_ok h
  obtain ⟨onFailure, -, h⟩ := bind_eq_ok h
  cases h
  refine ⟨fun name named => required_named hslots (by decide) (by decide) hsource named, ?_⟩
  intro items hitems
  have hget : s.get "assertions" = .given items :=
    slots_main hslots (show ["assertions"] ∈ _ by decide) (by decide) hitems
  rwa [Slots.required_given hget] at hassertions

theorem decodeRelationship_reference {fields : List (String × Json)} {check : Check}
    (h : decodeRelationship fields = .ok check) {name : String}
    (hname : Assoc.get? "reference" fields = some (.string name)) :
    ∃ field target, check = .relationship field name target := by
  rw [decodeRelationship] at h
  obtain ⟨s, hslots, h⟩ := bind_eq_ok h
  obtain ⟨field, -, h⟩ := bind_eq_ok h
  obtain ⟨reference, hreference, h⟩ := bind_eq_ok h
  obtain ⟨target, -, h⟩ := bind_eq_ok h
  cases h
  rw [Slots.required_given (objectSlots_get hslots (by decide) (by decide) hname)] at hreference
  cases hreference
  exact ⟨field, target, rfl⟩

/-- An assertion about a relationship has the name that it refers to. -/
theorem Assertion.ofJson_reference {j : Json} {a : Assertion} (h : Assertion.ofJson j = .ok a)
    {name : String} (hname : j.field? "reference" = some (.string name))
    (hcheck : j.field? "check" = some (.string "relationship")) :
    ∃ field target, a.check = .relationship field name target := by
  cases j with
  | object fields =>
      rw [Assertion.ofJson] at h
      obtain ⟨s, hslots, h⟩ := bind_eq_ok h
      obtain ⟨label, -, h⟩ := bind_eq_ok h
      obtain ⟨onFailure, -, h⟩ := bind_eq_ok h
      obtain ⟨read, hread, h⟩ := bind_eq_ok h
      obtain ⟨check, hdecoded, h⟩ := bind_eq_ok h
      cases h
      rw [Slots.required_given (objectSlots_get hslots (by decide) (by decide) hcheck)] at hread
      have hrelationship : decodeTag checks (.string "relationship") = .ok decodeRelationship := rfl
      cases hrelationship.symm.trans hread
      exact decodeRelationship_reference hdecoded hname
  | _ => cases hname

end Assert

/-! ## Engines -/

namespace Query

/-- A join reads the rows of every step it names. -/
theorem joinAll_has {p : Plan} {c : StepContext} {joins : List JoinClause} {rows joined : List Row}
    (h : joinAll p c joins rows = .ok joined) : ∀ j ∈ joins, c.Has j.table := by
  induction joins generalizing rows with
  | nil => exact fun _ hj => absurd hj List.not_mem_nil
  | cons j rest ih =>
      rw [joinAll] at h
      split at h
      · cases h
      · obtain ⟨right, hright, h⟩ := bind_eq_ok h
        obtain ⟨next, -, h⟩ := bind_eq_ok h
        exact List.forall_mem_cons.mpr ⟨StepContext.input_has hright, ih h⟩

theorem runInMemory_has {p : Plan} {c : StepContext} {policy : ExpressionFailure} {output : StepOutput}
    (h : runInMemory p c policy = .ok output) : c.Has p.source ∧ ∀ j ∈ p.joins, c.Has j.table := by
  rw [runInMemory] at h
  obtain ⟨source, hsource, h⟩ := bind_eq_ok h
  obtain ⟨joined, hjoined, h⟩ := bind_eq_ok h
  exact ⟨StepContext.input_has hsource, joinAll_has hjoined⟩

/-- A query reads the steps it depends on that its settings refer to. -/
theorem run_has {c : StepContext} {output : StepOutput} (h : (Query.run c).start.1 = .ok output)
    {places : List Move} (reference : TableReference .query places) {name : String}
    (hat : c.config.at? places = some (.string name)) (upstream : name ∈ c.dependencies) :
    c.Has name := by
  rw [run_start] at h
  cases hread : c.readConfig Config.ofJson with
  | error f =>
      rw [hread] at h
      cases h
  | ok config =>
      rw [hread] at h
      dsimp only at h
      cases hplan : Plan.ofConfig config with
      | error f =>
          rw [hplan] at h
          cases h
      | ok plan =>
          rw [hplan] at h
          have hnamed := Plan.named (StepContext.readConfig_eq_ok.mp hread) hplan reference hat
          dsimp only at h
          split at h
          · obtain ⟨hsource, hjoins⟩ := runInMemory_has h
            rcases hnamed with rfl | ⟨j, hj, rfl⟩
            · exact hsource
            · exact hjoins j hj
          · rename_i table
            rcases hnamed with rfl | ⟨j, hj, rfl⟩
            · exact absurd (decide_eq_true upstream) table
            · obtain ⟨f, hfailed⟩ := runOnTable_upstreamJoin hj upstream
                (config.expressionFailure.getD c.expressionFailure)
              rw [hfailed] at h
              cases h

end Query

section

variable {c : StepContext} {output : StepOutput}

theorem Enrich.run_has (h : (Enrich.run c).start.1 = .ok output) :
    ∃ config, Enrich.Config.ofJson c.config = .ok config ∧ c.Has config.source ∧
      ∀ name, config.lookup = .step name → c.Has name := by
  have hrun := Sending.Succeeds.of_start h
  unfold Enrich.run at hrun
  obtain ⟨config, hconfig, hrun⟩ := hrun.bind_lift
  obtain ⟨source, hsource, hrun⟩ := hrun.bind_lift
  refine ⟨config, StepContext.readConfig_eq_ok.mp hconfig, StepContext.input_has hsource, ?_⟩
  intro name hname
  have hlookup := hrun.bind.1
  rw [hname] at hlookup
  obtain ⟨rows, hrows, -⟩ := Sending.Succeeds.bind_lift hlookup
  exact StepContext.input_has hrows

theorem Pivot.run_has (h : (Pivot.run c).start.1 = .ok output) :
    ∃ config, Pivot.Config.ofJson c.config = .ok config ∧ c.Has config.source := by
  have hrun := Sending.Succeeds.of_start h
  unfold Pivot.run at hrun
  obtain ⟨config, hconfig, hrun⟩ := hrun.bind_lift
  obtain ⟨source, hsource, -⟩ := hrun.bind_lift
  exact ⟨config, StepContext.readConfig_eq_ok.mp hconfig, StepContext.input_has hsource⟩

theorem Unpivot.run_has (h : (Unpivot.run c).start.1 = .ok output) :
    ∃ config, Unpivot.Config.ofJson c.config = .ok config ∧ c.Has config.source := by
  have hrun := Sending.Succeeds.of_start h
  unfold Unpivot.run at hrun
  obtain ⟨config, hconfig, hrun⟩ := hrun.bind_lift
  obtain ⟨source, hsource, -⟩ := hrun.bind_lift
  exact ⟨config, StepContext.readConfig_eq_ok.mp hconfig, StepContext.input_has hsource⟩

theorem Union.run_has (h : (Union.run c).start.1 = .ok output) :
    ∃ config, Union.Config.ofJson c.config = .ok config ∧ ∀ name ∈ config.sources, c.Has name := by
  have hrun := Sending.Succeeds.of_start h
  unfold Union.run at hrun
  obtain ⟨config, hconfig, hrun⟩ := hrun.bind_lift
  refine ⟨config, StepContext.readConfig_eq_ok.mp hconfig, ?_⟩
  dsimp only at hrun
  split at hrun
  · obtain ⟨sent, a, sent', hthrown⟩ := hrun.bind.1
    cases hthrown
  · intro name hname
    obtain ⟨rows, hrows⟩ := (hrun.bind.1.mapM name hname).lift
    exact StepContext.input_has hrows

theorem Assert.runAll_has {config : Config} {rows : List Row} {index : Nat}
    {assertions : List Assertion} {results : List Result}
    (h : runAll config rows c index assertions = .ok results) :
    ∀ a ∈ assertions, ∀ field name target, a.check = .relationship field name target → c.Has name := by
  induction assertions generalizing index results with
  | nil => exact fun _ ha => absurd ha List.not_mem_nil
  | cons a rest ih =>
      rw [runAll] at h
      obtain ⟨finding, hfinding, h⟩ := bind_eq_ok h
      obtain ⟨others, hothers, h⟩ := bind_eq_ok h
      refine List.forall_mem_cons.mpr ⟨?_, ih hothers⟩
      intro field name target hcheck
      rw [hcheck, Check.run, checkRelationship] at hfinding
      obtain ⟨referenced, hreferenced, -⟩ := bind_eq_ok hfinding
      exact StepContext.input_has hreferenced

theorem Assert.run_has (h : (Assert.run c).start.1 = .ok output) :
    ∃ config, Assert.Config.ofJson c.config = .ok config ∧ c.Has config.source ∧
      ∀ a ∈ config.assertions, ∀ field name target, a.check = .relationship field name target →
        c.Has name := by
  have hrun := Sending.Succeeds.of_start h
  unfold Assert.run at hrun
  obtain ⟨config, hconfig, hrun⟩ := hrun.bind_lift
  obtain ⟨source, hsource, hrun⟩ := hrun.bind_lift
  obtain ⟨results, hresults, -⟩ := hrun.bind_lift
  exact ⟨config, StepContext.readConfig_eq_ok.mp hconfig, StepContext.input_has hsource,
    runAll_has hresults⟩

/-- A step that succeeds has the rows of all steps it depends on and asks for. -/
theorem StepRegistry.standard_supplied (h : (standard.run c).start.1 = .ok output) : c.Supplied := by
  intro name upstream asks
  rw [StepRegistry.run] at h
  -- one engine for each kind; each place where it asks is a case of its kind
  generalize hkind : c.kind = kind at h asks
  cases asks with
  | dataSource hat => exact Query.run_has h .dataSource hat upstream
  | join index hat => exact Query.run_has h (.join index) hat upstream
  | source hkind named =>
      simp only [List.mem_cons, List.not_mem_nil, or_false] at hkind
      rcases hkind with rfl | rfl | rfl | rfl
      · obtain ⟨config, hconfig, hhas, -⟩ := Enrich.run_has h
        exact Enrich.Config.source_named named hconfig ▸ hhas
      · obtain ⟨config, hconfig, hhas⟩ := Pivot.run_has h
        exact Pivot.Config.source_named named hconfig ▸ hhas
      · obtain ⟨config, hconfig, hhas⟩ := Unpivot.run_has h
        exact Unpivot.Config.source_named named hconfig ▸ hhas
      · obtain ⟨config, hconfig, hhas, -⟩ := Assert.run_has h
        exact (Assert.Config.ofJson_fields hconfig).1 name named ▸ hhas
  | lookup hat =>
      obtain ⟨config, hconfig, -, hlookup⟩ := Enrich.run_has h
      exact hlookup name (Enrich.Config.lookup_named hconfig .lookup hat)
  | lookupStep hat =>
      obtain ⟨config, hconfig, -, hlookup⟩ := Enrich.run_has h
      exact hlookup name (Enrich.Config.lookup_named hconfig .lookupStep hat)
  | sources named =>
      obtain ⟨config, hconfig, hhas⟩ := Union.run_has h
      exact hhas name (Union.Config.sources_named named hconfig)
  | relationship index hreference hcheck =>
      obtain ⟨config, hconfig, -, hhas⟩ := Assert.run_has h
      obtain ⟨items, item, hitems, hitem, hrest⟩ := item_of_at? hreference
      obtain ⟨items', item', hitems', hitem', hrest'⟩ := item_of_at? hcheck
      cases hitems.symm.trans hitems'
      cases hitem.symm.trans hitem'
      obtain ⟨a, ha, hdecoded⟩ := exists_of_mapM ((Assert.Config.ofJson_fields hconfig).2 _ hitems)
        (List.mem_of_getElem? hitem)
      obtain ⟨field, target, hrelationship⟩ :=
        Assert.Assertion.ofJson_reference hdecoded (field_of_at? hrest) (field_of_at? hrest')
      exact hhas a ha field name target hrelationship

end

end RowPipeline
