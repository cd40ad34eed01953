import RowPipeline.Proofs.CacheEntries
import RowPipeline.Proofs.DocumentChecks
import RowPipeline.Proofs.FilterCodec

/-!
# Documents written again

A pipeline that was read is read again from what it is written as: what was left out is written out or
left out again, other spellings give way to the main ones, and the steps, which are the same, have the
same dependencies and the same order. The parts of a pipeline are read back one by one, each under
what reading it has established.
-/

namespace RowPipeline

open Json

/-! ## Metadata -/

namespace Json

/-- Fields of other names behind those of an object do not fill a slot. -/
theorem slotOf_append {fields others : List (String × Json)} {names : List String}
    (apart : ∀ entry ∈ others, entry.1 ∉ names) : slotOf (fields ++ others) names =
      slotOf fields names := by
  have hnone : (others.filter fun p => p.1 ∈ names) = [] := by
    rw [List.filter_eq_nil_iff]
    intro entry hentry
    simpa using apart entry hentry
  rw [slotOf, slotOf, List.filter_append, hnone, List.append_nil]

theorem objectSlots_append {fields others : List (String × Json)} {layout : List (List String)}
    (apart : ∀ entry ∈ others, ∀ names ∈ layout, entry.1 ∉ names) :
    objectSlots (fields ++ others) layout = objectSlots fields layout := by
  induction layout with
  | nil => rfl
  | cons names rest ih =>
      rw [objectSlots, objectSlots,
        slotOf_append fun entry hentry => apart entry hentry names List.mem_cons_self,
        ih fun entry hentry other hother => apart entry hentry other (List.mem_cons_of_mem _ hother)]

end Json

namespace Metadata

/-- The fields that are kept as they are go by names of their own. -/
def Separate (m : Metadata) : Prop := ∀ entry ∈ m.extra, entry.1 ∉ fieldNames

theorem separate_of_ofJson {j : Json} {m : Metadata} (h : ofJson j = .ok m) : m.Separate := by
  unfold ofJson at h
  split at h
  · rename_i fields
    obtain ⟨s, -, h⟩ := bind_eq_ok h
    obtain ⟨name, -, h⟩ := bind_eq_ok h
    obtain ⟨description, -, h⟩ := bind_eq_ok h
    obtain ⟨version, -, h⟩ := bind_eq_ok h
    obtain ⟨author, -, h⟩ := bind_eq_ok h
    obtain ⟨tags, -, h⟩ := bind_eq_ok h
    cases h
    intro entry hentry
    simpa using (List.mem_filter.mp hentry).2
  · cases h

/-- The fields with a meaning of their own, as they are written. -/
def ownFields (m : Metadata) : List (String × Json) :=
  [("name", .string m.name), ("description", .string m.description),
    ("version", .string m.version)] ++ (m.author.map fun s => ("author", Json.string s)).toList ++
    [("tags", .array (m.tags.map .string))]

/-- The slots they fill. -/
theorem objectSlots_ownFields (m : Metadata) :
    objectSlots m.ownFields (fieldNames.map fun name => [name]) =
      .ok [("name", .given (.string m.name)), ("description", .given (.string m.description)),
        ("version", .given (.string m.version)), ("author", slotFor (m.author.map .string)),
        ("tags", .given (.array (m.tags.map .string)))] := by
  rw [ownFields]
  cases m.author <;> rfl

/-- All the rest of what is written is kept as it is, in order. -/
theorem filter_written {m : Metadata} (h : m.Separate) :
    ((m.ownFields ++ m.extra).filter fun p => p.1 ∉ fieldNames) = m.extra := by
  have hown : (m.ownFields.filter fun p => p.1 ∉ fieldNames) = [] := by
    rw [ownFields]
    cases m.author <;> rfl
  rw [List.filter_append, hown, List.nil_append, List.filter_eq_self]
  intro entry hentry
  simpa using h entry hentry

theorem ofJson_toJson {m : Metadata} (h : m.Separate) : ofJson m.toJson = .ok m := by
  have hslots : objectSlots (m.ownFields ++ m.extra) (fieldNames.map fun name => [name]) =
      objectSlots m.ownFields (fieldNames.map fun name => [name]) := by
    apply objectSlots_append
    intro entry hentry names hnames
    obtain ⟨name, hname, rfl⟩ := List.mem_map.mp hnames
    intro heq
    apply h entry hentry
    rw [List.mem_singleton.mp heq]
    exact hname
  have hwritten : m.toJson = .object (m.ownFields ++ m.extra) := rfl
  rw [hwritten, ofJson, hslots, objectSlots_ownFields, filter_written h]
  dsimp only [bind, Except.bind]
  rw [Slots.withDefault_given rfl, decodeString_string]
  dsimp only
  rw [Slots.withDefault_given rfl, decodeString_string]
  dsimp only
  rw [Slots.withDefault_given rfl, decodeString_string]
  dsimp only
  rw [Slots.optional_of rfl (fun text _ => decodeString_string text) fun _ _ => by simp]
  dsimp only
  rw [Slots.withDefault_given rfl,
    decodeArray_encode fun text _ => decodeString_string text]
  rfl

end Metadata

/-! ## Parameters -/

theorem Value.toJson_ne_null {v : Value} (finite : v.Finite) (h : v ≠ .null) :
    v.toJson ≠ .null := by
  intro hnull
  have hread := Value.ofJson_toJson v finite
  rw [hnull] at hread
  exact h hread.symm

theorem ParameterType.decode_name (type : ParameterType) : decode (.string type.name) = .ok type := by
  cases type <;> rfl

namespace ParameterDecl

/-- The values of a declaration can be written as JSON: their numbers are finite, and a default says
something. -/
structure Writable (d : ParameterDecl) : Prop where
  default : ∀ v ∈ d.default, v.Finite ∧ v ≠ .null
  allowedValues : ∀ values ∈ d.allowedValues, ∀ v ∈ values, v.Finite

theorem writable_of_ofJson {j : Json} (proper : j.Proper) {d : ParameterDecl}
    (h : ofJson j = .ok d) : d.Writable := by
  rw [ofJson] at h
  obtain ⟨s, hs, h⟩ := bind_eq_ok h
  obtain ⟨name, -, h⟩ := bind_eq_ok h
  obtain ⟨type, -, h⟩ := bind_eq_ok h
  obtain ⟨default, hdefault, h⟩ := bind_eq_ok h
  obtain ⟨required, -, h⟩ := bind_eq_ok h
  obtain ⟨description, -, h⟩ := bind_eq_ok h
  obtain ⟨allowedValues, hallowed, h⟩ := bind_eq_ok h
  cases h
  have hwithin := slots_within hs
  constructor
  · rintro v rfl
    obtain ⟨raw, hraw, hvalue, hv⟩ := Slots.optional_eq_ok hdefault
    cases hv
    exact ⟨Value.finite_ofJson raw (proper.members raw (hwithin.get hraw)),
      Value.ofJson_ne_null hvalue⟩
  · rintro values rfl v hv
    obtain ⟨raw, hraw, -, hvalues⟩ := Slots.optional_eq_ok hallowed
    obtain ⟨items, rfl, hitems⟩ := decodeArray_eq_ok hvalues
    have hproper := proper.members _ (hwithin.get hraw)
    obtain ⟨item, hitem, hread⟩ := mem_of_mapM hitems hv
    cases hread
    exact Value.finite_ofJson item (hproper.items item hitem)

theorem ofJson_toJson {d : ParameterDecl} (h : d.Writable) : ofJson d.toJson = .ok d := by
  obtain ⟨name, type, default, required, description, allowedValues⟩ := d
  have hslots : slots [["name"], ["type"], ["default"], ["required"], ["description"],
        ["allowed_values"]] (toJson ⟨name, type, default, required, description, allowedValues⟩) =
      .ok [("name", .given (.string name)), ("type", .given (.string type.name)),
        ("default", slotFor (default.map Value.toJson)), ("required", .given (.bool required)),
        ("description", slotFor (description.map .string)),
        ("allowed_values",
          slotFor (allowedValues.map fun vs => .array (vs.map Value.toJson)))] := by
    cases default <;> cases description <;> cases allowedValues <;> rfl
  have hdefault : ∀ v ∈ default, (.ok (Value.ofJson v.toJson) : Decoded Value) = .ok v :=
    fun v hv => congrArg Except.ok (Value.ofJson_toJson v (h.default v hv).1)
  have hvalue : ∀ v ∈ default, v.toJson ≠ .null := fun v hv =>
    Value.toJson_ne_null (h.default v hv).1 (h.default v hv).2
  have hallowed : ∀ values ∈ allowedValues,
      decodeArray (fun j => .ok (Value.ofJson j)) (.array (values.map Value.toJson)) = .ok values :=
    fun values hvalues => decodeArray_encode fun v hv =>
      congrArg Except.ok (Value.ofJson_toJson v (h.allowedValues values hvalues v hv))
  rw [ofJson, hslots]
  dsimp only [bind, Except.bind]
  rw [Slots.required_of rfl (decodeString_string name)]
  dsimp only
  rw [Slots.withDefault_given rfl, type.decode_name]
  dsimp only
  rw [Slots.optional_of rfl hdefault hvalue]
  dsimp only
  rw [Slots.withDefault_given rfl, decodeBool_bool]
  dsimp only
  rw [Slots.optional_of rfl (fun text _ => decodeString_string text) fun _ _ => by simp]
  dsimp only
  rw [Slots.optional_of rfl hallowed nofun]
  rfl

end ParameterDecl

namespace Document

/-- What holds of the declaration of every item holds of all declarations that are read. -/
theorem readDeclarations_each {P : ParameterDecl → Prop} {items : List Json}
    (decl : ∀ item ∈ items, ∀ d, ParameterDecl.ofJson item = .ok d →
      (Text.trimBlanks d.name).isEmpty = false → P d) (seen : List String) (index : Nat) :
    ∀ d ∈ (readDeclarations seen index items).value, P d := by
  induction items generalizing seen index with
  | nil => exact fun _ hd => absurd hd List.not_mem_nil
  | cons item rest ih =>
      have hrest := ih fun item hitem => decl item (List.mem_cons_of_mem _ hitem)
      rw [readDeclarations]
      cases hitem : ParameterDecl.ofJson item with
      | error e => exact hrest seen (index + 1)
      | ok d =>
          dsimp only
          by_cases hblank : (Text.trimBlanks d.name).isEmpty = true
          · rw [if_pos hblank]
            exact hrest seen (index + 1)
          · rw [if_neg hblank]
            refine List.forall_mem_cons.mpr ⟨?_, hrest (d.name :: seen) (index + 1)⟩
            exact decl item List.mem_cons_self d hitem (by simpa using hblank)

/-- The declarations of a proper document can be written, and have names. -/
theorem readParameters_each {field : Option Json} (proper : ∀ raw ∈ field, raw.Proper) :
    ∀ d ∈ (readParameters field).value, (Text.trimBlanks d.name).isEmpty = false ∧ d.Writable := by
  unfold readParameters
  split
  · exact fun _ hd => absurd hd List.not_mem_nil
  · exact fun _ hd => absurd hd List.not_mem_nil
  · rename_i items
    apply readDeclarations_each
    intro item hitem d hd hname
    exact ⟨hname, ParameterDecl.writable_of_ofJson ((proper _ rfl).items item hitem) hd⟩
  · exact fun _ hd => absurd hd List.not_mem_nil

/-- Declarations with different names are read back one by one. -/
theorem readDeclarations_toJson {decls : List ParameterDecl} {seen : List String} (index : Nat)
    (sound : ∀ d ∈ decls, (Text.trimBlanks d.name).isEmpty = false ∧ d.Writable)
    (nodup : (decls.map ParameterDecl.name).Nodup) (fresh : ∀ d ∈ decls, d.name ∉ seen) :
    readDeclarations seen index (decls.map ParameterDecl.toJson) = ⟨decls, []⟩ := by
  induction decls generalizing seen index with
  | nil => rfl
  | cons d rest ih =>
      obtain ⟨⟨hname, hwritable⟩, hsound⟩ := List.forall_mem_cons.mp sound
      obtain ⟨hnew, hfresh⟩ := List.forall_mem_cons.mp fresh
      rw [List.map_cons, List.nodup_cons] at nodup
      have hrest : readDeclarations (d.name :: seen) (index + 1)
          (rest.map ParameterDecl.toJson) = ⟨rest, []⟩ := by
        apply ih (index + 1) hsound nodup.2
        intro other hother hmem
        rcases List.mem_cons.mp hmem with heq | hmem
        · exact nodup.1 (heq ▸ List.mem_map_of_mem hother)
        · exact hfresh other hother hmem
      rw [List.map_cons, readDeclarations, ParameterDecl.ofJson_toJson hwritable]
      dsimp only
      rw [hrest, hname, if_neg hnew]
      rfl

theorem readParameters_toJson {decls : List ParameterDecl}
    (sound : ∀ d ∈ decls, (Text.trimBlanks d.name).isEmpty = false ∧ d.Writable)
    (nodup : (decls.map ParameterDecl.name).Nodup) :
    readParameters (some (.array (decls.map ParameterDecl.toJson))) = ⟨decls, []⟩ :=
  readDeclarations_toJson 0 sound nodup fun _ _ => List.not_mem_nil

/-- The metadata of a document go by names of their own. -/
theorem readMetadata_separate (field : Option Json) : (readMetadata field).value.Separate := by
  unfold readMetadata
  split
  · exact fun _ hentry => absurd hentry List.not_mem_nil
  · exact fun _ hentry => absurd hentry List.not_mem_nil
  · split
    · rename_i hread
      exact Metadata.separate_of_ofJson hread
    · exact fun _ hentry => absurd hentry List.not_mem_nil

theorem readMetadata_toJson {m : Metadata} (h : m.Separate) :
    readMetadata (some m.toJson) = ⟨m, []⟩ := by
  have hread := Metadata.ofJson_toJson h
  rw [Metadata.toJson] at hread ⊢
  rw [readMetadata, hread]
  exact nofun

/-! ## Steps -/

/-- A step that can be read has a name, and its settings are an object. -/
def Readable (s : Step) : Prop :=
  (Text.trimBlanks s.name).isEmpty = false ∧ ∃ config, s.config = .object config

/-- The settings of a step that is read are an object. -/
theorem readStepBody_config {field name : String} {fields : List (String × Json)} {s : Step}
    (h : (readStepBody field name fields).value = some s) :
    s.name = name ∧ ∃ config, s.config = .object config := by
  unfold readStepBody at h
  dsimp only at h
  split at h
  · cases h
  · split at h
    · cases h
    · split at h <;> cases h <;> exact ⟨rfl, _, rfl⟩
    · cases h

theorem readSteps_readable {field : Option Json} (h : (readSteps field).errors = []) :
    ∀ s ∈ (readSteps field).value, Readable s := by
  refine readSteps_each ?_ h
  intro field name fields s hname _ hs
  obtain ⟨rfl, hconfig⟩ := readStepBody_config hs
  exact ⟨trimBlanks_of_stepName? hname, hconfig⟩

/-- A kind of step is read by its name. -/
theorem read_kind (kind : StepKind) : StepKind.read kind.name = .ok kind := by
  cases kind <;> rfl

/-- Steps with different names are read back one by one. -/
theorem readStepsFrom_toJson {steps : List Step} {seen : List String} (index : Nat)
    (readable : ∀ s ∈ steps, Readable s) (nodup : (steps.map Step.name).Nodup)
    (fresh : ∀ s ∈ steps, s.name ∉ seen) :
    readStepsFrom seen index (steps.map Step.toJson) = ⟨steps, []⟩ := by
  induction steps generalizing seen index with
  | nil => rfl
  | cons s rest ih =>
      obtain ⟨⟨hname, config, hconfig⟩, hreadable⟩ := List.forall_mem_cons.mp readable
      obtain ⟨hnew, hfresh⟩ := List.forall_mem_cons.mp fresh
      rw [List.map_cons, List.nodup_cons] at nodup
      have hrest : readStepsFrom (s.name :: seen) (index + 1) (rest.map Step.toJson) =
          ⟨rest, []⟩ := by
        apply ih (index + 1) hreadable nodup.2
        intro other hother hmem
        rcases List.mem_cons.mp hmem with heq | hmem
        · exact nodup.1 (heq ▸ List.mem_map_of_mem hother)
        · exact hfresh other hother hmem
      obtain ⟨name, kind, settings, cache⟩ := s
      obtain rfl : settings = .object config := hconfig
      have hfield : stepName? [("name", .string name), ("type", .string kind.name),
          ("config", .object config), ("cache", .bool cache)] = some name := by
        rw [stepName?]
        simp [Assoc.get?, hname]
      have hbody : readStepBody (itemField "steps" index) name [("name", .string name),
          ("type", .string kind.name), ("config", .object config), ("cache", .bool cache)] =
            ⟨some ⟨name, kind, .object config, cache⟩, []⟩ := by
        rw [readStepBody]
        simp [Assoc.get?, read_kind]
      rw [List.map_cons, Step.toJson, readStepsFrom, hfield]
      dsimp only
      rw [hrest, hbody, if_neg hnew]
      rfl

theorem readSteps_toJson {steps : List Step} (nonempty : steps ≠ [])
    (readable : ∀ s ∈ steps, Readable s) (nodup : (steps.map Step.name).Nodup) :
    readSteps (some (.array (steps.map Step.toJson))) = ⟨steps, []⟩ := by
  obtain ⟨s, rest, rfl⟩ := List.exists_cons_of_ne_nil nonempty
  exact readStepsFrom_toJson 0 readable nodup fun _ _ => List.not_mem_nil

theorem readOutput_name {steps : List Step} {name : String} (h : name ∈ steps.map Step.name) :
    readOutput steps (some (.string name)) = ⟨(name, false), []⟩ := by
  obtain ⟨s, hs, rfl⟩ := List.mem_map.mp h
  have hany : steps.any (fun other => other.name == s.name) = true :=
    List.any_eq_true.mpr ⟨s, hs, beq_self_eq_true _⟩
  rw [readOutput, hany, Bool.not_true, Bool.and_false]
  rfl

end Document

/-! ## Documents -/

/-- A pipeline that was read from a document is read again, in all its parts, from what it is written
as. -/
theorem Pipeline.ofJson_written {doc : Json} (proper : doc.Proper) {p : Pipeline}
    (h : ofJson doc = .ok p) : ofJson p.toJson = .ok p := by
  have hread := read_of_ofJson h
  have wellFormed := WellFormed.of_read hread
  obtain ⟨root, rfl, hfrom⟩ := Document.read_parts hread
  have hmetadata : Document.readMetadata (some p.metadata.toJson) = ⟨p.metadata, []⟩ := by
    apply Document.readMetadata_toJson
    rw [hfrom.metadata_eq]
    exact Document.readMetadata_separate _
  have hparameters : Document.readParameters
      (some (.array (p.parameters.map ParameterDecl.toJson))) = ⟨p.parameters, []⟩ := by
    rw [hfrom.parameters_eq]
    exact Document.readParameters_toJson
      (Document.readParameters_each fun raw hraw => proper.get? hraw)
      (Document.readParameters_sound hfrom.parameters)
  have hsteps : Document.readSteps (some (.array (p.steps.map Step.toJson))) = ⟨p.steps, []⟩ := by
    rw [hfrom.steps_eq]
    exact Document.readSteps_toJson (Document.readSteps_sound hfrom.steps).2
      (Document.readSteps_readable hfrom.steps) (Document.readSteps_sound hfrom.steps).1
  have houtput := Document.readOutput_name ((wellFormed.mem_order _).mp wellFormed.output_mem)
  have hagain : Document.ReadFrom [("metadata", p.metadata.toJson),
      ("parameters", .array (p.parameters.map ParameterDecl.toJson)),
      ("steps", .array (p.steps.map Step.toJson)), ("output", .string p.output)] p :=
    { metadata := congrArg Document.Part.errors hmetadata
      metadata_eq := (congrArg Document.Part.value hmetadata).symm
      parameters := congrArg Document.Part.errors hparameters
      parameters_eq := (congrArg Document.Part.value hparameters).symm
      steps := congrArg Document.Part.errors hsteps
      steps_eq := (congrArg Document.Part.value hsteps).symm
      output := congrArg Document.Part.errors houtput
      output_eq := (congrArg (fun part => part.value.1) houtput).symm
      graph := hfrom.graph
      graph_eq := hfrom.graph_eq
      order := hfrom.order }
  rw [ofJson, toJson, hagain.read]

/-- A document that says little, and that not in the main spellings. -/
def looseDocument : Json :=
  .object [
    ("metadata", .object [("owner", .string "sales"), ("name", .string "report")]),
    ("parameters", .array [
      .object [("default", .int 2024), ("name", .string "year"), ("type", .string "int")]]),
    ("steps", .array [
      .object [("name", .string "orders"), ("type", .string " Query "),
        ("config", .object [("data_source", .string "orders")])]])]

theorem Pipeline.ofJson_written_loose :
    looseDocument.Proper ∧ ∃ p, ofJson looseDocument = .ok p ∧ p.output = "orders" ∧
      p.metadata.extra.map Prod.fst = ["owner"] ∧ ofJson p.toJson = .ok p := by
  have hproper : looseDocument.Proper := by
    simp [looseDocument, Json.Proper, Json.ProperFields, Json.ProperItems, Json.int]
  have hread : ∃ p, ofJson looseDocument = .ok p ∧ p.output = "orders" ∧
      p.metadata.extra.map Prod.fst = ["owner"] := ⟨_, rfl, rfl, rfl⟩
  obtain ⟨p, hp, houtput, hextra⟩ := hread
  exact ⟨hproper, p, hp, houtput, hextra, ofJson_written hproper hp⟩

end RowPipeline
