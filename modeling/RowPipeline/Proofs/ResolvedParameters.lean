import RowPipeline.Parameter
import RowPipeline.Proofs.Decoding
import RowPipeline.Proofs.Record

/-!
# Resolved parameters

Each declared parameter is checked on its own, from the value it starts from. The parameters of a run are
resolved exactly if no check fails, and the issues are those of the checks that fail, in the order of the
declarations. What is resolved suits the declarations, so resolving it again changes nothing.
-/

namespace RowPipeline

/-! ## Values of a type -/

namespace ParameterType

/-- The values of a type, other than null. -/
def Holds : ParameterType → Value → Prop
  | .string, .string _ => True
  | .integer, .int _ => True
  | .number, .int _ => True
  | .number, .float _ => True
  | .boolean, .bool _ => True
  | .array, .array _ => True
  | .object, .object _ => True
  | .date, .string s => (Calendar.isDateText s || Calendar.isTimestampText s) = true
  | _, _ => False

variable {type : ParameterType} {v c : Value}

theorem holds_ne_null (h : type.Holds c) : c ≠ .null := by
  rintro rfl
  cases type <;> exact h

@[simp]
theorem coerce_null (type : ParameterType) : type.coerce .null = .ok .null := by
  cases type <;> rfl

/-- A value of the type stays as it is. -/
theorem coerce_of_holds (h : type.Holds c) : type.coerce c = .ok c := by
  unfold Holds at h
  split at h
  case h_8 => exact if_pos h
  case h_9 => exact h.elim
  all_goals rfl

theorem numberInText?_holds {s : String} (h : numberInText? s = some c) : number.Holds c := by
  unfold numberInText? at h
  split at h
  · cases h
    trivial
  · obtain ⟨x, -, rfl⟩ := Option.map_eq_some_iff.mp h
    trivial

theorem booleanInText?_holds {s : String} (h : booleanInText? s = some c) : boolean.Holds c := by
  unfold booleanInText? at h
  split at h
  · cases h
    trivial
  · cases h
    trivial
  · cases h

/-- What was read is the result, if reading may fail with a problem. -/
theorem eq_some_of_orMismatch {r : Option Value} {problem : ParameterProblem}
    (h : (match r with
      | some v => Except.ok v
      | none => Except.error problem) = Except.ok c) : r = some c := by
  cases r with
  | none => cases h
  | some v => rw [Except.ok.inj h]

/-- Null is made of null alone, and every other value is turned into one of the type. -/
theorem holds_of_coerce (h : type.coerce v = .ok c) : v = .null ∧ c = .null ∨ type.Holds c := by
  unfold coerce at h
  split at h
  case h_1 => exact .inl ⟨rfl, (Except.ok.inj h).symm⟩
  -- Where something is read, its result is named first, for the reading itself is not to be unfolded.
  case h_4 x =>
    generalize (Value.float x).toInt64? = r at h
    obtain ⟨i, -, rfl⟩ := Option.map_eq_some_iff.mp (eq_some_of_orMismatch h)
    exact .inr trivial
  case h_5 s =>
    generalize Decimal.readInt64? (Text.trimBlanks s) = r at h
    obtain ⟨i, -, rfl⟩ := Option.map_eq_some_iff.mp (eq_some_of_orMismatch h)
    exact .inr trivial
  case h_8 s =>
    generalize hread : numberInText? (Text.trimBlanks s) = r at h
    exact .inr (numberInText?_holds (hread.trans (eq_some_of_orMismatch h)))
  case h_10 s =>
    generalize hread : booleanInText? (Text.trimBlanks s) = r at h
    exact .inr (booleanInText?_holds (hread.trans (eq_some_of_orMismatch h)))
  case h_13 =>
    split at h
    case isTrue hdate =>
      obtain rfl := Except.ok.inj h
      exact .inr hdate
    case isFalse => cases h
  case h_14 => cases h
  all_goals
    obtain rfl := Except.ok.inj h
    exact .inr trivial

/-- What was made of a value is made of itself. -/
theorem coerce_coerce (h : type.coerce v = .ok c) : type.coerce c = .ok c := by
  rcases holds_of_coerce h with ⟨-, rfl⟩ | holds
  · exact coerce_null type
  · exact coerce_of_holds holds

/-- Null is made of null alone. -/
theorem coerce_ne_null (h : type.coerce v = .ok c) (hv : v ≠ .null) : c ≠ .null := by
  rcases holds_of_coerce h with ⟨hnull, -⟩ | holds
  · exact absurd hnull hv
  · exact holds_ne_null holds

end ParameterType

/-! ## One declaration -/

namespace ParameterDecl

variable {p : ParameterDecl} {supplied : Parameters} {v c : Value} {problem : ParameterProblem}

/-- No value counts as supplied: there is none, or a null for a required parameter. -/
def Unset (p : ParameterDecl) (supplied : Parameters) : Prop :=
  ∀ v, supplied.get? p.name = some v → v = .null ∧ p.required = true

/-- The value that a declaration has: the supplied one if it counts, or the default. -/
inductive StartsFrom (p : ParameterDecl) (supplied : Parameters) : Value → Prop
  | given {v : Value} (value : supplied.get? p.name = some v) (counts : v = .null → p.required = false) :
      StartsFrom p supplied v
  | default {v : Value} (unset : p.Unset supplied) (value : p.default = some v) :
      StartsFrom p supplied v

/-- What has to be among the allowed values: of an array parameter every item, and of null nothing. -/
def choices (p : ParameterDecl) : Value → List Value
  | .null => []
  | .array items => if p.type = .array then items else [.array items]
  | v => [v]

def Allowed (p : ParameterDecl) (v : Value) : Prop :=
  ∀ allowed ∈ p.allowedValues, ∀ choice ∈ p.choices v, ∃ a ∈ allowed, a.looseEq choice = true

/-- How a declaration fails, and for which value if it has one. -/
inductive Fails (p : ParameterDecl) (supplied : Parameters) : ParameterProblem → Option Value → Prop
  | missing (required : p.required = true) (unset : p.Unset supplied) (bare : p.default = none) :
      Fails p supplied .required none
  | mistyped {v : Value} {problem : ParameterProblem} (start : p.StartsFrom supplied v)
      (refused : p.type.coerce v = .error problem) : Fails p supplied problem (some v)
  | excluded {v c : Value} (start : p.StartsFrom supplied v) (taken : p.type.coerce v = .ok c)
      (other : ¬p.Allowed c) : Fails p supplied (.notAllowed c) (some v)

def Faulty (p : ParameterDecl) (supplied : Parameters) : Prop :=
  ∃ problem v, p.Fails supplied problem v

/-- The issue is the one of a problem that the declaration has. -/
def Reports (p : ParameterDecl) (supplied : Parameters) (i : Issue) : Prop :=
  ∃ problem v, p.Fails supplied problem v ∧ i = Parameters.issue p problem v

/-! ### Where it starts -/

theorem source_of_given (value : supplied.get? p.name = some v) (counts : v = .null → p.required = false) :
    p.source supplied = some v := by
  rw [source, value]
  cases v with
  | null => simp [counts rfl]
  | _ => rfl

theorem source_of_unset (unset : p.Unset supplied) : p.source supplied = p.default := by
  rw [source]
  cases hv : supplied.get? p.name with
  | none => rfl
  | some v =>
      obtain ⟨rfl, hrequired⟩ := unset v hv
      simp [Value.isNull, hrequired]

theorem exists_given_of_not_unset (h : ¬p.Unset supplied) :
    ∃ v, supplied.get? p.name = some v ∧ (v = .null → p.required = false) := by
  rw [Unset, not_forall] at h
  obtain ⟨v, hv⟩ := h
  rw [Classical.not_imp, not_and] at hv
  exact ⟨v, hv.1, fun hnull => Bool.eq_false_iff.mpr (hv.2 hnull)⟩

theorem source_eq_some_iff : p.source supplied = some v ↔ p.StartsFrom supplied v := by
  constructor
  · intro h
    by_cases unset : p.Unset supplied
    · rw [source_of_unset unset] at h
      exact .default unset h
    · obtain ⟨w, value, counts⟩ := exists_given_of_not_unset unset
      rw [source_of_given value counts] at h
      cases h
      exact .given value counts
  · rintro (⟨value, counts⟩ | ⟨unset, value⟩)
    · exact source_of_given value counts
    · rw [source_of_unset unset, value]

theorem source_eq_none_iff : p.source supplied = none ↔ p.Unset supplied ∧ p.default = none := by
  constructor
  · intro h
    by_cases unset : p.Unset supplied
    · exact ⟨unset, source_of_unset unset ▸ h⟩
    · obtain ⟨w, value, counts⟩ := exists_given_of_not_unset unset
      rw [source_of_given value counts] at h
      cases h
  · rintro ⟨unset, bare⟩
    rw [source_of_unset unset, bare]

/-! ### What is checked -/

theorem allows_iff : p.allows v = true ↔ p.Allowed v := by
  rw [allows, Allowed]
  cases p.allowedValues with
  | none => simp
  | some allowed =>
      cases v with
      | array items =>
          by_cases harray : p.type = .array
          · simp [choices, harray]
          · simp [choices, harray]
      | _ => simp [choices]

@[simp]
theorem allowed_null : p.Allowed .null := fun _ _ _ h => absurd h List.not_mem_nil

theorem check_eq_ok_iff : p.check v = .ok c ↔ p.type.coerce v = .ok c ∧ p.Allowed c := by
  rw [check]
  cases p.type.coerce v with
  | error problem => exact iff_of_false nofun fun h => nomatch h.1
  | ok d =>
      dsimp only [bind, Except.bind]
      split
      case isTrue h =>
        rw [allows_iff] at h
        constructor
        · rintro ⟨⟩
          exact ⟨rfl, h⟩
        · exact And.left
      case isFalse h =>
        rw [allows_iff] at h
        refine iff_of_false nofun ?_
        rintro ⟨⟨⟩, hallowed⟩
        exact h hallowed

theorem check_eq_error_iff : p.check v = .error problem ↔
    p.type.coerce v = .error problem ∨
      ∃ c, p.type.coerce v = .ok c ∧ ¬p.Allowed c ∧ problem = .notAllowed c := by
  rw [check]
  cases p.type.coerce v with
  | error other =>
      dsimp only [bind, Except.bind]
      simp
  | ok d =>
      dsimp only [bind, Except.bind]
      split
      case isTrue h =>
        rw [allows_iff] at h
        simp [h, pure, Except.pure]
      case isFalse h =>
        rw [allows_iff] at h
        simp [h, throw, throwThe, MonadExceptOf.throw, eq_comm]

/-- The checked value of a declaration. -/
def settled? (p : ParameterDecl) (supplied : Parameters) : Option Value :=
  (p.source supplied).bind fun v => (p.check v).toOption

/-- The issue of a declaration. -/
def issue? (p : ParameterDecl) (supplied : Parameters) : Option Issue :=
  match p.source supplied with
  | none => if p.required then some (Parameters.issue p .required none) else none
  | some v =>
      match p.check v with
      | .ok _ => none
      | .error problem => some (Parameters.issue p problem (some v))

theorem settled?_eq_some_iff : p.settled? supplied = some c ↔
    ∃ v, p.StartsFrom supplied v ∧ p.type.coerce v = .ok c ∧ p.Allowed c := by
  have hok : ∀ v, (p.check v).toOption = some c ↔ p.check v = .ok c := by
    intro v
    cases p.check v <;> simp [Except.toOption]
  simp only [settled?, Option.bind_eq_some_iff, source_eq_some_iff, hok, check_eq_ok_iff]

theorem issue?_eq_some_iff {i : Issue} : p.issue? supplied = some i ↔ p.Reports supplied i := by
  rw [issue?]
  constructor
  · intro h
    split at h
    case h_1 hsource =>
      obtain ⟨unset, bare⟩ := source_eq_none_iff.mp hsource
      split at h
      case isTrue required =>
        cases h
        exact ⟨_, _, .missing required unset bare, rfl⟩
      case isFalse => cases h
    case h_2 v hsource =>
      have start := source_eq_some_iff.mp hsource
      split at h
      case h_1 => cases h
      case h_2 problem hcheck =>
        cases h
        rcases check_eq_error_iff.mp hcheck with refused | ⟨c, taken, other, rfl⟩
        · exact ⟨_, _, .mistyped start refused, rfl⟩
        · exact ⟨_, _, .excluded start taken other, rfl⟩
  · rintro ⟨problem, value, fails, rfl⟩
    cases fails with
    | missing required unset bare => simp only [source_eq_none_iff.mpr ⟨unset, bare⟩, required, if_true]
    | mistyped start refused =>
        simp only [source_eq_some_iff.mpr start, check_eq_error_iff.mpr (.inl refused)]
    | excluded start taken other =>
        simp only [source_eq_some_iff.mpr start, check_eq_error_iff.mpr (.inr ⟨_, taken, other, rfl⟩)]

theorem faulty_iff : p.Faulty supplied ↔ (p.issue? supplied).isSome = true := by
  rw [Option.isSome_iff_exists]
  constructor
  · rintro ⟨problem, v, fails⟩
    exact ⟨_, issue?_eq_some_iff.mpr ⟨problem, v, fails, rfl⟩⟩
  · rintro ⟨i, h⟩
    obtain ⟨problem, v, fails, -⟩ := issue?_eq_some_iff.mp h
    exact ⟨problem, v, fails⟩

instance : Decidable (p.Faulty supplied) := decidable_of_iff _ faulty_iff.symm

/-- A declaration that does not fail is settled, or has no value and needs none. -/
theorem sound_iff : ¬p.Faulty supplied ↔
    (∃ c, p.settled? supplied = some c) ∨ p.source supplied = none ∧ p.required = false := by
  rw [faulty_iff, issue?, settled?]
  cases p.source supplied with
  | none => simp
  | some v =>
      dsimp only [Option.bind_some]
      cases p.check v <;> simp [Except.toOption]

/-- A value that suits the declaration is settled as it is. -/
theorem settled?_of_given (value : supplied.get? p.name = some v) (counts : v = .null → p.required = false)
    (suits : v = .null ∨ p.type.coerce v = .ok v ∧ p.Allowed v) : p.settled? supplied = some v := by
  refine settled?_eq_some_iff.mpr ⟨v, .given value counts, ?_⟩
  rcases suits with rfl | suits
  · exact ⟨p.type.coerce_null, allowed_null⟩
  · exact suits

/-- A default that was read is not null. -/
theorem default_ne_null {j : Json} (parsed : ofJson j = .ok p) : p.default ≠ some .null := by
  rw [ofJson] at parsed
  obtain ⟨s, -, parsed⟩ := bind_eq_ok parsed
  obtain ⟨name, -, parsed⟩ := bind_eq_ok parsed
  obtain ⟨type, -, parsed⟩ := bind_eq_ok parsed
  obtain ⟨default, hdefault, parsed⟩ := bind_eq_ok parsed
  obtain ⟨required, -, parsed⟩ := bind_eq_ok parsed
  obtain ⟨description, -, parsed⟩ := bind_eq_ok parsed
  obtain ⟨allowedValues, -, parsed⟩ := bind_eq_ok parsed
  cases parsed
  rintro rfl
  obtain ⟨raw, -, hraw, hnull⟩ := Json.Slots.optional_eq_ok hdefault
  exact Value.ofJson_ne_null hraw (Except.ok.inj hnull)

/-- What is settled is not null if a value is required. -/
theorem settled_ne_null {j : Json} (parsed : ofJson j = .ok p) (required : p.required = true)
    (h : p.settled? supplied = some c) : c ≠ .null := by
  obtain ⟨v, start, taken, -⟩ := settled?_eq_some_iff.mp h
  refine ParameterType.coerce_ne_null taken ?_
  rintro rfl
  cases start with
  | given value counts => exact absurd (counts rfl) (by simp [required])
  | default unset value => exact default_ne_null parsed value

end ParameterDecl

/-! ## All declarations -/

namespace Parameters

open ParameterDecl (faulty_iff issue?_eq_some_iff settled?_eq_some_iff sound_iff source_eq_none_iff)

variable {declared : List ParameterDecl} {supplied resolved : Parameters}

/-- The values of the declarations that have one. -/
def settled (declared : List ParameterDecl) (supplied : Parameters) : List (String × Value) :=
  declared.filterMap fun p => (p.settled? supplied).map fun c => (p.name, c)

/-- The issues of the declarations that fail. -/
def issuesOf (declared : List ParameterDecl) (supplied : Parameters) : List Issue :=
  declared.filterMap fun p => p.issue? supplied

/-- One declaration enters its value or its issue. -/
theorem resolveFrom_cons (p : ParameterDecl) (rest : List ParameterDecl) (r : Parameters)
    (issues : List Issue) :
    resolveFrom supplied (p :: rest) (r, issues) =
      resolveFrom supplied rest
        (((p.settled? supplied).map fun c => r.insert p.name c).getD r,
          issues ++ (p.issue? supplied).toList) := by
  rw [resolveFrom, ParameterDecl.settled?, ParameterDecl.issue?]
  cases p.source supplied with
  | none =>
      dsimp only [Option.bind_none, Option.map_none, Option.getD_none]
      split <;> simp
  | some v =>
      dsimp only [Option.bind_some]
      cases p.check v <;> simp [Except.toOption]

/-- All declarations enter their values and their issues, in order. -/
theorem resolveFrom_eq (declared : List ParameterDecl) (r : Parameters) (issues : List Issue) :
    resolveFrom supplied declared (r, issues) =
      (r.insertAll (settled declared supplied), issues ++ issuesOf declared supplied) := by
  induction declared generalizing r issues with
  | nil => simp [resolveFrom, settled, issuesOf, Record.insertAll]
  | cons p rest ih =>
      rw [resolveFrom_cons, ih, settled, settled, issuesOf, issuesOf]
      cases hsettled : p.settled? supplied <;> cases hissue : p.issue? supplied <;>
        simp [hsettled, hissue, Record.insertAll]

/-- Each issue is one of the declaration that fails at its place. -/
theorem forall₂_reports (declared : List ParameterDecl) :
    List.Forall₂ (fun p i => p.Reports supplied i) (declared.filter fun p => p.Faulty supplied)
      (issuesOf declared supplied) := by
  induction declared with
  | nil => exact .nil
  | cons p rest ih =>
      cases hissue : p.issue? supplied with
      | none =>
          have hsound : ¬p.Faulty supplied := by simp [faulty_iff, hissue]
          have hissues : issuesOf (p :: rest) supplied = issuesOf rest supplied :=
            List.filterMap_cons_none hissue
          rw [List.filter_cons_of_neg (by simpa using hsound), hissues]
          exact ih
      | some i =>
          have hfaulty : p.Faulty supplied := by simp [faulty_iff, hissue]
          have hissues : issuesOf (p :: rest) supplied = i :: issuesOf rest supplied :=
            List.filterMap_cons_some hissue
          rw [List.filter_cons_of_pos (by simpa using hfaulty), hissues]
          exact .cons (issue?_eq_some_iff.mp hissue) ih

/-- Where no declaration fails, resolving enters the values of all. -/
theorem resolve_of_sound (sound : ∀ p ∈ declared, ¬p.Faulty supplied) :
    resolve declared supplied = .ok (supplied.insertAll (settled declared supplied)) := by
  have hnone : issuesOf declared supplied = [] := by
    rw [issuesOf, List.filterMap_eq_nil_iff]
    intro p hp
    have hsound := sound p hp
    rwa [faulty_iff, Option.not_isSome_iff_eq_none] at hsound
  rw [resolve, resolveFrom_eq, List.nil_append, hnone]

theorem resolve_of_faulty {p : ParameterDecl} (hp : p ∈ declared) (faulty : p.Faulty supplied) :
    resolve declared supplied = .error (issuesOf declared supplied) := by
  obtain ⟨i, hi⟩ := Option.isSome_iff_exists.mp (faulty_iff.mp faulty)
  have hmem : i ∈ issuesOf declared supplied := List.mem_filterMap.mpr ⟨p, hp, hi⟩
  rw [resolve, resolveFrom_eq, List.nil_append]
  cases hissues : issuesOf declared supplied with
  | nil => exact absurd (hissues ▸ hmem) List.not_mem_nil
  | cons first rest => rfl

/-- What the declarations make of the supplied values, if none of them fails. -/
structure Resolves (declared : List ParameterDecl) (supplied resolved : Parameters) : Prop where
  undeclared : ∀ name, (∀ p ∈ declared, p.name ≠ name) → resolved.get? name = supplied.get? name
  converted : ∀ p ∈ declared, ∀ c, resolved.get? p.name = some c ↔
    ∃ v, p.StartsFrom supplied v ∧ p.type.coerce v = .ok c
  suits : ∀ p ∈ declared, ∀ c, resolved.get? p.name = some c →
    c = .null ∨ p.type.coerce c = .ok c ∧ p.Allowed c
  required : ∀ p ∈ declared, p.required = true → ∃ c, resolved.get? p.name = some c ∧ c ≠ .null

theorem names_settled_sublist (declared : List ParameterDecl) (supplied : Parameters) :
    ((settled declared supplied).map Prod.fst).Sublist (declared.map ParameterDecl.name) := by
  induction declared with
  | nil => exact .slnil
  | cons p rest ih =>
      rw [settled] at ih ⊢
      cases hsettled : p.settled? supplied with
      | none =>
          rw [List.filterMap_cons_none (by simp [hsettled])]
          exact ih.cons _
      | some c =>
          rw [List.filterMap_cons_some (b := (p.name, c)) (by simp [hsettled])]
          exact ih.cons_cons _

theorem exists_of_mem_settled {name : String} (h : name ∈ (settled declared supplied).map Prod.fst) :
    ∃ p ∈ declared, ∃ c, p.settled? supplied = some c ∧ p.name = name := by
  obtain ⟨⟨_, c⟩, hentry, rfl⟩ := List.mem_map.mp h
  obtain ⟨p, hp, hc⟩ := List.mem_filterMap.mp hentry
  obtain ⟨d, hd, heq⟩ := Option.map_eq_some_iff.mp hc
  cases heq
  exact ⟨p, hp, c, hd, rfl⟩

section Resolved

variable (distinct : (declared.map ParameterDecl.name).Nodup)
  (sound : ∀ p ∈ declared, ¬p.Faulty supplied)

include distinct sound in
/-- Where the names are distinct, the value found for a declared one is the value of its declaration. -/
theorem get?_resolved {p : ParameterDecl} (hp : p ∈ declared) :
    (supplied.insertAll (settled declared supplied)).get? p.name = p.settled? supplied := by
  cases hsettled : p.settled? supplied with
  | some c =>
      refine Record.get?_insertAll_of_mem _ ((names_settled_sublist declared supplied).nodup distinct) ?_
      exact List.mem_filterMap.mpr ⟨p, hp, by simp [hsettled]⟩
  | none =>
      have hfree : p.name ∉ (settled declared supplied).map Prod.fst := by
        intro hmem
        obtain ⟨q, hq, c, hc, hname⟩ := exists_of_mem_settled hmem
        rw [List.inj_on_of_nodup_map distinct hq hp hname, hsettled] at hc
        cases hc
      rw [Record.get?_insertAll_of_not_mem _ hfree]
      rcases sound_iff.mp (sound p hp) with ⟨c, hc⟩ | ⟨hsource, optional⟩
      · rw [hsettled] at hc
        cases hc
      · obtain ⟨unset, -⟩ := source_eq_none_iff.mp hsource
        refine Option.eq_none_iff_forall_ne_some.mpr fun v hv => ?_
        rw [(unset v hv).2] at optional
        cases optional

include distinct sound in
theorem resolves_insertAll (parsed : ∀ p ∈ declared, ∃ j, ParameterDecl.ofJson j = .ok p) :
    Resolves declared supplied (supplied.insertAll (settled declared supplied)) where
  undeclared name hname := by
    refine Record.get?_insertAll_of_not_mem _ fun hmem => ?_
    obtain ⟨p, hp, -, -, heq⟩ := exists_of_mem_settled hmem
    exact hname p hp heq
  converted p hp c := by
    rw [get?_resolved distinct sound hp, settled?_eq_some_iff]
    constructor
    · rintro ⟨v, start, taken, -⟩
      exact ⟨v, start, taken⟩
    · rintro ⟨v, start, taken⟩
      refine ⟨v, start, taken, ?_⟩
      by_contra other
      exact sound p hp ⟨_, _, .excluded start taken other⟩
  suits p hp c hc := by
    rw [get?_resolved distinct sound hp] at hc
    obtain ⟨v, -, taken, allowed⟩ := settled?_eq_some_iff.mp hc
    exact .inr ⟨ParameterType.coerce_coerce taken, allowed⟩
  required p hp required := by
    obtain ⟨j, hj⟩ := parsed p hp
    rcases sound_iff.mp (sound p hp) with ⟨c, hc⟩ | ⟨-, optional⟩
    · exact ⟨c, (get?_resolved distinct sound hp).trans hc, ParameterDecl.settled_ne_null hj required hc⟩
    · rw [required] at optional
      cases optional

include sound in
/-- From what is resolved each declaration has the value that stands there. -/
theorem settled?_resolved (h : Resolves declared supplied resolved) {p : ParameterDecl}
    (hp : p ∈ declared) : ¬p.Faulty resolved ∧ p.settled? resolved = resolved.get? p.name := by
  rw [sound_iff]
  cases hvalue : resolved.get? p.name with
  | some c =>
      -- A null stands only where nothing is required, so that it counts as supplied.
      have counts : c = .null → p.required = false := by
        rintro rfl
        refine Bool.eq_false_iff.mpr fun required => ?_
        obtain ⟨c, hc, hnull⟩ := h.required p hp required
        rw [hvalue] at hc
        exact hnull (Option.some.inj hc).symm
      have hsettled := ParameterDecl.settled?_of_given hvalue counts (h.suits p hp c hvalue)
      exact ⟨.inl ⟨c, hsettled⟩, hsettled⟩
  | none =>
      -- A default would have been entered before, so that none comes in now.
      rcases sound_iff.mp (sound p hp) with ⟨c, hc⟩ | ⟨hsource, optional⟩
      · obtain ⟨v, start, taken, -⟩ := settled?_eq_some_iff.mp hc
        rw [(h.converted p hp c).mpr ⟨v, start, taken⟩] at hvalue
        cases hvalue
      · have unset : p.Unset resolved := fun v hv => by
          rw [hvalue] at hv
          cases hv
        have hnone : p.source resolved = none :=
          source_eq_none_iff.mpr ⟨unset, (source_eq_none_iff.mp hsource).2⟩
        exact ⟨.inr ⟨hnone, optional⟩, by rw [ParameterDecl.settled?, hnone, Option.bind_none]⟩

include sound in
/-- Resolving what is resolved enters the values that are there. -/
theorem resolve_resolved (h : Resolves declared supplied resolved) :
    resolve declared resolved = .ok resolved := by
  rw [resolve_of_sound fun p hp => (settled?_resolved sound h hp).1]
  congr 1
  apply Record.insertAll_of_get?
  intro entry hentry
  obtain ⟨p, hp, hentry⟩ := List.mem_filterMap.mp hentry
  obtain ⟨c, hc, rfl⟩ := Option.map_eq_some_iff.mp hentry
  rw [← (settled?_resolved sound h hp).2, hc]

end Resolved

/-- Resolving fails exactly if a declaration does, with one issue for each that does. What it resolves
otherwise is what the declarations make of the supplied values, and stays when it is resolved again. -/
theorem resolve_sound_complete (declared : List ParameterDecl) (supplied : Parameters)
    (parsed : ∀ p ∈ declared, ∃ j, ParameterDecl.ofJson j = .ok p)
    (distinct : (declared.map ParameterDecl.name).Nodup) :
    ((∃ issues, resolve declared supplied = .error issues) ↔ ∃ p ∈ declared, p.Faulty supplied) ∧
      (∀ issues, resolve declared supplied = .error issues →
        List.Forall₂ (fun p i => p.Reports supplied i)
          (declared.filter fun p => p.Faulty supplied) issues) ∧
      ∀ resolved, resolve declared supplied = .ok resolved →
        Resolves declared supplied resolved ∧ resolve declared resolved = .ok resolved := by
  by_cases faulty : ∃ p ∈ declared, p.Faulty supplied
  · obtain ⟨p, hp, hfaulty⟩ := faulty
    rw [resolve_of_faulty hp hfaulty]
    refine ⟨iff_of_true ⟨_, rfl⟩ ⟨p, hp, hfaulty⟩, ?_, nofun⟩
    rintro _ ⟨⟩
    exact forall₂_reports declared
  · have sound : ∀ p ∈ declared, ¬p.Faulty supplied := fun p hp hfaulty => faulty ⟨p, hp, hfaulty⟩
    rw [resolve_of_sound sound]
    refine ⟨iff_of_false nofun faulty, nofun, ?_⟩
    rintro _ ⟨⟩
    have resolves := resolves_insertAll distinct sound parsed
    exact ⟨resolves, resolve_resolved sound resolves⟩

/-- A region that may be left out, a limit that may not, and some of two identifiers. -/
def reportParameters : List ParameterDecl :=
  [{ name := "region", default := some (.string "EU"), allowedValues := some [.string "EU", .string "US"] },
    { name := "limit", type := .integer, required := true },
    { name := "ids", type := .array, allowedValues := some [.int 1, .int 2] }]

theorem reportParameters_parsed : ∀ p ∈ reportParameters, ∃ j, ParameterDecl.ofJson j = .ok p := by
  have hregion : ParameterDecl.ofJson (.object [("name", .string "region"), ("default", .string "EU"),
      ("allowed_values", .array [.string "EU", .string "US"])]) =
    .ok { name := "region", default := some (.string "EU"),
          allowedValues := some [.string "EU", .string "US"] } := rfl
  have hlimit : ParameterDecl.ofJson (.object [("name", .string "limit"), ("type", .string "int"),
      ("required", .bool true)]) = .ok { name := "limit", type := .integer, required := true } := rfl
  have hids : ParameterDecl.ofJson (.object [("name", .string "ids"), ("type", .string "list"),
      ("allowed_values", .array [.number (.int 1), .number (.int 2)])]) =
    .ok { name := "ids", type := .array, allowedValues := some [.int 1, .int 2] } := rfl
  simp only [reportParameters, List.forall_mem_cons]
  exact ⟨⟨_, hregion⟩, ⟨_, hlimit⟩, ⟨_, hids⟩, nofun⟩

/-- The limit is read from its text, the region is the default, and an undeclared null stays. Of no values
at all the limit is missing. -/
theorem resolve_sound_complete_report :
    (∀ p ∈ reportParameters, ∃ j, ParameterDecl.ofJson j = .ok p) ∧
      (reportParameters.map ParameterDecl.name).Nodup ∧
      resolve reportParameters (.ofList [("limit", .string " 42 "), ("extra", .null),
        ("ids", .array [.int 2, .int 1])]) =
        .ok (.ofList [("limit", .int 42), ("extra", .null), ("ids", .array [.int 2, .int 1]),
          ("region", .string "EU")]) ∧
      resolve reportParameters (.ofList [("limit", .int 42), ("extra", .null),
          ("ids", .array [.int 2, .int 1]), ("region", .string "EU")]) =
        .ok (.ofList [("limit", .int 42), ("extra", .null), ("ids", .array [.int 2, .int 1]),
          ("region", .string "EU")]) ∧
      ∃ p ∈ reportParameters, p.Faulty ∅ := by
  have distinct : (reportParameters.map ParameterDecl.name).Nodup := by decide
  have hresolve : resolve reportParameters (.ofList [("limit", .string " 42 "), ("extra", .null),
      ("ids", .array [.int 2, .int 1])]) =
      .ok (.ofList [("limit", .int 42), ("extra", .null), ("ids", .array [.int 2, .int 1]),
        ("region", .string "EU")]) := rfl
  have hsound := resolve_sound_complete reportParameters (.ofList [("limit", .string " 42 "),
    ("extra", .null), ("ids", .array [.int 2, .int 1])]) reportParameters_parsed distinct
  have hmissing : resolve reportParameters ∅ = .error
      [⟨"parameters.limit", "is required", none⟩] := rfl
  have hfaulty := resolve_sound_complete reportParameters ∅ reportParameters_parsed distinct
  exact ⟨reportParameters_parsed, distinct, hresolve, (hsound.2.2 _ hresolve).2,
    hfaulty.1.mp ⟨_, hmissing⟩⟩

end Parameters

end RowPipeline
