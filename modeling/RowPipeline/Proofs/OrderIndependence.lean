import Mathlib.Logic.Relation
import RowPipeline.Proofs.Runs

/-!
# Independence of the order

A step sees the outputs of its dependencies and nothing else of a run. So in a run that goes on after
errors, with the cache off, neither the order of the steps nor what becomes of a step they do not
depend on can be told from their results.
-/

namespace RowPipeline

namespace Pipeline

/-- A list of all steps by name, each once and after its dependencies. -/
structure OrderedBy (p : Pipeline) (order : List String) : Prop where
  perm : order.Perm (p.steps.map Step.name)
  ordered : DependenciesFirst p.dependenciesOf order

/-- The pipeline with its steps in another order. -/
def reorder (p : Pipeline) (order : List String) : Pipeline := { p with order }

/-- A step depends on another directly or through others, or is that step. -/
def DependsOn (p : Pipeline) : String → String → Prop :=
  Relation.ReflTransGen fun name d => d ∈ p.dependenciesOf name

theorem WellFormed.orderedBy {p : Pipeline} (h : p.WellFormed) : p.OrderedBy p.order where
  perm := (List.perm_ext_iff_of_nodup h.order_nodup h.names_nodup).mpr h.mem_order
  ordered := h.ordered

theorem WellFormed.reorder {p : Pipeline} (h : p.WellFormed) {order : List String}
    (horder : p.OrderedBy order) : (p.reorder order).WellFormed where
  names_nodup := h.names_nodup
  order_nodup := horder.perm.nodup_iff.mpr h.names_nodup
  mem_order := fun _ => horder.perm.mem_iff
  ordered := horder.ordered
  output_mem := horder.perm.mem_iff.mpr ((h.mem_order _).mp h.output_mem)

end Pipeline

namespace Run

variable {w w' : Workshop} {settings : RunSettings} {p : Pipeline} {params : Parameters}

/-- What a step carried out comes to: the outcome of its engine in its context, entered. -/
theorem Account.fresh {outputs : Record StepOutput} {s : Step} {r : StepResult}
    (h : Account w settings p params outputs s r) (carriedOut : r.status ≠ .skipped)
    (off : r.cacheHit = false) :
    match (w.registry.run (contextOf w settings p params outputs s)).start.1 with
    | .ok output => r = .succeeded s output false ∧ outputs.get? s.name = some output
    | .error f =>
        r = .failed s (f.inStep s.name s.kind.name).message ∧ outputs.get? s.name = none := by
  cases h with
  | skipped => exact absurd rfl carriedOut
  | @succeeded output hit hends hout =>
      cases hit with
      | true => cases off
      | false =>
          cases hends with
          | fresh houtcome =>
              rw [houtcome]
              exact ⟨rfl, hout⟩
  | failed hends hout =>
      cases hends with
      | fresh houtcome =>
          rw [houtcome]
          exact ⟨rfl, hout⟩

/-- A step fares alike in two runs whose engines answer alike in its contexts. -/
theorem Account.unique {outputs outputs' : Record StepOutput} {s : Step} {r r' : StepResult}
    {p' : Pipeline} (h : Account w settings p params outputs s r)
    (h' : Account w' settings p' params outputs' s r')
    (carriedOut : r.status ≠ .skipped ∧ r.cacheHit = false)
    (carriedOut' : r'.status ≠ .skipped ∧ r'.cacheHit = false)
    (same : w.registry.run (contextOf w settings p params outputs s) =
      w'.registry.run (contextOf w' settings p' params outputs' s)) :
    r = r' ∧ outputs.get? s.name = outputs'.get? s.name := by
  have hfresh := h.fresh carriedOut.1 carriedOut.2
  have hfresh' := h'.fresh carriedOut'.1 carriedOut'.2
  rw [same] at hfresh
  generalize (w'.registry.run _).start.1 = outcome at hfresh hfresh'
  cases outcome with
  | ok output =>
      obtain ⟨hr, hout⟩ := hfresh
      obtain ⟨hr', hout'⟩ := hfresh'
      exact ⟨hr.trans hr'.symm, hout.trans hout'.symm⟩
  | error f =>
      obtain ⟨hr, hout⟩ := hfresh
      obtain ⟨hr', hout'⟩ := hfresh'
      exact ⟨hr.trans hr'.symm, hout.trans hout'.symm⟩

/-- The account of a step of the run. -/
theorem Books.account {steps : List Step} {progress : Progress}
    (h : Books w settings p params steps progress) {s : Step} (hs : s ∈ steps) :
    ∃ r ∈ progress.results, Account w settings p params progress.outputs s r := by
  have haccounts := h.accounts
  clear h
  generalize progress.results = results at haccounts ⊢
  induction haccounts with
  | nil => simp at hs
  | @cons t r steps results hfirst _ ih =>
      rcases List.mem_cons.mp hs with rfl | hs
      · exact ⟨r, List.mem_cons_self, hfirst⟩
      · obtain ⟨other, hother, haccount⟩ := ih hs
        exact ⟨other, List.mem_cons_of_mem _ hother, haccount⟩

/-- A list of results with different names has one result of each name it lists. -/
theorem filter_name_eq {results : List StepResult}
    (nodup : (results.map StepResult.stepName).Nodup) {r : StepResult} (hr : r ∈ results) :
    (results.filter fun t => t.stepName = r.stepName) = [r] := by
  induction results with
  | nil => simp at hr
  | cons head rest ih =>
      rw [List.map_cons, List.nodup_cons] at nodup
      rcases List.mem_cons.mp hr with rfl | hrest
      · rw [List.filter_cons_of_pos (by simp), List.filter_eq_nil_iff.mpr]
        intro t ht heq
        rw [decide_eq_true_eq] at heq
        exact nodup.1 (heq ▸ List.mem_map_of_mem ht)
      · have hne : head.stepName ≠ r.stepName := by
          intro heq
          exact nodup.1 (heq ▸ List.mem_map_of_mem hrest)
        rw [List.filter_cons_of_neg (by simpa using hne), ih nodup.2 hrest]

/-- The final state of a run of the steps in some order. -/
def final (w : Workshop) (settings : RunSettings) (p : Pipeline) (params : Parameters)
    (order : List String) (j : Journal) : Progress :=
  ((runPipeline w settings (p.reorder order) params).run j).1

/-- A step fares alike in two runs: they give it the same result and the same output. -/
def FaresAlike (first second : Progress) (name : String) : Prop :=
  (∃ r, (first.results.filter fun t => t.stepName = name) = [r] ∧
    (second.results.filter fun t => t.stepName = name) = [r]) ∧
    first.outputs.get? name = second.outputs.get? name

/-- Runs whose engines differ on some steps alone treat the steps alike that depend on none of
these. -/
theorem faresAlike_of_engines (wellFormed : p.WellFormed) {order order' : List String}
    (h : p.OrderedBy order) (h' : p.OrderedBy order')
    (mode : settings.failureMode = .continueOnError) (off : settings.useCache = false)
    {registry : StepRegistry} (culprit : String → Prop)
    (same : ∀ c : StepContext, ¬ culprit c.stepName → registry.run c = w.registry.run c)
    (j j' : Journal) :
    ∀ name ∈ order, (∀ other, culprit other → ¬ p.DependsOn name other) →
      FaresAlike (final w settings p params order j)
        (final { w with registry } settings p params order' j') name := by
  have hended := runPipeline_ended w settings (wellFormed.reorder h) params j
  have hended' := runPipeline_ended { w with registry } settings (wellFormed.reorder h') params j'
  have hnodup : (((runPipeline w settings (p.reorder order) params).run j).1.results.map
      StepResult.stepName).Nodup := by
    rw [hended.names, (wellFormed.reorder h).orderedNames]
    exact (wellFormed.reorder h).order_nodup
  have hnodup' : (((runPipeline { w with registry } settings (p.reorder order') params).run
      j').1.results.map StepResult.stepName).Nodup := by
    rw [hended'.names, (wellFormed.reorder h').orderedNames]
    exact (wellFormed.reorder h').order_nodup
  refine h.ordered.induction ?_
  intro name hname hdeps hapart
  obtain ⟨s, hs⟩ := p.step?_of_mem (h.perm.mem_iff.mp hname)
  have hsname := Pipeline.name_of_step? hs
  obtain ⟨r, hr, haccount⟩ := hended.account
    (List.mem_filterMap.mpr ⟨name, hname, hs⟩ : s ∈ (p.reorder order).orderedSteps)
  obtain ⟨r', hr', haccount'⟩ := hended'.account
    (List.mem_filterMap.mpr ⟨name, h'.perm.mem_iff.mpr (h.perm.mem_iff.mp hname), hs⟩ :
      s ∈ (p.reorder order').orderedSteps)
  -- the dependencies fared alike, so the step sees the same in both runs
  have hcontext : contextOf w settings (p.reorder order) params
        ((runPipeline w settings (p.reorder order) params).run j).1.outputs s =
      contextOf { w with registry } settings (p.reorder order') params
        ((runPipeline { w with registry } settings (p.reorder order') params).run j').1.outputs s := by
    refine contextOf_congr w settings (p.reorder order) params ?_
    intro d hd
    have hd' : d ∈ p.dependenciesOf name := hsname ▸ hd
    exact (hdeps d hd' fun other hother hdep => hapart other hother (.head hd' hdep)).2
  have hother : ¬ culprit (contextOf w settings (p.reorder order) params
      ((runPipeline w settings (p.reorder order) params).run j).1.outputs s).stepName := by
    intro hculprit
    have hself : culprit name := hsname ▸ hculprit
    exact hapart name hself .refl
  obtain ⟨heq, hout⟩ := haccount.unique haccount'
    ⟨hended.continueOnError mode r hr, hended.recalled off r hr⟩
    ⟨hended'.continueOnError mode r' hr', hended'.recalled off r' hr'⟩
    (by rw [← hcontext]; exact (same _ hother).symm)
  have hrname : r.stepName = name := haccount.name.1.trans hsname
  subst heq
  refine ⟨⟨r, ?_, ?_⟩, hsname ▸ hout⟩
  · rw [← hrname]
    exact filter_name_eq hnodup hr
  · rw [← hrname]
    exact filter_name_eq hnodup' hr'

/-- Names that are no steps have no output. -/
theorem final_outputs_none (wellFormed : p.WellFormed) {order : List String} (h : p.OrderedBy order)
    (j : Journal) {name : String} (hname : name ∉ order) :
    (final w settings p params order j).outputs.get? name = none := by
  rw [Record.get?_eq_none_iff]
  intro hkey
  have hended := runPipeline_ended w settings (wellFormed.reorder h) params j
  have hknown := hended.known hkey
  rw [(wellFormed.reorder h).orderedNames] at hknown
  exact hname hknown

end Run

/-- Two orders of the steps of a pipeline that was read lead to the same result and output of every
step, if the run goes on after errors and uses no cache. And engines that treat one step otherwise
change nothing for the steps that do not depend on it. -/
theorem run_order_irrelevant {document : Json} {p : Pipeline}
    (hp : Pipeline.ofJson document = .ok p) {order order' : List String} (h : p.OrderedBy order)
    (h' : p.OrderedBy order') {settings : RunSettings}
    (mode : settings.failureMode = .continueOnError) (off : settings.useCache = false)
    (w : Workshop) (params : Parameters) (j j' : Journal) :
    (∀ name ∈ p.steps.map Step.name,
      Run.FaresAlike (Run.final w settings p params order j)
        (Run.final w settings p params order' j') name) ∧
    (∀ name, (Run.final w settings p params order j).outputs.get? name =
      (Run.final w settings p params order' j').outputs.get? name) ∧
    ∀ (registry : StepRegistry) (culprit : String),
      (∀ c : StepContext, c.stepName ≠ culprit → registry.run c = w.registry.run c) →
      ∀ name ∈ p.steps.map Step.name, ¬ p.DependsOn name culprit →
        Run.FaresAlike (Run.final w settings p params order j)
          (Run.final { w with registry } settings p params order' j') name := by
  have wellFormed := Pipeline.WellFormed.of_ofJson hp
  have hall : ∀ name ∈ order, Run.FaresAlike (Run.final w settings p params order j)
      (Run.final w settings p params order' j') name := fun name hname =>
    Run.faresAlike_of_engines wellFormed h h' mode off (fun _ => False)
      (fun _ _ => rfl) j j' name hname (fun _ hfalse => hfalse.elim)
  refine ⟨fun name hname => hall name (h.perm.mem_iff.mpr hname), ?_, ?_⟩
  · intro name
    by_cases hname : name ∈ order
    · exact (hall name hname).2
    · rw [Run.final_outputs_none wellFormed h j hname, Run.final_outputs_none wellFormed h' j'
        (fun hmem => hname (h.perm.mem_iff.mpr (h'.perm.mem_iff.mp hmem)))]
  · intro registry culprit same name hname hapart
    refine Run.faresAlike_of_engines wellFormed h h' mode off (fun x => x = culprit)
      same j j' name (h.perm.mem_iff.mpr hname) ?_
    rintro other rfl
    exact hapart

/-- Two steps that depend on no other, and one that depends on both. -/
def unionDocument : Json :=
  .object [("steps", .array [
    .object [("name", .string "paid"), ("type", .string "query"), ("config", .object [])],
    .object [("name", .string "open"), ("type", .string "query"), ("config", .object [])],
    .object [("name", .string "all"), ("type", .string "union"),
      ("config", .object [("sources", .array [.string "paid", .string "open"])])]])]

def unionPipeline : Pipeline where
  metadata := {}
  parameters := []
  steps := [⟨"paid", .query, .object [], true⟩, ⟨"open", .query, .object [], true⟩,
    ⟨"all", .union, .object [("sources", .array [.string "paid", .string "open"])], true⟩]
  output := "all"
  order := ["paid", "open", "all"]
  dependencies := Record.ofList [("paid", []), ("open", []), ("all", ["paid", "open"])]

theorem run_order_irrelevant_union :
    Pipeline.ofJson unionDocument = .ok unionPipeline ∧
      unionPipeline.OrderedBy ["paid", "open", "all"] ∧
      unionPipeline.OrderedBy ["open", "paid", "all"] ∧
      let w : Workshop := ⟨.standard, none, {}⟩
      let settings : RunSettings := ⟨false, .continueOnError, none⟩
      Run.FaresAlike (Run.final w settings unionPipeline {} ["paid", "open", "all"] {})
        (Run.final w settings unionPipeline {} ["open", "paid", "all"] {}) "all" := by
  have hread : Pipeline.ofJson unionDocument = .ok unionPipeline := rfl
  have hfirst : unionPipeline.OrderedBy ["paid", "open", "all"] :=
    (Pipeline.WellFormed.of_ofJson hread).orderedBy
  have hsecond : unionPipeline.OrderedBy ["open", "paid", "all"] :=
    ⟨by decide, ((DependenciesFirst.nil.snoc (by decide)).snoc (by decide)).snoc (by decide)⟩
  exact ⟨hread, hfirst, hsecond,
    (run_order_irrelevant hread hfirst hsecond rfl rfl _ {} {} {}).1 "all" (by decide)⟩

end RowPipeline
