import Mathlib.Algebra.Order.Floor.Div
import RowPipeline.Proofs.StepEngines
import RowPipeline.Proofs.UncachedRuns

/-!
# Pages

Two mechanisms cut a page: a query over other steps cuts its own rows and tells how many there were, and
the rows of any other step are cut when the result is made. Both give the page of the rows that a run
without pages gives, and account for it alike. So the pages of a size, one after the other, are all the
rows.
-/

namespace RowPipeline

/-! ## Windows and counts -/

/-- A number that is cut off still lies behind all items, since these are fewer. -/
theorem drop_saturate {α : Type} {items : List α} (fits : items.length < 2 ^ 64) (n : ℕ) :
    items.drop (saturate n).toNat = items.drop n := by
  simp only [saturate]
  split
  · rename_i hsmall
    rw [Nat.toUInt64_eq, UInt64.toNat_ofNat_of_lt' hsmall]
  · rename_i hlarge
    have hlast : (0xffffffffffffffff : UInt64).toNat = 2 ^ 64 - 1 := rfl
    have hbound : items.length ≤ (0xffffffffffffffff : UInt64).toNat := by
      rw [hlast]
      omega
    have hbeyond : items.length ≤ n := by omega
    rw [List.drop_eq_nil_of_le hbound, List.drop_eq_nil_of_le hbeyond]

theorem cutWindow_ofPage {α : Type} {items : List α} (fits : items.length < 2 ^ 64)
    (number size : UInt64) :
    cutWindow (some (Pagination.ofPage number size).limit)
        (some (Pagination.ofPage number size).offset) items =
      (items.drop ((number.toNat - 1) * size.toNat)).take size.toNat := by
  rw [← drop_saturate fits]
  rfl

/-- Windows of one width side by side make up the items they reach. -/
theorem flatMap_windows {α : Type} (items : List α) (width count : ℕ) :
    ((List.range count).flatMap fun k => (items.drop (k * width)).take width) =
      items.take (count * width) := by
  induction count with
  | zero => simp
  | succ count ih =>
      rw [List.range_succ, List.flatMap_append, ih, Nat.succ_mul, List.take_add]
      simp

namespace PageInfo

variable {number size total : UInt64}

theorem size_pos (positive : size ≠ 0) : 0 < size.toNat :=
  Nat.pos_of_ne_zero fun h => positive (UInt64.toNat_inj.mp h)

/-- The last page is the first that reaches the total. -/
theorem totalPages_of (positive : size ≠ 0) :
    (of number size total).totalPages.toNat = total.toNat ⌈/⌉ size.toNat := by
  have hsize := size_pos positive
  have hbound : (total.toNat + (size.toNat - 1)) / size.toNat < 2 ^ 64 := by
    have htotal := total.toNat_lt
    rw [Nat.div_lt_iff_lt_mul hsize]
    omega
  rw [of, Nat.toUInt64_eq, UInt64.toNat_ofNat_of_lt' hbound, Nat.ceilDiv_eq_add_pred_div,
    Nat.add_sub_assoc hsize]

theorem hasNext_of (positive : size ≠ 0) :
    (of number size total).hasNext = true ↔ number.toNat * size.toNat < total.toNat := by
  have hsize := size_pos positive
  have hpages : (of number size total).totalPages.toNat = _ := totalPages_of positive
  rw [hasNext, decide_eq_true_eq, UInt64.lt_iff_toNat_lt, hpages]
  change number.toNat < _ ↔ _
  rw [← not_le, ← not_le, ceilDiv_le_iff_le_mul hsize, Nat.mul_comm]

theorem hasPrevious_of : (of number size total).hasPrevious = true ↔ 1 < number.toNat := by
  rw [hasPrevious, decide_eq_true_eq, UInt64.lt_iff_toNat_lt]
  rfl

end PageInfo

/-! ## The two mechanisms -/

/-- The page of an output, which tells how many rows there were. -/
def StepOutput.cut (page : Pagination) (o : StepOutput) : StepOutput :=
  { o with
    rows := cutWindow (some page.limit) (some page.offset) o.rows
    totalCount := some o.rows.length.toUInt64 }

namespace Query

/-- Joins take no notice of a page. -/
theorem joinAll_paged (p : Plan) (c : StepContext) (page : Option Pagination)
    (joins : List JoinClause) (rows : List Row) :
    joinAll p { c with pagination := page } joins rows = joinAll p c joins rows := by
  induction joins generalizing rows with
  | nil => rfl
  | cons j rest ih =>
      have hright : StepContext.input { c with pagination := page } j.table = c.input j.table := rfl
      have hdepends : StepContext.dependsOn { c with pagination := page } j.table =
        c.dependsOn j.table := rfl
      simp only [joinAll, hright, hdepends, ih]

/-- Asked for a page, a query over other steps gives the page of what it gives otherwise. -/
theorem runInMemory_paged (p : Plan) (c : StepContext) (policy : ExpressionFailure)
    (page : Pagination) :
    runInMemory p { c with pagination := some page } policy =
      (runInMemory p { c with pagination := none } policy).map (StepOutput.cut page) := by
  have hsource : ∀ page, StepContext.input { c with pagination := page } p.source =
    c.input p.source := fun _ => rfl
  change _ = StepOutput.cut page <$> _
  unfold runInMemory
  simp only [hsource, joinAll_paged, map_bind, map_pure]
  rfl

/-- A query whose source is a step it depends on gives the page of what it gives without a page. -/
theorem run_paged {c : StepContext} (upstream : ∀ config, Config.ofJson c.config = .ok config →
      config.source ∈ c.dependencies) (page : Pagination) :
    (Query.run { c with pagination := some page }).start.1 =
      (Query.run { c with pagination := none }).start.1.map (StepOutput.cut page) := by
  have hconfig : ∀ page, StepContext.readConfig { c with pagination := page } Config.ofJson =
    c.readConfig Config.ofJson := fun _ => rfl
  rw [run_start, run_start, hconfig (some page), hconfig none]
  cases hread : c.readConfig Config.ofJson with
  | error f => rfl
  | ok config =>
      dsimp only
      cases hplan : Plan.ofConfig config with
      | error f => rfl
      | ok plan =>
          have hsource : c.dependsOn plan.source = true := by
            rw [Plan.ofConfig_source hplan, StepContext.dependsOn, decide_eq_true_eq]
            exact upstream config (StepContext.readConfig_eq_ok.mp hread)
          have hdepends : ∀ page, StepContext.dependsOn { c with pagination := page } plan.source =
            true := fun _ => hsource
          dsimp only
          rw [hdepends (some page), hdepends none, if_pos rfl, if_pos rfl]
          exact runInMemory_paged plan c _ page

end Query

/-- An output that is still whole where the result is made gets cut there. -/
theorem Engine.pageOf_uncut {o : StepOutput} (uncut : o.totalCount = none) (number size : UInt64) :
    pageOf (some o) (some (number, size)) =
      pageOf (some (o.cut (.ofPage number size))) (some (number, size)) := by
  rw [pageOf, pageOf, uncut]
  rfl

/-- An output step that reads no table as a query: a query takes its rows from a step it depends on. -/
def Pipeline.OutputOverSteps (p : Pipeline) : Prop :=
  ∀ s ∈ p.steps, s.name = p.output → s.kind = .query →
    ∀ c, Query.Config.ofJson s.config = .ok c → c.source ∈ p.dependenciesOf s.name

namespace Run

variable {w : Workshop} {settings : RunSettings} {p : Pipeline} {params : Parameters}

/-- What the output step gives when a page is asked for comes to the page of what it gives otherwise,
by whichever of the two mechanisms. -/
theorem outputStep_paged (standard : w.registry = .standard) (upstream : p.OutputOverSteps) {s : Step}
    (hs : s ∈ p.steps) (hname : s.name = p.output) (outputs : Record StepOutput) {o : StepOutput}
    (hwhole : (w.registry.run (contextOf w { settings with pagination := none } p params outputs
      s)).start.1 = .ok o) (number size : UInt64) :
    ∃ o', (w.registry.run (contextOf w
        { settings with pagination := some (.ofPage number size) } p params outputs s)).start.1 =
          .ok o' ∧
      Engine.pageOf (some o') (some (number, size)) =
        Engine.pageOf (some (o.cut (.ofPage number size))) (some (number, size)) := by
  by_cases hkind : s.kind = .query
  -- a query cuts its own page
  · have hpaged : Paged p s := ⟨hname, hkind⟩
    have hrun : ∀ page, w.registry.run (contextOf w { settings with pagination := page } p params
        outputs s) = Query.run { contextOf w settings p params outputs s with
          pagination := page } := by
      intro page
      rw [standard, contextOf_paged hpaged]
      exact StepRegistry.run_eq (congrArg StepRegistry.standard hkind)
    rw [hrun] at hwhole ⊢
    refine ⟨o.cut (.ofPage number size), ?_, rfl⟩
    rw [Query.run_paged (upstream s hs hname hkind), hwhole]
    rfl
  -- of any other step the page is cut when the result is made
  · have hpaged : ¬ Paged p s := fun h => hkind h.2
    rw [contextOf_unpaged hpaged] at hwhole ⊢
    refine ⟨o, hwhole, Engine.pageOf_uncut ?_ number size⟩
    rw [standard] at hwhole
    exact (StepRegistry.standard_uncut hkind).start hwhole

/-- So does the output of the run. -/
theorem runPipeline_page (wellFormed : p.WellFormed) (standard : w.registry = .standard)
    (off : settings.useCache = false) (upstream : p.OutputOverSteps) {j : Journal} {o : StepOutput}
    (hwhole : ((runPipeline w { settings with pagination := none } p params).run j).1.outputs.get?
      p.output = some o) (number size : UInt64) (j' : Journal) :
    Engine.pageOf (((runPipeline w { settings with pagination := some (.ofPage number size) } p
        params).run j').1.outputs.get? p.output) (some (number, size)) =
      Engine.pageOf (some (o.cut (.ofPage number size))) (some (number, size)) := by
  obtain ⟨s, stopped, outputs, hs, houtput⟩ := @runPipeline_output w settings p params wellFormed
    off
  rw [houtput] at hwhole ⊢
  cases stopped with
  | true => cases hwhole
  | false =>
      have hran : (w.registry.run (contextOf w { settings with pagination := none } p params outputs
          s)).start.1 = .ok o := by
        cases hran : (w.registry.run _).start.1 with
        | ok o =>
            rw [hran] at hwhole
            exact congrArg Except.ok (Option.some.inj hwhole)
        | error f =>
            rw [hran] at hwhole
            cases hwhole
      obtain ⟨o', ho', hpage⟩ := outputStep_paged standard upstream (List.mem_of_find?_eq_some hs)
        (Pipeline.name_of_step? hs) outputs hran number size
      rw [ho']
      exact hpage

end Run

/-! ## Pages of a result -/

/-- A result that is a page of all rows and accounts for it. -/
structure RunResult.IsPageOf (r : RunResult) (all : List Row) (number size : UInt64) : Prop where
  rows : r.rows = (all.drop ((number.toNat - 1) * size.toNat)).take size.toNat
  account : ∃ info, r.page = some info ∧ info.page = number ∧ info.pageSize = size ∧
    info.totalCount.toNat = all.length ∧ info.totalPages.toNat = all.length ⌈/⌉ size.toNat ∧
    (info.hasNext = true ↔ number.toNat * size.toNat < all.length) ∧
    (info.hasPrevious = true ↔ 1 < number.toNat)

theorem RunResult.IsPageOf.of_pageOf {r : RunResult} {o : StepOutput} (fits : o.rows.length < 2 ^ 64)
    {number size : UInt64} (positive : size ≠ 0)
    (h : (r.rows, r.page) =
      Engine.pageOf (some (o.cut (.ofPage number size))) (some (number, size))) :
    r.IsPageOf o.rows number size := by
  obtain ⟨hrows, hpage⟩ := Prod.mk.inj h
  have htotal : o.rows.length.toUInt64.toNat = o.rows.length := UInt64.toNat_ofNat_of_lt' fits
  constructor
  · rw [hrows]
    exact cutWindow_ofPage fits number size
  · refine ⟨_, hpage, rfl, rfl, htotal, ?_, ?_, PageInfo.hasPrevious_of⟩
    · rw [PageInfo.totalPages_of positive, htotal]
    · rw [PageInfo.hasNext_of positive, htotal]

/-- The rows a call returns, none where it fails. -/
def Engine.rowsOf : Except Fault RunResult → List Row
  | .ok r => r.rows
  | .error _ => []

/-- A size that is accepted is not zero. -/
theorem RunOptions.size_ne_zero {o : RunOptions} {c : EngineConfig} {number size : UInt64}
    (h : o.pagination c = .ok (some (number, size))) : size ≠ 0 := by
  unfold pagination at h
  split at h
  · cases h
  · dsimp only at h
    split at h
    · cases h
    · split at h
      · cases h
      · rename_i hsize
        cases h
        intro hzero
        simp [hzero] at hsize

theorem RunOptions.pagination_accepts {o : RunOptions} {c : EngineConfig} {number size : UInt64}
    (first : number ≠ 0) (positive : size ≠ 0) (small : size ≤ c.maxPageSize) :
    (o.withPage (some number) (some size)).pagination c = .ok (some (number, size)) := by
  simp [pagination, withPage, first, positive, UInt64.not_lt.mpr small]

namespace Engine

variable {w : Workshop} {document : Json} {params params' : Parameters} {options : RunOptions}
  {p : Pipeline}

/-- A call without pages in which the output step succeeds returns the rows of its output. -/
theorem execute_whole (off : options.useCache = some false)
    (hresolve : resolve document params = .ok (p, params')) {s s' : EngineState} {whole : RunResult}
    (hwhole : (execute w document params (options.withPage none none)).run s = (.ok whole, s'))
    (produced : ∃ t ∈ whole.stepResults, t.stepName = whole.output ∧ t.status = .success) :
    ∃ j o, ((Run.runPipeline w { settingsOf w options none with pagination := none } p params').run
      j).1.outputs.get? p.output = some o ∧ whole.rows = o.rows := by
  obtain ⟨j, hj⟩ := execute_uncached w (options.withPage none none) off rfl hresolve s
  rw [hwhole] at hj
  have hended := Run.runPipeline_ended w (settingsOf w (options.withPage none none) none)
    (resolve_wellFormed hresolve) params' j
  rw [Except.ok.inj hj] at produced ⊢
  obtain ⟨t, ht, hname, hsuccess⟩ := produced
  obtain ⟨o, ho⟩ := hended.output_of_success ht hsuccess
  rw [hname] at ho
  exact ⟨j, o, ho, congrArg (fun output => (pageOf output none).1) ho⟩

/-- Where a call without pages gives the rows of the output step, a call for a page gives a page of
them. -/
theorem execute_page (standard : w.registry = .standard) (off : options.useCache = some false)
    (hresolve : resolve document params = .ok (p, params')) (upstream : p.OutputOverSteps)
    {s s' : EngineState} {whole : RunResult}
    (hwhole : (execute w document params (options.withPage none none)).run s = (.ok whole, s'))
    (produced : ∃ t ∈ whole.stepResults, t.stepName = whole.output ∧ t.status = .success)
    (fits : whole.rows.length < 2 ^ 64) {page pageSize : Option UInt64} {number size : UInt64}
    (hpage : (options.withPage page pageSize).pagination w.config = .ok (some (number, size)))
    (s₁ : EngineState) :
    ∃ r, ((execute w document params (options.withPage page pageSize)).run s₁).1 = .ok r ∧
      r.IsPageOf whole.rows number size := by
  have hoff : (settingsOf w options none).useCache = false := by
    rw [settingsOf, off]
    rfl
  obtain ⟨j, o, ho, hrows⟩ := execute_whole off hresolve hwhole produced
  obtain ⟨j₁, hj₁⟩ := execute_uncached w (options.withPage page pageSize) off hpage hresolve s₁
  refine ⟨_, hj₁, ?_⟩
  rw [hrows] at fits ⊢
  exact .of_pageOf fits (RunOptions.size_ne_zero hpage) (Run.runPipeline_page
    (resolve_wellFormed hresolve) standard hoff upstream ho number size j₁)

/-- The pages of a size side by side are all rows: none is lost, none is there twice. -/
theorem rowsOf_pages {all : List Row} (fits : all.length < 2 ^ 64) {size : UInt64}
    (positive : size ≠ 0) (call : UInt64 → Except Fault RunResult)
    (paged : ∀ number, number ≠ 0 → ∃ r, call number = .ok r ∧ r.IsPageOf all number size) :
    ((List.range (all.length ⌈/⌉ size.toNat)).flatMap fun k => rowsOf (call (k + 1).toUInt64)) =
      all := by
  have hsize := PageInfo.size_pos positive
  have hpage : ∀ k ∈ List.range (all.length ⌈/⌉ size.toNat),
      rowsOf (call (k + 1).toUInt64) = (all.drop (k * size.toNat)).take size.toNat := by
    intro k hk
    -- there are at most as many pages as rows, so their numbers do not wrap around
    have hlast : all.length ⌈/⌉ size.toNat ≤ all.length := by
      rw [ceilDiv_le_iff_le_mul hsize]
      exact Nat.le_mul_of_pos_left _ hsize
    have hnumber : (k + 1).toUInt64.toNat = k + 1 := by
      have hk := List.mem_range.mp hk
      have hsmall : k + 1 < 2 ^ 64 := by omega
      exact UInt64.toNat_ofNat_of_lt' hsmall
    have hfirst : (k + 1).toUInt64 ≠ 0 := by
      intro hzero
      rw [hzero] at hnumber
      cases hnumber
    obtain ⟨r, hr, hof⟩ := paged _ hfirst
    rw [hr]
    change r.rows = _
    rw [hof.rows, hnumber, Nat.add_sub_cancel]
  rw [List.flatMap_congr hpage, flatMap_windows]
  exact List.take_of_length_le (by
    rw [Nat.mul_comm, ← ceilDiv_le_iff_le_mul hsize])

/-- Pages tile the output. With the cache off and an output step that reads no table as a query, every
page that may be asked for is cut out of the rows that the call without pages returns, and the pages of
a size, one after the other, are these rows. Rows are counted in 64 bits. -/
theorem pages_tile_output (standard : w.registry = .standard) (off : options.useCache = some false)
    (hresolve : resolve document params = .ok (p, params')) (upstream : p.OutputOverSteps)
    {s s' : EngineState} {whole : RunResult}
    (hwhole : (execute w document params (options.withPage none none)).run s = (.ok whole, s'))
    (produced : ∃ t ∈ whole.stepResults, t.stepName = whole.output ∧ t.status = .success)
    (fits : whole.rows.length < 2 ^ 64) :
    (∀ (page pageSize : Option UInt64) (number size : UInt64),
      (options.withPage page pageSize).pagination w.config = .ok (some (number, size)) →
        ∀ s₁, ∃ r, ((execute w document params (options.withPage page pageSize)).run s₁).1 = .ok r ∧
          r.IsPageOf whole.rows number size) ∧
      ∀ size : UInt64, size ≠ 0 → size ≤ w.config.maxPageSize → ∀ states : UInt64 → EngineState,
        ((List.range (whole.rows.length ⌈/⌉ size.toNat)).flatMap fun k =>
          let number := (k + 1).toUInt64
          rowsOf ((execute w document params (options.withPage (some number) (some size))).run
            (states number)).1) = whole.rows := by
  constructor
  · intro page pageSize number size hpage
    exact execute_page standard off hresolve upstream hwhole produced fits hpage
  · intro size positive small states
    refine rowsOf_pages fits positive (fun number => ((execute w document params
      (options.withPage (some number) (some size))).run (states number)).1) ?_
    intro number hfirst
    exact execute_page standard off hresolve upstream hwhole produced fits
      (RunOptions.pagination_accepts hfirst positive small) _

/-- A query over a query over a table. -/
def numbersDocument : Json :=
  .object [("steps", .array [
    .object [("name", .string "numbers"), ("type", .string "query"),
      ("config", .object [("data_source", .string "numbers")])],
    .object [("name", .string "all"), ("type", .string "query"),
      ("config", .object [("data_source", .string "numbers")]),
      ("depends_on", .array [.string "numbers"])]])]

/-- A database that answers with three rows. -/
def numbersConnector : Connector :=
  ⟨.generic, fun _ => .ok ([1, 2, 3].map fun n => Record.empty.insert "n" (.int n))⟩

def numbersPipeline : Pipeline where
  metadata := {}
  parameters := []
  steps := [⟨"numbers", .query, .object [("data_source", .string "numbers")], true⟩,
    ⟨"all", .query, .object [("data_source", .string "numbers")], true⟩]
  output := "all"
  order := ["numbers", "all"]
  dependencies := Record.ofList [("numbers", []), ("all", ["numbers"])]

theorem pages_tile_output_numbers :
    let w : Workshop := ⟨.standard, some numbersConnector, {}⟩
    let options : RunOptions := { useCache := some false }
    resolve numbersDocument {} = .ok (numbersPipeline, {}) ∧ numbersPipeline.OutputOverSteps ∧
      ∃ whole s',
        (execute w numbersDocument {} (options.withPage none none)).run {} = (.ok whole, s') ∧
        (∃ t ∈ whole.stepResults, t.stepName = whole.output ∧ t.status = .success) ∧
        whole.rows.length = 3 ∧
        ∃ r, ((execute w numbersDocument {} (options.withPage (some 2) (some 2))).run {}).1 =
          .ok r ∧ r.IsPageOf whole.rows 2 2 := by
  intro w options
  have hresolve : resolve numbersDocument {} = .ok (numbersPipeline, {}) := rfl
  have upstream : numbersPipeline.OutputOverSteps := by
    intro s hs hname hkind c hc
    rcases List.mem_cons.mp hs with rfl | hs
    · exact absurd hname (by decide)
    · rw [List.mem_singleton.mp hs] at hc ⊢
      cases hc
      exact List.mem_cons_self
  have hwhole : ∃ whole s',
      (execute w numbersDocument {} (options.withPage none none)).run {} = (.ok whole, s') ∧
      (∃ t ∈ whole.stepResults, t.stepName = whole.output ∧ t.status = .success) ∧
      whole.rows.length = 3 :=
    ⟨_, _, rfl, ⟨_, List.mem_cons_of_mem _ List.mem_cons_self, rfl, rfl⟩, rfl⟩
  obtain ⟨whole, s', hwhole, produced, hlength⟩ := hwhole
  have fits : whole.rows.length < 2 ^ 64 := by
    rw [hlength]
    decide
  exact ⟨hresolve, upstream, whole, s', hwhole, produced, hlength,
    (pages_tile_output rfl rfl hresolve upstream hwhole produced fits).1 _ _ 2 2 rfl {}⟩

end Engine

end RowPipeline
