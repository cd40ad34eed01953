import RowPipeline.Proofs.Outcomes
import RowPipeline.Step.Registry

/-!
# The engines of steps

How a query is carried out once its settings are read: over the rows of another step, where nothing is
sent, or over a table. The engines of the other kinds leave it to the run to cut a page.
-/

namespace RowPipeline

theorem StepContext.readConfig_eq_ok {c : StepContext} {α : Type} {decode : Json → Json.Decoded α}
    {config : α} : c.readConfig decode = .ok config ↔ decode c.config = .ok config := by
  rw [readConfig]
  cases decode c.config with
  | ok a => simp
  | error e => simp

/-! ## Queries -/

namespace Query

theorem Plan.ofConfig_source {c : Config} {plan : Plan} (h : Plan.ofConfig c = .ok plan) :
    plan.source = c.source := by
  rw [Plan.ofConfig] at h
  split at h
  · cases h
  obtain ⟨metrics, -, h⟩ := bind_eq_ok h
  obtain ⟨filters, -, h⟩ := bind_eq_ok h
  obtain ⟨whereFilter, -, h⟩ := bind_eq_ok h
  obtain ⟨joins, -, h⟩ := bind_eq_ok h
  obtain ⟨having, -, h⟩ := bind_eq_ok h
  cases h
  rfl

/-- How a query is carried out, once its settings are read. -/
theorem run_start (c : StepContext) :
    (Query.run c).start =
      match c.readConfig Config.ofJson with
      | .error f => (.error f, [])
      | .ok config =>
          match Plan.ofConfig config with
          | .error f => (.error f, [])
          | .ok plan =>
              let policy := config.expressionFailure.getD c.expressionFailure
              if c.dependsOn plan.source then (runInMemory plan c policy, [])
              else (runOnTable plan c policy).start := by
  unfold Query.run
  rw [Sending.start_lift]
  cases c.readConfig Config.ofJson with
  | error f => rfl
  | ok config =>
      dsimp only
      rw [Sending.start_lift]
      cases Plan.ofConfig config with
      | error f => rfl
      | ok plan =>
          dsimp only
          split
          · cases runInMemory plan c (config.expressionFailure.getD c.expressionFailure) <;> rfl
          · rfl

end Query

/-! ## Other kinds of steps -/

/-- A step that does not cut a page gives an output that tells no number of rows from before. -/
def Sending.Uncut (m : Sending StepOutput) : Prop := m.Gives fun o => o.totalCount = none

theorem Enrich.run_uncut (c : StepContext) : (Enrich.run c).Uncut := by
  unfold Enrich.run
  exact .bind fun _ => .bind fun _ => .bind fun _ => .bind fun _ => .pure rfl

theorem Pivot.run_uncut (c : StepContext) : (Pivot.run c).Uncut := by
  unfold Pivot.run
  exact .bind fun _ => .bind fun _ => .bind fun _ => .pure rfl

theorem Unpivot.run_uncut (c : StepContext) : (Unpivot.run c).Uncut := by
  unfold Unpivot.run
  exact .bind fun _ => .bind fun _ => .bind fun _ => .pure rfl

theorem Union.run_uncut (c : StepContext) : (Union.run c).Uncut := by
  unfold Union.run
  refine .bind fun config => ?_
  dsimp only
  split
  · exact .bind fun _ => .bind fun _ => .pure rfl
  · exact .bind fun _ => .pure rfl

theorem Assert.run_uncut (c : StepContext) : (Assert.run c).Uncut := by
  unfold Assert.run
  refine .bind fun config => .bind fun source => .bind fun results => ?_
  dsimp only
  split
  · exact .bind fun _ => .pure rfl
  · exact .pure rfl

/-- A step is carried out by the engine that is there for its kind. -/
theorem StepRegistry.run_eq {r : StepRegistry} {c : StepContext} {engine : StepEngine}
    (h : r c.kind = some engine) : r.run c = engine c := by
  rw [StepRegistry.run, h]

/-- Of the engines of this library only that of queries cuts pages. -/
theorem StepRegistry.standard_uncut {c : StepContext} (other : c.kind ≠ .query) :
    (standard.run c).Uncut := by
  rw [StepRegistry.run]
  cases hkind : c.kind with
  | query => exact absurd hkind other
  | enrich => exact Enrich.run_uncut c
  | pivot => exact Pivot.run_uncut c
  | unpivot => exact Unpivot.run_uncut c
  | union => exact Union.run_uncut c
  | assert => exact Assert.run_uncut c

end RowPipeline
