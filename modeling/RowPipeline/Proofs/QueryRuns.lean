import RowPipeline.Step.Query
import RowPipeline.Proofs.Grouping
import RowPipeline.Proofs.Outcomes
import RowPipeline.Proofs.Sorting

/-!
# Queries in memory, part by part

What a query over the rows of other steps does once its rows are shaped: it filters them again, drops
repeated ones, sorts and cuts. All of it only leaves out rows and moves them.
-/

namespace RowPipeline

/-! ## Rows that stay -/

section Staying

variable {α : Type}

theorem mem_of_mem_distinctRows {rows : List Row} {row : Row} (h : row ∈ distinctRows rows) :
    row ∈ rows := by
  rw [distinctRows] at h
  exact mem_of_mem_distinctByKey h

theorem mem_of_mem_cutWindow {limit offset : Option UInt64} {items : List α} {a : α}
    (h : a ∈ cutWindow limit offset items) : a ∈ items := by
  unfold cutWindow at h
  cases limit with
  | none => exact List.mem_of_mem_drop h
  | some n => exact List.mem_of_mem_drop (List.mem_of_mem_take h)

theorem mem_sortRows (keys : List (String × Bool)) (rows : List Row) (row : Row) :
    row ∈ sortRows keys rows ↔ row ∈ rows := by
  rw [sortRows]
  simp only [List.mem_map, mem_sortBy]
  constructor
  · rintro ⟨_, ⟨row, hrow, rfl⟩, rfl⟩
    exact hrow
  · intro hrow
    exact ⟨_, ⟨row, hrow, rfl⟩, rfl⟩

end Staying

namespace Query

variable {rows : List Row} {row : Row}

/-- The rows that pass a filter, all of them without one. -/
def admitted (filter : Option FilterNode) (rows : List Row) : List Row :=
  match filter with
  | some n => rows.filter n.accepts
  | none => rows

/-- The output of a step with these rows, cut to a page if one is asked for. -/
def paged (page : Option Pagination) (rows : List Row) (warnings : List String) : StepOutput :=
  match page with
  | some page => {
      rows := cutWindow (some page.limit) (some page.offset) rows
      totalCount := some rows.length.toUInt64
      warnings }
  | none => { rows, warnings }

/-- The rows of a result in order, inside the window of the plan. -/
def Plan.arranged (p : Plan) (rows : List Row) : List Row :=
  let kept := admitted p.having rows
  let kept := if p.distinct then distinctRows kept else kept
  cutWindow p.limit p.offset (sortRows p.sortKeys kept)

theorem runInMemory_eq (p : Plan) (c : StepContext) (policy : ExpressionFailure) :
    runInMemory p c policy = (do
      let source ← c.input p.source
      let joined ← joinAll p c p.joins source
      let shaped ← shapeRows p c.params (admitted p.filter joined)
      let calculated ← applyCalculated shaped.2 c.params policy p.calculated shaped.1
      return paged c.pagination (p.arranged (calculated.1.map Prod.fst)) calculated.2) := by
  rw [runInMemory]
  simp only [paged]
  cases c.pagination <;> rfl

theorem mem_of_mem_admitted {filter : Option FilterNode} (h : row ∈ admitted filter rows) :
    row ∈ rows := by
  cases filter with
  | none => exact h
  | some n => exact List.mem_of_mem_filter h

theorem mem_of_mem_paged {page : Option Pagination} {warnings : List String}
    (h : row ∈ (paged page rows warnings).rows) : row ∈ rows := by
  cases page with
  | none => exact h
  | some page =>
      have hcut : row ∈ cutWindow (some page.limit) (some page.offset) rows := h
      exact mem_of_mem_cutWindow hcut

theorem Plan.mem_of_mem_arranged (p : Plan) (h : row ∈ p.arranged rows) : row ∈ rows := by
  have hkept := (mem_sortRows _ _ _).mp (mem_of_mem_cutWindow h)
  split at hkept
  · exact mem_of_mem_admitted (mem_of_mem_distinctRows hkept)
  · exact mem_of_mem_admitted hkept

/-- A query step without a page that reads the rows of one other step. -/
def salesContext (rows : List Row) : StepContext where
  stepName := "result"
  kind := .query
  config := .null
  dependencies := ["sales"]
  inputs := .ofList [("sales", rows)]
  params := {}
  connector := none
  dialect := .generic
  expressionFailure := .null
  pagination := none

end Query

end RowPipeline
