import RowPipeline.Proofs.Pages

/-!
# Windows of pages

Of a query over a table the database cuts the page: the statement has one limit and one offset, made of
those of the plan and those of the page. They cut what two cuts one after the other cut, first the window
of the plan and then the page out of it, and the total is the number of rows in the window. So it makes
no difference where the page is cut.
-/

namespace RowPipeline.Query

/-- A difference of 64-bit numbers, cut off at zero, needs no more bits. -/
theorem toNat_sub_toUInt64 (a b : UInt64) : (a.toNat - b.toNat).toUInt64.toNat = a.toNat - b.toNat :=
  UInt64.toNat_ofNat_of_lt' (Nat.lt_of_le_of_lt (Nat.sub_le _ _) a.toNat_lt)

namespace Plan

variable {α : Type} (p : Plan) (page : Pagination) {rows : List α}

/-- The rows behind the offset of the plan and the offset of the page. -/
theorem drop_pageWindow (fits : rows.length < 2 ^ 64) :
    rows.drop (p.pageWindow page).2.toNat =
      (rows.drop (p.offset.getD 0).toNat).drop page.offset.toNat := by
  rw [List.drop_drop]
  exact drop_saturate fits _

/-- The window of a page cuts the page out of the window of the plan. -/
theorem cutWindow_pageWindow (fits : rows.length < 2 ^ 64) :
    cutWindow (some (p.pageWindow page).1) (some (p.pageWindow page).2) rows =
      cutWindow (some page.limit) (some page.offset) (cutWindow p.limit p.offset rows) := by
  have hdrop := p.drop_pageWindow page fits
  unfold cutWindow
  dsimp only [Option.getD_some]
  rw [hdrop, pageWindow]
  cases p.limit with
  | none => rfl
  | some limit =>
      -- the offset of the page uses up that much of the limit of the plan
      dsimp only
      rw [List.drop_take, List.take_take, UInt64.toNat_min, toNat_sub_toUInt64]

theorem toNat_windowedTotal {count : ℕ} (fits : count < 2 ^ 64) :
    (p.windowedTotal count.toUInt64).toNat =
      match p.limit with
      | some limit => min (count - (p.offset.getD 0).toNat) limit.toNat
      | none => count - (p.offset.getD 0).toNat := by
  have hcount : count.toUInt64.toNat = count := UInt64.toNat_ofNat_of_lt' fits
  rw [windowedTotal]
  cases p.limit with
  | none =>
      dsimp only
      rw [toNat_sub_toUInt64, hcount]
  | some limit =>
      dsimp only
      rw [UInt64.toNat_min, toNat_sub_toUInt64, hcount]

theorem length_cutWindow (fits : rows.length < 2 ^ 64) :
    (cutWindow p.limit p.offset rows).length = (p.windowedTotal rows.length.toUInt64).toNat := by
  rw [p.toNat_windowedTotal fits]
  unfold cutWindow
  cases p.limit with
  | none => exact List.length_drop
  | some limit =>
      dsimp only
      rw [List.length_take, List.length_drop, Nat.min_comm]

end Plan

/-- A page of a query over a table is the page of the window that the plan sets. The one limit and offset
of the statement take the rows that the offset and limit of the plan and then those of the page take,
and the total is the number of rows in the window of the plan. Rows are counted in 64 bits. -/
theorem page_of_plan_window {α : Type} (p : Plan) (page : Pagination) {rows : List α}
    (fits : rows.length < 2 ^ 64) :
    cutWindow (some (p.pageWindow page).1) (some (p.pageWindow page).2) rows =
        cutWindow (some page.limit) (some page.offset) (cutWindow p.limit p.offset rows) ∧
      (p.windowedTotal rows.length.toUInt64).toNat = (cutWindow p.limit p.offset rows).length :=
  ⟨p.cutWindow_pageWindow page fits, (p.length_cutWindow fits).symm⟩

/-- All columns of a table, in a window. -/
def wholeRows (limit offset : Option UInt64) : Plan where
  source := "numbers"
  dimensions := []
  metrics := []
  filter := none
  joins := []
  groupBy := []
  having := none
  calculated := []
  orderBy := []
  limit
  offset
  distinct := false

/-- The last page of a window ends with it; behind a window that starts at the last number there is
nothing. -/
theorem page_of_plan_window_last :
    (List.range 40).length < 2 ^ 64 ∧
      ((wholeRows (some 25) (some 5)).pageWindow (.ofPage 3 10) = (5, 25) ∧
        cutWindow (some 5) (some 25) (List.range 40) =
          cutWindow (some 10) (some 20) (cutWindow (some 25) (some 5) (List.range 40)) ∧
        ((wholeRows (some 25) (some 5)).windowedTotal 40).toNat =
          (cutWindow (some 25) (some 5) (List.range 40)).length) ∧
      cutWindow (some 10) (some 0xffffffffffffffff) (List.range 40) =
        cutWindow (some 10) (some 10)
          (cutWindow none (some 0xffffffffffffffff) (List.range 40)) := by
  have fits : (List.range 40).length < 2 ^ 64 := by decide
  exact ⟨fits, ⟨rfl, page_of_plan_window (wholeRows (some 25) (some 5)) (.ofPage 3 10) fits⟩,
    (page_of_plan_window (wholeRows none (some 0xffffffffffffffff)) (.ofPage 2 10) fits).1⟩

end RowPipeline.Query
