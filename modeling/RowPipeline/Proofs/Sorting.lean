import Mathlib.Data.List.Basic
import RowPipeline.Sorting

/-!
# Stable sorting

A stable sort of a list is in order and keeps every part of the list that was in order already. A list
has one stable sort at most, and `sortBy` finds it wherever the comparison is a weak order of the
elements at hand; of any other elements nothing is asked.
-/

namespace RowPipeline

variable {α β : Type}

/-- The elements of `xs` in order. What was in order in `xs` still is, so that elements of which neither
comes before the other keep their places. -/
structure StableSort (before : α → α → Prop) (xs ys : List α) : Prop where
  perm : ys.Perm xs
  ordered : ys.Pairwise fun a b => ¬ before b a
  stable : ∀ zs : List α, zs.Pairwise (fun a b => ¬ before b a) → zs.Sublist xs → zs.Sublist ys

/-- A strict order of the elements with a property, in which not coming before is transitive. -/
structure WeakOrderOn (P : α → Prop) (before : α → α → Prop) : Prop where
  asymm : ∀ a b, P a → P b → before a b → ¬ before b a
  trans : ∀ a b c, P a → P b → P c → ¬ before b a → ¬ before c b → ¬ before c a

theorem WeakOrderOn.comap {P : β → Prop} {before : β → β → Prop} (h : WeakOrderOn P before)
    (key : α → β) : WeakOrderOn (fun a => P (key a)) fun a b => before (key a) (key b) :=
  ⟨fun _ _ ha hb => h.asymm _ _ ha hb, fun _ _ _ ha hb hc => h.trans _ _ _ ha hb hc⟩

theorem WeakOrderOn.mono {P Q : α → Prop} {before : α → α → Prop} (h : WeakOrderOn Q before)
    (sub : ∀ a, P a → Q a) : WeakOrderOn P before :=
  ⟨fun a b ha hb => h.asymm a b (sub a ha) (sub b hb),
    fun a b c ha hb hc => h.trans a b c (sub a ha) (sub b hb) (sub c hc)⟩

/-! ## One stable sort -/

namespace StableSort

variable {before : α → α → Prop} {xs ys zs : List α}

theorem nil : StableSort before ([] : List α) [] :=
  ⟨.refl _, .nil, fun _ _ h => h⟩

/-- A new last element goes behind those it does not come before. -/
theorem enter {low high : List α} {a : α} (h : StableSort before xs (low ++ high))
    (behind : ∀ b ∈ low, ¬ before a b) (ahead : ∀ b ∈ high, before a b)
    (asymm : ∀ b ∈ high, ¬ before b a) : StableSort before (xs ++ [a]) (low ++ a :: high) := by
  obtain ⟨hlow, hhigh, hacross⟩ := List.pairwise_append.mp h.ordered
  refine ⟨?_, ?_, ?_⟩
  · exact List.perm_middle.trans ((h.perm.cons a).trans (List.perm_append_singleton a xs).symm)
  · refine List.pairwise_append.mpr ⟨hlow, List.pairwise_cons.mpr ⟨asymm, hhigh⟩, ?_⟩
    intro b hb c hc
    rcases List.mem_cons.mp hc with rfl | hc
    · exact behind b hb
    · exact hacross b hb c hc
  · intro part hordered hpart
    obtain ⟨front, back, rfl, hfront, hback⟩ := List.sublist_append_iff.mp hpart
    obtain ⟨hfirst, -, hlast⟩ := List.pairwise_append.mp hordered
    have hold := h.stable front hfirst hfront
    rcases List.sublist_singleton.mp hback with rfl | rfl
    · rw [List.append_nil]
      exact hold.trans ((List.Sublist.refl low).append (List.sublist_cons_self a high))
    · -- what stands in order before the new element is not among the greater ones
      obtain ⟨small, great, rfl, hsmall, hgreat⟩ := List.sublist_append_iff.mp hold
      have hnone : great = [] := by
        rw [List.eq_nil_iff_forall_not_mem]
        intro b hb
        exact hlast b (List.mem_append_right _ hb) a List.mem_cons_self
          (ahead b (hgreat.subset hb))
      subst hnone
      rw [List.append_nil]
      exact hsmall.append ((List.nil_sublist high).cons_cons a)

/-- The elements with a property stand as in the list, if they tie with each other. -/
theorem filter_eq (h : StableSort before xs ys) {keep : α → Bool}
    (tied : ∀ b ∈ xs, ∀ c ∈ xs, keep b = true → keep c = true → ¬ before c b) :
    ys.filter keep = xs.filter keep := by
  have hordered : (xs.filter keep).Pairwise fun b c => ¬ before c b := by
    refine List.pairwise_of_forall_mem_list fun b hb c hc => ?_
    obtain ⟨hbmem, hb⟩ := List.mem_filter.mp hb
    obtain ⟨hcmem, hc⟩ := List.mem_filter.mp hc
    exact tied b hbmem c hcmem hb hc
  have hpart := (h.stable _ hordered List.filter_sublist).filter keep
  rw [List.filter_filter] at hpart
  simp only [Bool.and_self] at hpart
  exact (hpart.eq_of_length (h.perm.filter _).length_eq.symm).symm

open Classical in
/-- The elements that tie with one stand as in the list. -/
theorem filter_tied (h : StableSort before xs ys) (order : WeakOrderOn (· ∈ xs) before) {a : α}
    (ha : a ∈ xs) : ys.filter (fun b => ¬ before a b ∧ ¬ before b a) =
      xs.filter fun b => ¬ before a b ∧ ¬ before b a :=
  h.filter_eq fun b hb c hc htied htied' =>
    order.trans b a c hb ha hc (of_decide_eq_true htied).1 (of_decide_eq_true htied').2

/-- Of two elements the first one comes before the other, or they tie and stand as in the list. -/
theorem pairwise (h : StableSort before xs ys) (order : WeakOrderOn (· ∈ xs) before)
    {R : α → α → Prop} (stands : xs.Pairwise R) :
    ys.Pairwise fun a b => before a b ∨ ¬ before b a ∧ R a b := by
  classical
  rw [List.pairwise_iff_forall_sublist]
  intro a b hsub
  have hbehind : ¬ before b a := List.pairwise_iff_forall_sublist.mp h.ordered hsub
  have ha : a ∈ xs := h.perm.mem_iff.mp (hsub.subset List.mem_cons_self)
  refine or_iff_not_imp_left.mpr fun hahead => ⟨hbehind, ?_⟩
  have hself : ¬ before a a := fun haa => order.asymm a a ha ha haa haa
  have htied := hsub.filter fun b => ¬ before a b ∧ ¬ before b a
  rw [h.filter_tied order ha, List.filter_cons_of_pos (by simp [hself]),
    List.filter_cons_of_pos (by simp [hahead, hbehind])] at htied
  exact List.pairwise_iff_forall_sublist.mp stands (htied.trans List.filter_sublist)

open Classical in
/-- Lists in order in which the elements that tie stand alike are equal. -/
theorem eq_of_filter_tied (hy : ys.Pairwise fun a b => ¬ before b a)
    (hz : zs.Pairwise fun a b => ¬ before b a) (irreflexive : ∀ a ∈ ys, ¬ before a a)
    (perm : ys.Perm zs)
    (tied : ∀ a ∈ ys, ys.filter (fun b => ¬ before a b ∧ ¬ before b a) =
      zs.filter fun b => ¬ before a b ∧ ¬ before b a) : ys = zs := by
  induction ys generalizing zs with
  | nil => exact perm.nil_eq
  | cons y ys ih =>
      cases zs with
      | nil => exact perm.eq_nil
      | cons z zs =>
          have hyy := irreflexive y List.mem_cons_self
          have hyz : ¬ before y z := by
            rcases List.mem_cons.mp (perm.mem_iff.mp List.mem_cons_self) with rfl | hmem
            · exact hyy
            · exact (List.pairwise_cons.mp hz).1 y hmem
          have hzy : ¬ before z y := by
            rcases List.mem_cons.mp (perm.mem_iff.mpr List.mem_cons_self) with rfl | hmem
            · exact hyy
            · exact (List.pairwise_cons.mp hy).1 z hmem
          -- the first elements tie, and each is the first of those that tie with `y`
          have hfirst := tied y List.mem_cons_self
          rw [List.filter_cons_of_pos (by simp [hyy]), List.filter_cons_of_pos (by simp [hyz, hzy])]
            at hfirst
          obtain rfl : y = z := (List.cons.inj hfirst).1
          refine congrArg (y :: ·) (ih (List.pairwise_cons.mp hy).2 (List.pairwise_cons.mp hz).2
            (fun a ha => irreflexive a (List.mem_cons_of_mem _ ha)) (perm.cons_inv) ?_)
          intro a ha
          have hrest := tied a (List.mem_cons_of_mem _ ha)
          rw [List.filter_cons, List.filter_cons] at hrest
          split at hrest
          · exact (List.cons.inj hrest).2
          · exact hrest

/-- A list has one stable sort at most. -/
theorem unique (order : WeakOrderOn (· ∈ xs) before) (hy : StableSort before xs ys)
    (hz : StableSort before xs zs) : ys = zs := by
  refine eq_of_filter_tied hy.ordered hz.ordered ?_ (hy.perm.trans hz.perm.symm) ?_
  · intro a ha hself
    have hmem := hy.perm.mem_iff.mp ha
    exact order.asymm a a hmem hmem hself hself
  · intro a ha
    have hmem := hy.perm.mem_iff.mp ha
    rw [hy.filter_tied order hmem, hz.filter_tied order hmem]

end StableSort

/-! ## Insertion -/

section Insertion

variable (cmp : α → α → Ordering)

/-- An element goes behind all at the front that it is less than. -/
theorem insertDescending_split (a : α) (xs : List α) :
    ∃ front back, xs = front ++ back ∧ insertDescending cmp a xs = front ++ a :: back ∧
      (∀ b ∈ front, cmp a b = .lt) ∧ ∀ b ∈ back.head?, cmp a b ≠ .lt := by
  induction xs with
  | nil => exact ⟨[], [], rfl, rfl, by simp, by simp⟩
  | cons b rest ih =>
      by_cases hless : cmp a b = .lt
      · obtain ⟨front, back, hrest, hinsert, hfront, hback⟩ := ih
        refine ⟨b :: front, back, ?_, ?_, ?_, hback⟩
        · rw [hrest, List.cons_append]
        · rw [insertDescending, if_pos hless, hinsert, List.cons_append]
        · exact List.forall_mem_cons.mpr ⟨hless, hfront⟩
      · refine ⟨[], b :: rest, rfl, ?_, by simp, ?_⟩
        · rw [insertDescending, if_neg hless, List.nil_append]
        · intro c hc
          rwa [← Option.some.inj hc]

theorem insertDescending_perm (a : α) (xs : List α) : (insertDescending cmp a xs).Perm (a :: xs) := by
  obtain ⟨front, back, rfl, hinsert, -, -⟩ := insertDescending_split cmp a xs
  rw [hinsert]
  exact List.perm_middle

/-- The elements entered so far, the greatest one first. -/
theorem foldl_insertDescending_perm (xs sorted : List α) :
    (xs.foldl (fun sorted a => insertDescending cmp a sorted) sorted).Perm (sorted ++ xs) := by
  induction xs generalizing sorted with
  | nil => simp
  | cons a rest ih =>
      rw [List.foldl_cons]
      refine (ih _).trans ?_
      exact ((insertDescending_perm cmp a sorted).append_right rest).trans List.perm_middle.symm

theorem sortBy_perm (xs : List α) : (sortBy cmp xs).Perm xs := by
  rw [sortBy]
  exact (List.reverse_perm _).trans (foldl_insertDescending_perm cmp xs [])

theorem mem_sortBy (b : α) (xs : List α) : b ∈ sortBy cmp xs ↔ b ∈ xs :=
  (sortBy_perm cmp xs).mem_iff

/-- Sorting by a key sorts the images. -/
theorem sortBy_map (f : β → α) (xs : List β) :
    sortBy cmp (xs.map f) = (sortBy (fun a b => cmp (f a) (f b)) xs).map f := by
  have hinsert : ∀ (b : β) (ys : List β), insertDescending cmp (f b) (ys.map f) =
      (insertDescending (fun a b => cmp (f a) (f b)) b ys).map f := by
    intro b ys
    induction ys with
    | nil => rfl
    | cons y rest ih =>
        rw [List.map_cons, insertDescending, insertDescending]
        split
        · rw [ih, List.map_cons]
        · rfl
  have hfold : ∀ (ys sorted : List β),
      (ys.map f).foldl (fun sorted a => insertDescending cmp a sorted) (sorted.map f) =
        (ys.foldl (fun sorted a => insertDescending (fun a b => cmp (f a) (f b)) a sorted)
          sorted).map f := by
    intro ys
    induction ys with
    | nil =>
        intro sorted
        rfl
    | cons y rest ih =>
        intro sorted
        rw [List.map_cons, List.foldl_cons, List.foldl_cons, hinsert, ih]
  rw [sortBy, sortBy, List.map_reverse]
  exact congrArg List.reverse (hfold xs [])

variable {cmp} {before : α → α → Prop}

/-- Entering one element more into a stable sort. -/
theorem StableSort.insert {xs sorted : List α} {a : α} (h : StableSort before xs sorted.reverse)
    (order : WeakOrderOn (· ∈ xs ++ [a]) before)
    (less : ∀ b ∈ xs, cmp a b = .lt ↔ before a b) :
    StableSort before (xs ++ [a]) (insertDescending cmp a sorted).reverse := by
  obtain ⟨front, back, rfl, hinsert, hfront, hback⟩ := insertDescending_split cmp a sorted
  rw [List.reverse_append] at h
  have hmem : ∀ b ∈ back.reverse ++ front.reverse, b ∈ xs := fun b hb => h.perm.mem_iff.mp hb
  have hentered : ∀ b ∈ back.reverse ++ front.reverse, b ∈ xs ++ [a] :=
    fun b hb => List.mem_append_left _ (hmem b hb)
  have hself : a ∈ xs ++ [a] := List.mem_append_right _ (List.mem_singleton.mpr rfl)
  have ahead : ∀ b ∈ front.reverse, before a b := fun b hb =>
    (less b (hmem b (List.mem_append_right _ hb))).mp (hfront b (List.mem_reverse.mp hb))
  rw [hinsert, List.reverse_append, List.reverse_cons, List.append_assoc, List.singleton_append]
  refine h.enter ?_ ahead ?_
  · -- the greatest of the others is not greater, so none of them is
    intro b hb
    cases back with
    | nil => cases hb
    | cons top rest =>
        have htop : top ∈ (top :: rest).reverse := List.mem_reverse.mpr List.mem_cons_self
        have hless : ¬ before a top := fun hbefore =>
          hback top rfl ((less top (hmem top (List.mem_append_left _ htop))).mpr hbefore)
        rcases List.mem_cons.mp (List.mem_reverse.mp hb) with rfl | hrest
        · exact hless
        · have hordered := (List.pairwise_append.mp h.ordered).1
          rw [List.reverse_cons] at hordered
          have hbtop := (List.pairwise_append.mp hordered).2.2 b (List.mem_reverse.mpr hrest) top
            List.mem_cons_self
          exact order.trans b top a (hentered b (List.mem_append_left _ hb))
            (hentered top (List.mem_append_left _ htop)) hself hbtop hless
  · intro b hb
    exact order.asymm a b hself (hentered b (List.mem_append_right _ hb)) (ahead b hb)

/-- Where the comparison is a weak order of the elements, they get sorted stably. -/
theorem stableSort_sortBy {xs : List α} (order : WeakOrderOn (· ∈ xs) before)
    (less : ∀ a ∈ xs, ∀ b ∈ xs, cmp a b = .lt ↔ before a b) :
    StableSort before xs (sortBy cmp xs) := by
  have hfold : ∀ (todo done sorted : List α), done ++ todo = xs →
      StableSort before done sorted.reverse →
      StableSort before xs
        (todo.foldl (fun sorted a => insertDescending cmp a sorted) sorted).reverse := by
    intro todo
    induction todo with
    | nil =>
        intro done sorted hsplit h
        rw [← hsplit, List.append_nil]
        exact h
    | cons a rest ih =>
        intro done sorted hsplit h
        have hsplit' : (done ++ [a]) ++ rest = xs := by rw [← hsplit, List.append_assoc]; rfl
        have hmem : ∀ b ∈ done ++ [a], b ∈ xs :=
          fun b hb => hsplit' ▸ List.mem_append_left _ hb
        refine ih (done ++ [a]) _ hsplit' (h.insert (order.mono hmem) ?_)
        exact fun b hb => less a (hmem a (by simp)) b (hmem b (List.mem_append_left _ hb))
  exact hfold xs [] [] rfl .nil

end Insertion

end RowPipeline
