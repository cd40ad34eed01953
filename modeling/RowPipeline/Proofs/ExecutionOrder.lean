import Mathlib.Data.List.Induction
import Mathlib.Data.List.Nodup
import Mathlib.Data.List.Perm.Subperm
import RowPipeline.Document.Order
import RowPipeline.Proofs.Record

/-!
# Execution order

The order found by the search lists each declared name once, after all the names it depends on. The
invariant of the search is that a name met before is done, unless it lies on the current path.
-/

namespace RowPipeline

/-- Each name of a list comes after all the names it depends on. -/
def DependenciesFirst (dependsOn : String → List String) (order : List String) : Prop :=
  ∀ before name after, order = before ++ name :: after → ∀ d ∈ dependsOn name, d ∈ before

namespace DependenciesFirst

variable {dependsOn : String → List String}

theorem nil : DependenciesFirst dependsOn [] := by
  intro before name after h
  exact absurd h (by simp)

/-- A list stays ordered when a name follows whose dependencies it holds. -/
theorem snoc {order : List String} (h : DependenciesFirst dependsOn order) {name : String}
    (hdeps : ∀ d ∈ dependsOn name, d ∈ order) : DependenciesFirst dependsOn (order ++ [name]) := by
  intro before other after heq d hd
  rcases List.eq_nil_or_concat after with rfl | ⟨init, last, rfl⟩
  · have hparts := List.append_inj' heq rfl
    obtain ⟨horder, hname⟩ := hparts
    injection hname with hname _
    subst hname
    exact horder ▸ hdeps d hd
  · rw [List.concat_eq_append, ← List.cons_append, ← List.append_assoc] at heq
    have hparts := List.append_inj' heq rfl
    exact h before other init hparts.1 d hd

/-- The front of an ordered list is ordered. -/
theorem front {before after : List String}
    (h : DependenciesFirst dependsOn (before ++ after)) : DependenciesFirst dependsOn before := by
  intro first name rest heq d hd
  exact h first name (rest ++ after) (by simp [heq]) d hd

/-- What follows for a name from its dependencies holds of every name of an ordered list. -/
theorem induction {order : List String} (h : DependenciesFirst dependsOn order) {P : String → Prop}
    (step : ∀ name ∈ order, (∀ d ∈ dependsOn name, P d) → P name) : ∀ name ∈ order, P name := by
  induction order using List.reverseRecOn with
  | nil => simp
  | append_singleton front last ih =>
      have hfront := ih h.front fun name hname => step name (List.mem_append_left _ hname)
      intro name hname
      rcases List.mem_append.mp hname with hname | hname
      · exact hfront name hname
      · rw [List.mem_singleton.mp hname]
        refine step last (by simp) ?_
        intro d hd
        exact hfront d (h front last [] rfl d hd)

end DependenciesFirst

/-- The names a name depends on. -/
def namesBelow (dependencies : Record (List String)) (name : String) : List String :=
  (dependencies.get? name).getD []

/-- A name that depends on another is a key of the dependencies. -/
theorem mem_keys_of_below {dependencies : Record (List String)} {name other : String}
    (h : other ∈ namesBelow dependencies name) : name ∈ dependencies.keys := by
  rw [namesBelow] at h
  cases hget : dependencies.get? name with
  | none => simp [hget] at h
  | some names => exact Record.mem_keys_of_get? hget

/-- A list of different keys is no longer than the record. -/
theorem length_le_size {dependencies : Record (List String)} {path : List String}
    (nodup : path.Nodup) (keys : ∀ x ∈ path, x ∈ dependencies.keys) :
    path.length ≤ dependencies.size := by
  rw [← Record.length_keys]
  exact (List.subperm_of_subset nodup keys).length_le

/-- A list without repetition stays one when a new name follows. -/
theorem nodup_snoc {names : List String} (nodup : names.Nodup) {name : String}
    (fresh : name ∉ names) : (names ++ [name]).Nodup := by
  rw [← List.concat_eq_append]
  exact nodup.concat fresh

/-! ## The search -/

/-- What holds between two visits reached along `path`. -/
structure Visit.Sound (dependencies : Record (List String)) (path : List String) (v : Visit) :
    Prop where
  /-- A name met before is done or lies on the path. -/
  settled : ∀ x ∈ v.seen, x ∈ v.order ∨ x ∈ path
  done_seen : ∀ x ∈ v.order, x ∈ v.seen
  path_seen : ∀ x ∈ path, x ∈ v.seen
  apart : ∀ x ∈ path, x ∉ v.order
  nodup : v.order.Nodup
  ordered : DependenciesFirst (namesBelow dependencies) v.order

/-- What a visit leaves behind: the invariant, the name among the done ones, and what was done
before at its place. New names come from a closed set. -/
structure Visit.Reaches (dependencies : Record (List String)) (named : String → Prop)
    (path : List String) (v v' : Visit) : Prop where
  sound : v'.Sound dependencies path
  grows : v.order <+: v'.order
  within : ∀ x ∈ v'.order, x ∈ v.order ∨ named x

namespace Visit

variable {dependencies : Record (List String)} {named : String → Prop} {path : List String}

theorem Sound.initial : (⟨[], []⟩ : Visit).Sound dependencies [] :=
  { settled := by simp
    done_seen := by simp
    path_seen := by simp
    apart := by simp
    nodup := .nil
    ordered := .nil }

theorem Reaches.refl {v : Visit} (h : v.Sound dependencies path) :
    Reaches dependencies named path v v :=
  ⟨h, List.prefix_refl _, fun _ hx => .inl hx⟩

theorem Reaches.trans {u v w : Visit} (h₁ : Reaches dependencies named path u v)
    (h₂ : Reaches dependencies named path v w) : Reaches dependencies named path u w := by
  refine ⟨h₂.sound, h₁.grows.trans h₂.grows, ?_⟩
  intro x hx
  rcases h₂.within x hx with hv | hnamed
  · exact h₁.within x hv
  · exact .inr hnamed

/-- Entering a new name puts it on the path. -/
theorem Sound.enter {v : Visit} (h : v.Sound dependencies path) {name : String}
    (fresh : name ∉ v.seen) :
    ({ v with seen := name :: v.seen } : Visit).Sound dependencies (path ++ [name]) where
  settled := by
    intro x hx
    rcases List.mem_cons.mp hx with rfl | hx
    · exact .inr (by simp)
    · rcases h.settled x hx with hdone | hpath
      · exact .inl hdone
      · exact .inr (by simp [hpath])
  done_seen := fun x hx => List.mem_cons_of_mem _ (h.done_seen x hx)
  path_seen := by
    intro x hx
    rcases List.mem_append.mp hx with hx | hx
    · exact List.mem_cons_of_mem _ (h.path_seen x hx)
    · rw [List.mem_singleton.mp hx]
      exact List.mem_cons_self
  apart := by
    intro x hx hdone
    rcases List.mem_append.mp hx with hx | hx
    · exact h.apart x hx hdone
    · rw [List.mem_singleton.mp hx] at hdone
      exact fresh (h.done_seen _ hdone)
  nodup := h.nodup
  ordered := h.ordered

/-- Leaving a name takes it off the path and lists it as done. -/
theorem Sound.leave {v : Visit} {name : String} (h : v.Sound dependencies (path ++ [name]))
    (off : name ∉ path) (hdeps : ∀ d ∈ namesBelow dependencies name, d ∈ v.order) :
    ({ v with order := v.order ++ [name] } : Visit).Sound dependencies path where
  settled := by
    intro x hx
    rcases h.settled x hx with hdone | hpath
    · exact .inl (by simp [hdone])
    · rcases List.mem_append.mp hpath with hpath | hlast
      · exact .inr hpath
      · exact .inl (by simp [List.mem_singleton.mp hlast])
  done_seen := by
    intro x hx
    rcases List.mem_append.mp hx with hx | hx
    · exact h.done_seen x hx
    · rw [List.mem_singleton.mp hx]
      exact h.path_seen name (by simp)
  path_seen := fun x hx => h.path_seen x (by simp [hx])
  apart := by
    intro x hx hdone
    rcases List.mem_append.mp hdone with hdone | hlast
    · exact h.apart x (by simp [hx]) hdone
    · rw [List.mem_singleton.mp hlast] at hx
      exact off hx
  nodup := nodup_snoc h.nodup (h.apart name (by simp))
  ordered := h.ordered.snoc hdeps

/-- Visiting names one after the other, each by a visit that reaches it. -/
theorem Reaches.fold {visit : Visit → String → Except Cycle Visit} {list : List String}
    (step : ∀ v v' name, name ∈ list → v.Sound dependencies path → visit v name = .ok v' →
      Reaches dependencies named path v v' ∧ name ∈ v'.order)
    {v v' : Visit} (hv : v.Sound dependencies path) (h : list.foldlM visit v = .ok v') :
    Reaches dependencies named path v v' ∧ ∀ name ∈ list, name ∈ v'.order := by
  induction list generalizing v with
  | nil =>
      cases h
      exact ⟨.refl hv, by simp⟩
  | cons name rest ih =>
      rw [List.foldlM_cons] at h
      cases hone : visit v name with
      | error cycle =>
          rw [hone] at h
          cases h
      | ok next =>
          rw [hone] at h
          obtain ⟨hfirst, hdone⟩ := step v next name List.mem_cons_self hv hone
          obtain ⟨hrest, hall⟩ := ih
            (fun u u' other hother => step u u' other (List.mem_cons_of_mem _ hother))
            hfirst.sound h
          refine ⟨hfirst.trans hrest, ?_⟩
          intro other hother
          rcases List.mem_cons.mp hother with rfl | hother
          · exact hrest.grows.subset hdone
          · exact hall other hother

/-- A visit that ends has done its name. The path holds different keys, so the fuel outlasts it. -/
theorem node_reaches (closed : ∀ x, named x → ∀ d ∈ namesBelow dependencies x, named d)
    (fuel : Nat) {path : List String} (nodup : path.Nodup)
    (keys : ∀ x ∈ path, x ∈ dependencies.keys)
    (enough : dependencies.size + 2 ≤ fuel + path.length) {v v' : Visit} {name : String}
    (hname : named name) (hv : v.Sound dependencies path)
    (h : Visit.node dependencies fuel path v name = .ok v') :
    Reaches dependencies named path v v' ∧ name ∈ v'.order := by
  induction fuel generalizing path v v' name with
  | zero =>
      have := length_le_size nodup keys
      omega
  | succ fuel ih =>
      rw [Visit.node] at h
      by_cases hpath : name ∈ path
      · rw [if_pos hpath] at h
        cases h
      rw [if_neg hpath] at h
      by_cases hseen : name ∈ v.seen
      · rw [if_pos hseen] at h
        cases h
        refine ⟨.refl hv, ?_⟩
        rcases hv.settled name hseen with hdone | hon
        · exact hdone
        · exact absurd hon hpath
      rw [if_neg hseen] at h
      cases hinner : (namesBelow dependencies name).foldlM
          (fun visit dependency => Visit.node dependencies fuel (path ++ [name]) visit dependency)
          ({ v with seen := name :: v.seen } : Visit) with
      | error cycle =>
          rw [namesBelow] at hinner
          rw [hinner] at h
          cases h
      | ok inner =>
          -- a dependency is visited only along a path whose names are keys
          have step : ∀ u u' d, d ∈ namesBelow dependencies name →
              u.Sound dependencies (path ++ [name]) →
              Visit.node dependencies fuel (path ++ [name]) u d = .ok u' →
              Reaches dependencies named (path ++ [name]) u u' ∧ d ∈ u'.order := by
            intro u u' d hd hu hnode
            refine ih (nodup_snoc nodup hpath) ?_ ?_ (closed name hname d hd) hu hnode
            · intro x hx
              rcases List.mem_append.mp hx with hx | hx
              · exact keys x hx
              · rw [List.mem_singleton.mp hx]
                exact mem_keys_of_below hd
            · simp only [List.length_append, List.length_singleton]
              omega
          obtain ⟨hreach, hdone⟩ := Reaches.fold step (hv.enter hseen) hinner
          rw [namesBelow] at hinner
          rw [hinner] at h
          cases h
          refine ⟨⟨hreach.sound.leave hpath hdone, ?_, ?_⟩, by simp⟩
          · exact hreach.grows.trans (List.prefix_append _ _)
          · intro x hx
            rcases List.mem_append.mp hx with hx | hx
            · exact hreach.within x hx
            · rw [List.mem_singleton.mp hx]
              exact .inr hname

end Visit

/-- An order lists each of its names once and after the names it depends on. It holds the declared
names, and none outside a closed set that they come from. -/
theorem topologicalOrder_ordered {declared : List String} {dependencies : Record (List String)}
    {named : String → Prop} (roots : ∀ x ∈ declared, named x)
    (closed : ∀ x, named x → ∀ d ∈ namesBelow dependencies x, named d)
    {order : List String} (h : topologicalOrder declared dependencies = .ok order) :
    order.Nodup ∧ (∀ x ∈ order, named x) ∧ (∀ x ∈ declared, x ∈ order) ∧
      DependenciesFirst (namesBelow dependencies) order := by
  cases hfold : declared.foldlM
      (fun visit node => Visit.node dependencies (dependencies.size + 2) [] visit node)
      (⟨[], []⟩ : Visit) with
  | error cycle =>
      rw [topologicalOrder, hfold] at h
      cases h
  | ok last =>
      rw [topologicalOrder, hfold] at h
      cases h
      have step : ∀ u u' name, name ∈ declared → u.Sound dependencies [] →
          Visit.node dependencies (dependencies.size + 2) [] u name = .ok u' →
          Visit.Reaches dependencies named [] u u' ∧ name ∈ u'.order := by
        intro u u' name hname hu hnode
        exact Visit.node_reaches closed _ .nil (by simp) (by simp) (roots name hname) hu hnode
      obtain ⟨hreach, hdone⟩ := Visit.Reaches.fold step .initial hfold
      refine ⟨hreach.sound.nodup, ?_, hdone, hreach.sound.ordered⟩
      intro x hx
      rcases hreach.within x hx with hnone | hnamed
      · simp at hnone
      · exact hnamed

/-- The order lists the declared names, each once and after the names it depends on, if these are
declared too. -/
theorem topologicalOrder_sound {declared : List String} {dependencies : Record (List String)}
    (closed : ∀ x ∈ declared, ∀ d ∈ namesBelow dependencies x, d ∈ declared)
    {order : List String} (h : topologicalOrder declared dependencies = .ok order) :
    order.Nodup ∧ (∀ x, x ∈ order ↔ x ∈ declared) ∧
      DependenciesFirst (namesBelow dependencies) order := by
  obtain ⟨hnodup, hdeclared, hall, hordered⟩ :=
    @topologicalOrder_ordered _ _ (· ∈ declared) (fun _ hx => hx) closed _ h
  exact ⟨hnodup, fun x => ⟨hdeclared x, hall x⟩, hordered⟩

end RowPipeline
