import Mathlib.Data.List.Chain
import Mathlib.Logic.Relation
import RowPipeline.Proofs.ExecutionOrder

/-!
# Orders and cycles

The search over the dependencies either lists all names that are reached from the declared ones, or it
stops at a cycle among them. The path of a visit leads from a declared name along dependencies, so a name
that is met on its own path closes a cycle; and an order in which every name comes after those it depends
on leaves no room for one. Dependencies may lead to names that are not declared.
-/

namespace RowPipeline

variable {dependencies : Record (List String)}

/-- The first name depends on the second. -/
def DependsOn (dependencies : Record (List String)) (name below : String) : Prop :=
  below ∈ namesBelow dependencies name

/-- A declared name, or one that declared names depend on through others. -/
def Reached (declared : List String) (dependencies : Record (List String)) (name : String) : Prop :=
  ∃ root ∈ declared, Relation.ReflTransGen (DependsOn dependencies) root name

/-- A name that depends on itself, perhaps through others. -/
def OnCycle (dependencies : Record (List String)) (name : String) : Prop :=
  Relation.TransGen (DependsOn dependencies) name name

/-- The path of a cycle: it leads from a name along dependencies back to it. -/
structure Cycle.Closed (dependencies : Record (List String)) (c : Cycle) : Prop where
  first : c.path.head? = some c.step
  last : c.path.getLast? = some c.step
  two_le : 2 ≤ c.path.length
  edges : c.path.IsChain (DependsOn dependencies)

theorem Reached.declared {declared : List String} {name : String} (h : name ∈ declared) :
    Reached declared dependencies name :=
  ⟨name, h, .refl⟩

theorem Reached.below {declared : List String} {name below : String}
    (h : Reached declared dependencies name) (hbelow : below ∈ namesBelow dependencies name) :
    Reached declared dependencies below := by
  obtain ⟨root, hroot, hpath⟩ := h
  exact ⟨root, hroot, hpath.tail hbelow⟩

/-- A list that holds what its names depend on holds all that they reach. -/
theorem Reached.mem_of_closed {declared names : List String} {name : String}
    (h : Reached declared dependencies name) (roots : ∀ root ∈ declared, root ∈ names)
    (closed : ∀ x ∈ names, ∀ d ∈ namesBelow dependencies x, d ∈ names) : name ∈ names := by
  obtain ⟨root, hroot, hpath⟩ := h
  induction hpath with
  | refl => exact roots root hroot
  | tail _ hstep ih => exact closed _ ih _ hstep

/-! ## Orders exclude cycles -/

/-- An order holds what its names depend on. -/
theorem DependenciesFirst.closed {dependsOn : String → List String} {order : List String}
    (h : DependenciesFirst dependsOn order) {name : String} (hname : name ∈ order) :
    ∀ d ∈ dependsOn name, d ∈ order := by
  obtain ⟨before, after, rfl⟩ := List.append_of_mem hname
  intro d hd
  exact List.mem_append_left _ (h before name after rfl d hd)

/-- No name of an order lies on a cycle. -/
theorem DependenciesFirst.acyclic {order : List String}
    (h : DependenciesFirst (namesBelow dependencies) order) :
    ∀ name ∈ order, ¬ OnCycle dependencies name := by
  have hacc : ∀ name ∈ order, Acc (fun below name => DependsOn dependencies name below) name := by
    refine h.induction ?_
    intro name _ hbelow
    constructor
    intro below hstep
    exact hbelow below hstep
  have hirreflexive : ∀ name,
      Acc (Relation.TransGen fun below name => DependsOn dependencies name below) name →
        ¬ Relation.TransGen (fun below name => DependsOn dependencies name below) name name := by
    intro name hname
    induction hname with
    | intro name _ ih => exact fun hself => ih name hself hself
  intro name hname hcycle
  apply hirreflexive name (hacc name hname).transGen
  -- the relation that is well founded is the one of the cycle read backwards
  rw [← Relation.transGen_swap]
  exact hcycle

/-! ## Cycles that are found -/

/-- A fold fails where one of its steps does. -/
theorem exists_of_foldlM_error {visit : Visit → String → Except Cycle Visit} {list : List String}
    {v : Visit} {c : Cycle} (h : list.foldlM visit v = .error c) :
    ∃ name ∈ list, ∃ u, visit u name = .error c := by
  induction list generalizing v with
  | nil => cases h
  | cons name rest ih =>
      rw [List.foldlM_cons] at h
      cases hone : visit v name with
      | error other =>
          rw [hone] at h
          cases h
          exact ⟨name, List.mem_cons_self, v, hone⟩
      | ok next =>
          rw [hone] at h
          obtain ⟨other, hother, u, hu⟩ := ih h
          exact ⟨other, List.mem_cons_of_mem _ hother, u, hu⟩

/-- A path that comes back to one of its names holds a cycle. -/
theorem cycleFrom_closed {path : List String} {name : String} (hname : name ∈ path)
    (chain : (path ++ [name]).IsChain (DependsOn dependencies)) :
    (cycleFrom name path).Closed dependencies := by
  obtain ⟨before, after, rfl, hbefore⟩ := List.eq_append_cons_of_mem hname
  have hfrom : (before ++ name :: after).dropWhile (· != name) = name :: after := by
    rw [List.dropWhile_append_of_pos]
    · simp
    · intro x hx
      simp only [bne_iff_ne]
      rintro rfl
      exact hbefore hx
  have hpath : (cycleFrom name (before ++ name :: after)).path = name :: (after ++ [name]) := by
    rw [cycleFrom, hfrom, List.cons_append]
  constructor
  · rw [hpath]
    rfl
  · rw [hpath, ← List.cons_append, List.getLast?_concat]
    rfl
  · rw [hpath]
    simp
  · rw [hpath]
    rw [List.append_assoc] at chain
    exact chain.right_of_append

/-- A closed path leads from its name back to it. -/
theorem Cycle.Closed.onCycle {c : Cycle} (h : c.Closed dependencies) :
    OnCycle dependencies c.step := by
  obtain ⟨step, path⟩ := c
  obtain ⟨first, last, two_le, edges⟩ := h
  match path, first, last, two_le, edges with
  | name :: next :: rest, first, last, _, edges =>
      obtain rfl : name = step := Option.some.inj first
      obtain ⟨hstep, hrest⟩ := List.isChain_cons_cons.mp edges
      refine Relation.TransGen.head' hstep ?_
      have hlast : (next :: rest).getLast (by simp) = name := by
        have hlast : (name :: next :: rest).getLast? = some name := last
        rw [List.getLast?_cons_cons, List.getLast?_eq_some_getLast (by simp)] at hlast
        exact Option.some.inj hlast
      exact List.relationReflTransGen_of_exists_isChain_cons rest hrest hlast

/-- A visit that fails has found a cycle, if its path leads along dependencies. -/
theorem Visit.node_error {declared : List String} (fuel : Nat) {path : List String} {v : Visit}
    {name : String} {c : Cycle} (chain : (path ++ [name]).IsChain (DependsOn dependencies))
    (hreached : Reached declared dependencies name)
    (h : Visit.node dependencies fuel path v name = .error c) :
    c.Closed dependencies ∧ Reached declared dependencies c.step := by
  induction fuel generalizing path v name with
  | zero => cases h
  | succ fuel ih =>
      rw [Visit.node] at h
      by_cases hpath : name ∈ path
      · rw [if_pos hpath] at h
        cases h
        exact ⟨cycleFrom_closed hpath chain, hreached⟩
      rw [if_neg hpath] at h
      by_cases hseen : name ∈ v.seen
      · rw [if_pos hseen] at h
        cases h
      rw [if_neg hseen] at h
      cases hinner : (namesBelow dependencies name).foldlM
          (fun visit dependency => Visit.node dependencies fuel (path ++ [name]) visit dependency)
          ({ v with seen := name :: v.seen } : Visit) with
      | ok inner =>
          rw [namesBelow] at hinner
          rw [hinner] at h
          cases h
      | error other =>
          obtain ⟨d, hd, u, hu⟩ := exists_of_foldlM_error hinner
          rw [namesBelow] at hinner
          rw [hinner] at h
          cases h
          -- the path is longer by an edge to the dependency
          refine ih ?_ (hreached.below hd) hu
          rw [List.append_assoc, List.singleton_append, List.isChain_append_cons_cons]
          exact ⟨chain, hd, List.isChain_singleton d⟩

/-! ## Declared orders -/

/-- A new name whose dependencies were all met before is done at once. -/
theorem Visit.node_next {fuel : Nat} {v : Visit} {name : String} (fresh : name ∉ v.seen)
    (met : ∀ d ∈ namesBelow dependencies name, d ∈ v.seen) :
    Visit.node dependencies (fuel + 2) [] v name = .ok ⟨name :: v.seen, v.order ++ [name]⟩ := by
  have hinner : ∀ list : List String, (∀ d ∈ list, d ∈ v.seen) →
      list.foldlM (fun visit d => Visit.node dependencies (fuel + 1) [name] visit d)
        ({ v with seen := name :: v.seen } : Visit) =
          .ok ({ v with seen := name :: v.seen } : Visit) := by
    intro list hlist
    induction list with
    | nil => rfl
    | cons d rest ih =>
        have hd : d ∈ v.seen := hlist d List.mem_cons_self
        have hother : d ≠ name := by
          rintro rfl
          exact fresh hd
        have hone : Visit.node dependencies (fuel + 1) [name]
            ({ v with seen := name :: v.seen } : Visit) d =
              .ok ({ v with seen := name :: v.seen } : Visit) := by
          rw [Visit.node, if_neg (by simpa using hother), if_pos (List.mem_cons_of_mem _ hd)]
        rw [List.foldlM_cons, hone]
        exact ih fun x hx => hlist x (List.mem_cons_of_mem _ hx)
  have hall := hinner _ met
  rw [namesBelow] at hall
  rw [Visit.node, if_neg List.not_mem_nil, if_neg fresh, List.nil_append, hall]
  rfl

/-- Declared names that come after their dependencies are done one after the other. -/
theorem Visit.fold_declared {fuel : Nat} {front rest : List String} (nodup : (front ++ rest).Nodup)
    (ordered : DependenciesFirst (namesBelow dependencies) (front ++ rest)) :
    rest.foldlM (fun visit node => Visit.node dependencies (fuel + 2) [] visit node)
      (⟨front.reverse, front⟩ : Visit) = .ok ⟨(front ++ rest).reverse, front ++ rest⟩ := by
  induction rest generalizing front with
  | nil =>
      rw [List.append_nil]
      rfl
  | cons name rest ih =>
      have fresh : name ∉ front.reverse := by
        rw [List.nodup_append] at nodup
        intro hmem
        exact nodup.2.2 name (List.mem_reverse.mp hmem) name List.mem_cons_self rfl
      have met : ∀ d ∈ namesBelow dependencies name, d ∈ front.reverse := by
        intro d hd
        exact List.mem_reverse.mpr (ordered front name rest rfl d hd)
      have hone := @Visit.node_next dependencies fuel ⟨front.reverse, front⟩ name fresh met
      have hsplit : front ++ name :: rest = front ++ [name] ++ rest := List.append_cons ..
      rw [List.foldlM_cons, hone, hsplit]
      rw [hsplit] at nodup ordered
      have hrest := ih nodup ordered
      rw [List.reverse_append] at hrest
      exact hrest

/-! ## The order found -/

/-- An order holds what is reached from the declared names. -/
theorem topologicalOrder_ok {declared order : List String}
    (h : topologicalOrder declared dependencies = .ok order) :
    order.Nodup ∧ (∀ name, name ∈ order ↔ Reached declared dependencies name) ∧
      DependenciesFirst (namesBelow dependencies) order := by
  have closed : ∀ x, Reached declared dependencies x → ∀ d ∈ namesBelow dependencies x,
      Reached declared dependencies d := fun x hx d hd => hx.below hd
  obtain ⟨hnodup, hreached, hdeclared, hordered⟩ :=
    topologicalOrder_ordered (fun x hx => Reached.declared hx) closed h
  refine ⟨hnodup, fun name => ⟨hreached name, fun hname => ?_⟩, hordered⟩
  exact hname.mem_of_closed hdeclared fun x hx => hordered.closed hx

/-- A search that fails has found a cycle that is reached from the declared names. -/
theorem topologicalOrder_error {declared : List String} {c : Cycle}
    (h : topologicalOrder declared dependencies = .error c) :
    c.Closed dependencies ∧ Reached declared dependencies c.step := by
  cases hfold : declared.foldlM
      (fun visit node => Visit.node dependencies (dependencies.size + 2) [] visit node)
      (⟨[], []⟩ : Visit) with
  | ok last =>
      rw [topologicalOrder, hfold] at h
      cases h
  | error other =>
      obtain ⟨root, hroot, u, hu⟩ := exists_of_foldlM_error hfold
      rw [topologicalOrder, hfold] at h
      cases h
      exact Visit.node_error _ (List.isChain_singleton root) (Reached.declared hroot) hu

theorem topologicalOrder_declared {declared : List String} (nodup : declared.Nodup)
    (ordered : DependenciesFirst (namesBelow dependencies) declared) :
    topologicalOrder declared dependencies = .ok declared := by
  have hfold := @Visit.fold_declared dependencies dependencies.size [] declared nodup ordered
  rw [List.reverse_nil, List.nil_append] at hfold
  rw [topologicalOrder, hfold]
  rfl

/-- The search gives an order if and only if no cycle is reached from the declared names. The order lists
exactly the names that are reached, each once and after all it depends on, and is the declared list
where that is such a list already. A search that fails tells a cycle that is reached. -/
theorem topologicalOrder_correct (declared : List String) (dependencies : Record (List String)) :
    ((∃ order, topologicalOrder declared dependencies = .ok order) ↔
      ¬ ∃ name, Reached declared dependencies name ∧ OnCycle dependencies name) ∧
    (∀ order, topologicalOrder declared dependencies = .ok order →
      order.Nodup ∧ (∀ name, name ∈ order ↔ Reached declared dependencies name) ∧
        DependenciesFirst (namesBelow dependencies) order ∧
        (declared.Nodup → DependenciesFirst (namesBelow dependencies) declared →
          order = declared)) ∧
    ∀ c, topologicalOrder declared dependencies = .error c →
      c.Closed dependencies ∧ Reached declared dependencies c.step := by
  refine ⟨⟨?_, ?_⟩, ?_, fun c hc => topologicalOrder_error hc⟩
  · rintro ⟨order, horder⟩ ⟨name, hreached, hcycle⟩
    obtain ⟨-, hmem, hordered⟩ := topologicalOrder_ok horder
    exact hordered.acyclic name ((hmem name).mpr hreached) hcycle
  · intro hacyclic
    cases hresult : topologicalOrder declared dependencies with
    | ok order => exact ⟨order, rfl⟩
    | error c =>
        obtain ⟨hclosed, hreached⟩ := topologicalOrder_error hresult
        exact absurd ⟨c.step, hreached, hclosed.onCycle⟩ hacyclic
  · intro order horder
    obtain ⟨hnodup, hmem, hordered⟩ := topologicalOrder_ok horder
    refine ⟨hnodup, hmem, hordered, ?_⟩
    intro unique declaredFirst
    rw [topologicalOrder_declared unique declaredFirst] at horder
    exact (Except.ok.inj horder).symm

/-- Three names of which each depends on another. -/
def circularNames : Record (List String) :=
  Record.ofList [("a", ["c"]), ("b", ["a"]), ("c", ["b"])]

/-- A report that depends on a table which is not declared. -/
def reportNames : Record (List String) :=
  Record.ofList [("report", ["joined", "orders"]), ("joined", ["orders", "customers"])]

theorem topologicalOrder_correct_report :
    (∃ order, topologicalOrder ["report", "joined"] reportNames = .ok order ∧
      order = ["orders", "customers", "joined", "report"] ∧ order.Nodup ∧
      DependenciesFirst (namesBelow reportNames) order) ∧
    ∃ c, topologicalOrder ["a", "b", "c"] circularNames = .error c ∧
      c.path = ["a", "c", "b", "a"] ∧ c.Closed circularNames := by
  have horder : topologicalOrder ["report", "joined"] reportNames =
      .ok ["orders", "customers", "joined", "report"] := rfl
  have hcycle : topologicalOrder ["a", "b", "c"] circularNames =
      .error ⟨"a", ["a", "c", "b", "a"]⟩ := rfl
  obtain ⟨-, hok, -⟩ := topologicalOrder_correct ["report", "joined"] reportNames
  obtain ⟨-, -, herror⟩ := topologicalOrder_correct ["a", "b", "c"] circularNames
  obtain ⟨hnodup, -, hordered, -⟩ := hok _ horder
  exact ⟨⟨_, horder, rfl, hnodup, hordered⟩, _, hcycle, rfl, (herror _ hcycle).1⟩

end RowPipeline
