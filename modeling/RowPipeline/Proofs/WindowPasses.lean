import Mathlib.Data.Finset.Card
import RowPipeline.Proofs.ExactKeys

/-!
# Passes over a sorted partition

The numbers of a window function are made in one pass that only looks at the entry before, and running
aggregates in one that only looks at the first of the peers met so far. In a partition that is in order
they count and reduce what they should: the entries that stand before, and those that do not stand behind.
-/

namespace RowPipeline.Window

variable {directions : List Bool} {dense : Bool} {passed rank : Nat} {e f : Entry}

/-- One entry stands strictly before another. -/
def Ahead (directions : List Bool) (e f : Entry) : Prop := KeyBefore directions e.sortKey f.sortKey

/-- Entries that are in order, with sort keys without doubles. -/
structure Ordered (directions : List Bool) (members : List Entry) : Prop where
  exact : ∀ e ∈ members, ExactKey directions e.sortKey
  inOrder : members.Pairwise fun e f => ¬ Ahead directions f e

namespace Ordered

variable {members front back : List Entry}

theorem of_sublist (h : Ordered directions members) (sub : front.Sublist members) :
    Ordered directions front :=
  ⟨fun e he => h.exact e (sub.subset he), h.inOrder.sublist sub⟩

/-- Nothing at the front stands behind what follows. -/
theorem not_ahead (h : Ordered directions (front ++ back)) (he : e ∈ front) (hf : f ∈ back) :
    ¬ Ahead directions f e :=
  (List.pairwise_append.mp h.inOrder).2.2 e he f hf

theorem not_ahead_self (h : Ordered directions members) (he : e ∈ members) :
    ¬ Ahead directions e e := (h.exact e he).not_before_self

theorem peers_iff (h : Ordered directions members) (he : e ∈ members) (hf : f ∈ members) :
    peers directions e f = true ↔ e.sortKey = f.sortKey := by
  rw [peers, decide_eq_true_eq]
  exact (h.exact e he).tied_iff (h.exact f hf)

/-- What stands at the front is a peer or stands before. -/
theorem ahead_of_not_peer (h : Ordered directions (front ++ back)) (he : e ∈ front) (hf : f ∈ back)
    (different : e.sortKey ≠ f.sortKey) : Ahead directions e f := by
  by_contra hnot
  exact different ((h.exact e (List.mem_append_left _ he)).eq_of_not_before
    (h.exact f (List.mem_append_right _ hf)) hnot (h.not_ahead he hf))

/-- What stands before an entry stands before all that follow it. -/
theorem ahead_of_ahead (h : Ordered directions (front ++ f :: back)) (he : e ∈ front)
    (before : Ahead directions e f) {g : Entry} (hg : g ∈ f :: back) : Ahead directions e g := by
  have htail := h.of_sublist (List.sublist_append_right front _)
  rcases List.mem_cons.mp hg with rfl | hback
  · exact before
  · exact (h.exact e (List.mem_append_left _ he)).before_of_before_of_not
      (h.exact f (List.mem_append_right _ List.mem_cons_self)) (h.exact g (List.mem_append_right _ hg))
      before ((List.pairwise_cons.mp htail.inOrder).1 g hback)

end Ordered

/-! ## Row numbers -/

theorem indices_rowNumbers (passed : Nat) (members : List Entry) :
    (rowNumbers passed members).map Prod.fst = members.map Entry.index := by
  induction members generalizing passed with
  | nil => rfl
  | cons e rest ih => rw [rowNumbers, List.map_cons, ih, List.map_cons]

/-- An entry gets the number of its place. -/
theorem mem_rowNumbers {members : List Entry} {p : Nat × Value} (h : p ∈ rowNumbers passed members) :
    ∃ front e back, members = front ++ e :: back ∧
      p = (e.index, .ofNat (passed + front.length + 1)) := by
  induction members generalizing passed with
  | nil => cases h
  | cons e rest ih =>
      rw [rowNumbers, List.mem_cons] at h
      rcases h with rfl | h
      · exact ⟨[], e, rest, rfl, rfl⟩
      · obtain ⟨front, f, back, rfl, rfl⟩ := ih h
        refine ⟨e :: front, f, back, rfl, ?_⟩
        rw [List.length_cons, Nat.add_comm front.length, Nat.add_assoc passed]

/-! ## Ranks -/

open Classical in
/-- How many of some keys stand before one, or how many different ones. -/
noncomputable def countBefore (dense : Bool) (directions : List Bool) (keys : List (List Value))
    (key : List Value) : Nat :=
  let before := keys.filter fun other => KeyBefore directions other key
  if dense then before.toFinset.card else before.length

theorem countBefore_perm {keys others : List (List Value)} (h : keys.Perm others)
    (key : List Value) : countBefore dense directions keys key =
      countBefore dense directions others key := by
  classical
  have hbefore := h.filter fun other => KeyBefore directions other key
  rw [countBefore, countBefore, hbefore.length_eq, List.toFinset_eq_of_perm _ _ hbefore]

/-- Keys that do not stand before do not count. -/
theorem countBefore_append {front back : List (List Value)} {key : List Value}
    (h : ∀ other ∈ back, ¬ KeyBefore directions other key) :
    countBefore dense directions (front ++ back) key = countBefore dense directions front key := by
  classical
  have hnone : back.filter (fun other => KeyBefore directions other key) = [] := by
    rw [List.filter_eq_nil_iff]
    exact fun other hother hbefore => h other hother (of_decide_eq_true hbefore)
  rw [countBefore, List.filter_append, hnone, List.append_nil, countBefore]

/-- Where all keys stand before, those that are not before the last one are equal to it. -/
theorem countBefore_concat {front : List (List Value)} {last key : List Value}
    (all : ∀ other ∈ front ++ [last], KeyBefore directions other key)
    (last_not : ¬ KeyBefore directions last last)
    (told : ∀ other ∈ front, KeyBefore directions other last ∨ other = last) :
    countBefore dense directions (front ++ [last]) key =
      if dense then countBefore dense directions front last + 1 else front.length + 1 := by
  classical
  have hall : (front ++ [last]).filter (fun other => KeyBefore directions other key) =
      front ++ [last] := List.filter_eq_self.mpr fun other hother => decide_eq_true (all other hother)
  rw [countBefore, hall]
  cases dense with
  | false => exact List.length_append
  | true =>
      have hkeys : (front ++ [last]).toFinset =
          insert last (front.filter fun other => KeyBefore directions other last).toFinset := by
        ext other
        simp only [List.mem_toFinset, List.mem_append, List.mem_singleton, Finset.mem_insert,
          List.mem_filter, decide_eq_true_eq]
        constructor
        · rintro (hfront | rfl)
          · exact (told other hfront).symm.imp_right fun hbefore => ⟨hfront, hbefore⟩
          · exact .inl rfl
        · rintro (rfl | ⟨hfront, -⟩)
          · exact .inr rfl
          · exact .inl hfront
      have hfresh : last ∉ (front.filter fun other => KeyBefore directions other last).toFinset := by
        rw [List.mem_toFinset, List.mem_filter]
        exact fun h => last_not (of_decide_eq_true h.2)
      rw [if_pos rfl, if_pos rfl, hkeys, Finset.card_insert_of_notMem hfresh]
      rfl

/-- The rank of the last of the entries done, if there is one: the next after all that stand before
it. -/
def RankOf (dense : Bool) (directions : List Bool) (done : List Entry) :
    Option Entry → Nat → Prop
  | none, rank => done = [] ∧ rank = 0
  | some last, rank => ∃ front, done = front ++ [last] ∧
      rank = 1 + countBefore dense directions (front.map Entry.sortKey) last.sortKey

theorem RankOf.next {done rest : List Entry} {previous : Option Entry}
    (ordered : Ordered directions (done ++ e :: rest))
    (h : RankOf dense directions done previous rank) :
    (if previous.any fun last => peers directions last e then rank
      else if dense then rank + 1 else done.length + 1) =
      1 + countBefore dense directions (done.map Entry.sortKey) e.sortKey := by
  cases previous with
  | none =>
      obtain ⟨rfl, rfl⟩ := h
      cases dense <;> rfl
  | some last =>
      obtain ⟨front, rfl, rfl⟩ := h
      have hlast : last ∈ front ++ [last] := List.mem_append_right _ (List.mem_singleton.mpr rfl)
      have hmem : ∀ f ∈ front ++ [last], f ∈ front ++ [last] ++ e :: rest :=
        fun f hf => List.mem_append_left _ hf
      have he : e ∈ front ++ [last] ++ e :: rest := List.mem_append_right _ List.mem_cons_self
      have hpeers := ordered.peers_iff (hmem last hlast) he
      have hself := ordered.not_ahead_self (hmem last hlast)
      rw [Option.any_some, List.map_append, List.map_singleton]
      by_cases hsame : last.sortKey = e.sortKey
      · rw [if_pos (hpeers.mpr hsame), ← hsame]
        refine congrArg (1 + ·) (countBefore_append ?_).symm
        intro other hother
        rw [List.mem_singleton.mp hother]
        exact hself
      · -- every entry done stands before the last one or is a peer of it
        have hfront : ∀ f ∈ front, Ahead directions f last ∨ f.sortKey = last.sortKey := by
          intro f hf
          have hsplit := ordered.of_sublist (List.sublist_append_left (front ++ [last]) _)
          by_cases hkey : f.sortKey = last.sortKey
          · exact .inr hkey
          · exact .inl (hsplit.ahead_of_not_peer hf (List.mem_singleton.mpr rfl) hkey)
        have hnext : Ahead directions last e :=
          ordered.ahead_of_not_peer hlast List.mem_cons_self hsame
        have hall : ∀ f ∈ front ++ [last], Ahead directions f e := by
          intro f hf
          rcases List.mem_append.mp hf with hf | hf
          · refine (ordered.exact f (hmem f (List.mem_append_left _ hf))).before_of_not_of_before
              (ordered.exact last (hmem last hlast)) (ordered.exact e he) ?_ hnext
            have hsplit := ordered.of_sublist (List.sublist_append_left (front ++ [last]) _)
            exact hsplit.not_ahead hf (List.mem_singleton.mpr rfl)
          · rwa [List.mem_singleton.mp hf]
        rw [if_neg (mt hpeers.mp hsame), countBefore_concat ?_ hself ?_]
        · rw [List.length_append, List.length_singleton, List.length_map]
          cases dense with
          | false => exact Nat.add_comm _ _
          | true => exact Nat.add_assoc _ _ _
        · rw [← List.map_singleton, ← List.map_append]
          exact List.forall_mem_map.mpr hall
        · exact List.forall_mem_map.mpr hfront

theorem indices_ranks (dense : Bool) (directions : List Bool) (passed : Nat)
    (previous : Option Entry) (rank : Nat) (members : List Entry) :
    (ranks dense directions passed previous rank members).map Prod.fst =
      members.map Entry.index := by
  induction members generalizing passed previous rank with
  | nil => rfl
  | cons e rest ih => rw [ranks, List.map_cons, ih, List.map_cons]

/-- An entry gets the next rank after all that stand before it. -/
theorem mem_ranks {done todo : List Entry} {previous : Option Entry} {p : Nat × Value}
    (ordered : Ordered directions (done ++ todo))
    (sofar : RankOf dense directions done previous rank)
    (h : p ∈ ranks dense directions done.length previous rank todo) :
    ∃ e ∈ todo, p = (e.index, .ofNat (1 + countBefore dense directions
      ((done ++ todo).map Entry.sortKey) e.sortKey)) := by
  induction todo generalizing done previous rank with
  | nil => cases h
  | cons e rest ih =>
      have hrank := sofar.next ordered
      have hcount : countBefore dense directions ((done ++ e :: rest).map Entry.sortKey) e.sortKey =
          countBefore dense directions (done.map Entry.sortKey) e.sortKey := by
        rw [List.map_append]
        -- what is still to come does not stand before
        refine countBefore_append (List.forall_mem_map.mpr fun f hf => ?_)
        have htail := ordered.of_sublist (List.sublist_append_right done _)
        rcases List.mem_cons.mp hf with rfl | hf
        · exact htail.not_ahead_self List.mem_cons_self
        · exact (List.pairwise_cons.mp htail.inOrder).1 f hf
      rw [ranks, List.mem_cons, hrank] at h
      rcases h with rfl | h
      · exact ⟨e, List.mem_cons_self, by rw [hcount]⟩
      · have hsplit : done ++ e :: rest = done ++ [e] ++ rest := by
          rw [List.append_assoc, List.singleton_append]
        rw [hsplit] at ordered ⊢
        have hlast : RankOf dense directions (done ++ [e]) (some e)
            (1 + countBefore dense directions (done.map Entry.sortKey) e.sortKey) := ⟨done, rfl, rfl⟩
        have hlength : done.length + 1 = (done ++ [e]).length := by
          rw [List.length_append, List.length_singleton]
        rw [hlength] at h
        obtain ⟨f, hf, heq⟩ := ih ordered hlast h
        exact ⟨f, List.mem_cons_of_mem e hf, heq⟩

/-! ## Running aggregates -/

open Classical in
/-- The arguments of the entries that do not stand behind one, in order. -/
noncomputable def upTo (directions : List Bool) (pairs : List (Entry × Value)) (e : Entry) :
    List Value :=
  (pairs.filter fun pair => ¬ Ahead directions e pair.1).map Prod.snd

/-- The peers met so far: none before the first entry, and later entries with the key of the first of
them. -/
def PeersMet (old run : List (Entry × Value)) : Option Entry → Prop
  | none => old = [] ∧ run = []
  | some first => first ∈ run.map Prod.fst ∧ ∀ pair ∈ run, pair.1.sortKey = first.sortKey

theorem upTo_eq {front back : List (Entry × Value)}
    (notBehind : ∀ pair ∈ front, ¬ Ahead directions e pair.1)
    (behind : ∀ pair ∈ back, Ahead directions e pair.1) :
    upTo directions (front ++ back) e = front.map Prod.snd := by
  classical
  have hfront : front.filter (fun pair => ¬ Ahead directions e pair.1) = front :=
    List.filter_eq_self.mpr fun pair hpair => decide_eq_true (notBehind pair hpair)
  have hback : back.filter (fun pair => ¬ Ahead directions e pair.1) = [] := by
    rw [List.filter_eq_nil_iff]
    exact fun pair hpair hnot => of_decide_eq_true hnot (behind pair hpair)
  rw [upTo, List.filter_append, hfront, hback, List.append_nil]

theorem indices_runningFrom (func : AggregateFunction) (directions : List Bool) (seen : List Value)
    (run : List Nat) (previous : Option Entry) (todo : List (Entry × Value))
    (fresh : previous = none → run = []) :
    (runningFrom func directions seen run previous todo).map Prod.fst =
      run ++ todo.map fun pair => pair.1.index := by
  have hrun : ∀ (v : Value) (run : List Nat), (run.map fun index => (index, v)).map Prod.fst = run := by
    intro v run
    rw [List.map_map]
    exact List.map_id run
  induction todo generalizing seen run previous with
  | nil => rw [runningFrom, hrun, List.map_nil, List.append_nil]
  | cons pair rest ih =>
      obtain ⟨e, arg⟩ := pair
      cases previous with
      | none =>
          rw [fresh rfl]
          exact ih _ _ (some e) nofun
      | some first =>
          rw [runningFrom]
          split
          · rw [ih _ _ (some first) nofun, List.append_assoc, List.map_cons, List.singleton_append]
          · rw [List.map_append, hrun, ih _ _ (some e) nofun, List.map_cons, List.singleton_append]

/-- Of the entries done none stands behind the peers met last. -/
theorem PeersMet.not_ahead {old run : List (Entry × Value)} {previous : Option Entry}
    (met : PeersMet old run previous) (ordered : Ordered directions ((old ++ run).map Prod.fst))
    {pair : Entry × Value} (hpair : pair ∈ run) :
    ∀ other ∈ old ++ run, ¬ Ahead directions pair.1 other.1 := by
  intro other hother
  have hmem : pair.1 ∈ (old ++ run).map Prod.fst :=
    List.mem_map_of_mem (List.mem_append_right old hpair)
  rcases List.mem_append.mp hother with hold | hrun
  · rw [List.map_append] at ordered
    exact ordered.not_ahead (List.mem_map_of_mem hold) (List.mem_map_of_mem hpair)
  · cases previous with
    | none =>
        rw [met.2] at hpair
        cases hpair
    | some first =>
        rw [Ahead, met.2 other hrun, ← met.2 pair hpair]
        exact ordered.not_ahead_self hmem

/-- The peers met last get the aggregate of the entries done, once what is to come stands behind them. -/
theorem PeersMet.flushed {func : AggregateFunction} {old run todo : List (Entry × Value)}
    {previous : Option Entry} {p : Nat × Value} (met : PeersMet old run previous)
    (ordered : Ordered directions ((old ++ run ++ todo).map Prod.fst))
    (behind : ∀ pair ∈ run, ∀ other ∈ todo, Ahead directions pair.1 other.1)
    (h : p ∈ (run.map fun pair => pair.1.index).map fun index =>
      (index, aggregateValues func ((old ++ run).map Prod.snd))) :
    ∃ pair ∈ run ++ todo, p = (pair.1.index,
      aggregateValues func (upTo directions (old ++ run ++ todo) pair.1)) := by
  have hdone : Ordered directions ((old ++ run).map Prod.fst) :=
    ordered.of_sublist ((List.sublist_append_left _ _).map _)
  rw [List.map_map] at h
  obtain ⟨pair, hpair, rfl⟩ := List.mem_map.mp h
  refine ⟨pair, List.mem_append_left _ hpair, ?_⟩
  rw [upTo_eq (met.not_ahead hdone hpair) (behind pair hpair)]
  rfl

/-- An entry gets the aggregate of the entries up to it and its peers. -/
theorem mem_runningFrom {func : AggregateFunction} {old run todo : List (Entry × Value)}
    {previous : Option Entry} {p : Nat × Value}
    (ordered : Ordered directions ((old ++ run ++ todo).map Prod.fst))
    (met : PeersMet old run previous)
    (h : p ∈ runningFrom func directions ((old ++ run).map Prod.snd)
      (run.map fun pair => pair.1.index) previous todo) :
    ∃ pair ∈ run ++ todo, p = (pair.1.index,
      aggregateValues func (upTo directions (old ++ run ++ todo) pair.1)) := by
  induction todo generalizing old run previous with
  | nil => exact met.flushed ordered (fun _ _ => nofun) h
  | cons pair rest ih =>
      obtain ⟨e, arg⟩ := pair
      cases previous with
      | none =>
          obtain ⟨rfl, rfl⟩ := met
          have hmet : PeersMet [] [(e, arg)] (some e) := by simp [PeersMet]
          exact ih ordered hmet h
      | some first =>
          -- the next entry is compared with the first of the peers only, which has the key of all
          have hsplit := ordered
          rw [List.map_append, List.map_cons] at hsplit
          have hfirst : first ∈ (old ++ run).map Prod.fst := by
            rw [List.map_append]
            exact List.mem_append_right _ met.1
          have hpeers := hsplit.peers_iff (List.mem_append_left _ hfirst)
            (List.mem_append_right _ List.mem_cons_self)
          rw [runningFrom] at h
          split at h
          · -- one more peer
            rename_i hpeer
            have hmet : PeersMet old (run ++ [(e, arg)]) (some first) := by
              refine ⟨by simp [met.1], fun pair hpair => ?_⟩
              rcases List.mem_append.mp hpair with hpair | hpair
              · exact met.2 pair hpair
              · rw [List.mem_singleton.mp hpair, hpeers.mp hpeer]
            have hwhole : old ++ run ++ (e, arg) :: rest = old ++ (run ++ [(e, arg)]) ++ rest := by
              simp
            rw [hwhole] at ordered ⊢
            obtain ⟨pair, hpair, heq⟩ := ih ordered hmet (by simpa using h)
            exact ⟨pair, by simpa using hpair, heq⟩
          · -- the first entry behind the peers
            rename_i hpeer
            rcases List.mem_append.mp h with hflushed | hlater
            · refine met.flushed ordered ?_ hflushed
              have hnext := hsplit.ahead_of_not_peer hfirst List.mem_cons_self (mt hpeers.mpr hpeer)
              intro pair hpair other hother
              rw [Ahead, met.2 pair hpair]
              exact hsplit.ahead_of_ahead hfirst hnext (List.mem_map_of_mem hother)
            · have hmet : PeersMet (old ++ run) [(e, arg)] (some e) := by simp [PeersMet]
              have hwhole : old ++ run ++ (e, arg) :: rest = old ++ run ++ [(e, arg)] ++ rest := by
                simp
              rw [hwhole] at ordered ⊢
              obtain ⟨pair, hpair, heq⟩ := ih ordered hmet (by simpa using hlater)
              exact ⟨pair, List.mem_append_right _ hpair, heq⟩

end RowPipeline.Window
