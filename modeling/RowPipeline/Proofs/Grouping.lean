import RowPipeline.Grouping
import RowPipeline.Proofs.DocumentChecks

/-!
# Laws of grouping

The keys of the groups are the keys of the list, each once and in order of first appearance, and a group
holds elements with its key only. So the elements that are left of those with one key tell the keys.
-/

namespace RowPipeline

variable {α : Type}

/-! ## Members -/

/-- One more element is in one of the groups. -/
theorem addToGroup_perm (key : String) (a : α) (groups : List (String × List α)) :
    ((addToGroup key a groups).flatMap Prod.snd).Perm (a :: groups.flatMap Prod.snd) := by
  induction groups with
  | nil => exact .refl _
  | cons g rest ih =>
      obtain ⟨k, members⟩ := g
      unfold addToGroup
      split
      · show ((members ++ [a]) ++ rest.flatMap Prod.snd).Perm (a :: (members ++ rest.flatMap Prod.snd))
        rw [List.append_assoc]
        exact List.perm_middle
      · show (members ++ (addToGroup key a rest).flatMap Prod.snd).Perm
          (a :: (members ++ rest.flatMap Prod.snd))
        exact (ih.append_left members).trans List.perm_middle

/-- Each element is in one group, once. -/
theorem groupByKey_perm (key : α → String) (xs : List α) :
    ((groupByKey key xs).flatMap Prod.snd).Perm xs := by
  induction xs using List.reverseRecOn with
  | nil => exact .nil
  | append_singleton xs a ih =>
      have hstep : groupByKey key (xs ++ [a]) = addToGroup (key a) a (groupByKey key xs) := by
        unfold groupByKey
        rw [List.foldl_append]
        rfl
      rw [hstep]
      exact (addToGroup_perm ..).trans ((ih.cons a).trans (List.perm_append_singleton a xs).symm)

/-- A group holds elements of the list. -/
theorem mem_of_mem_groupByKey {key : α → String} {xs : List α} {g : String × List α} {a : α}
    (hg : g ∈ groupByKey key xs) (ha : a ∈ g.2) : a ∈ xs :=
  (groupByKey_perm key xs).mem_iff.mp (List.mem_flatMap.mpr ⟨g, hg, ha⟩)

/-! ## Keys -/

/-- Each group has members, all of them with its key. -/
def KeyedGroups (key : α → String) (groups : List (String × List α)) : Prop :=
  ∀ g ∈ groups, g.2 ≠ [] ∧ ∀ a ∈ g.2, key a = g.1

theorem keys_addToGroup (key : String) (a : α) (groups : List (String × List α)) :
    (addToGroup key a groups).map Prod.fst = addName (groups.map Prod.fst) key := by
  induction groups with
  | nil => rfl
  | cons g rest ih =>
      obtain ⟨k, members⟩ := g
      rw [addToGroup]
      by_cases hk : k = key
      · simp [hk, addName]
      · rw [if_neg hk, List.map_cons, ih, List.map_cons, addName, addName]
        by_cases hmem : key ∈ rest.map Prod.fst
        · rw [if_pos hmem, if_pos (List.mem_cons_of_mem _ hmem)]
        · have hnot : key ∉ k :: rest.map Prod.fst := by
            rw [List.mem_cons, not_or]
            exact ⟨fun h => hk h.symm, hmem⟩
          rw [if_neg hmem, if_neg hnot, List.cons_append]

theorem KeyedGroups.enter {key : α → String} {groups : List (String × List α)}
    (h : KeyedGroups key groups) (a : α) : KeyedGroups key (addToGroup (key a) a groups) := by
  induction groups with
  | nil =>
      intro g hg
      obtain rfl := List.mem_singleton.mp hg
      exact ⟨List.cons_ne_nil _ _, fun b hb => by rw [List.mem_singleton.mp hb]⟩
  | cons head rest ih =>
      obtain ⟨k, members⟩ := head
      obtain ⟨hhead, hrest⟩ := List.forall_mem_cons.mp h
      rw [addToGroup]
      by_cases hk : k = key a
      · rw [if_pos hk]
        refine List.forall_mem_cons.mpr ⟨⟨by simp, ?_⟩, hrest⟩
        intro b hb
        rcases List.mem_append.mp hb with hb | hb
        · exact hhead.2 b hb
        · rw [List.mem_singleton.mp hb]
          exact hk.symm
      · rw [if_neg hk]
        exact List.forall_mem_cons.mpr ⟨hhead, ih hrest⟩

/-- The keys of the groups, and what the groups hold. -/
theorem groupByKey_keyed (key : α → String) (xs : List α) :
    (groupByKey key xs).map Prod.fst = (xs.map key).foldl addName [] ∧
      KeyedGroups key (groupByKey key xs) := by
  have hfold : ∀ groups : List (String × List α), KeyedGroups key groups →
      (xs.foldl (fun groups a => addToGroup (key a) a groups) groups).map Prod.fst =
          (xs.map key).foldl addName (groups.map Prod.fst) ∧
        KeyedGroups key (xs.foldl (fun groups a => addToGroup (key a) a groups) groups) := by
    induction xs with
    | nil => exact fun groups h => ⟨rfl, h⟩
    | cons a rest ih =>
        intro groups h
        obtain ⟨hkeys, hkeyed⟩ := ih (addToGroup (key a) a groups) (h.enter a)
        rw [keys_addToGroup] at hkeys
        exact ⟨hkeys, hkeyed⟩
  exact hfold [] nofun

/-- Entering an element into groups that are given by their keys. -/
theorem addToGroup_map (key : String) (a : α) {keys : List String} (nodup : keys.Nodup)
    {members : String → List α} (fresh : key ∉ keys → members key = []) :
    addToGroup key a (keys.map fun k => (k, members k)) =
      (addName keys key).map fun k => (k, if k = key then members k ++ [a] else members k) := by
  have hothers : ∀ ks : List String, key ∉ ks → ks.map (fun k => (k, members k)) =
      ks.map fun k => (k, if k = key then members k ++ [a] else members k) := by
    intro ks hks
    refine List.map_congr_left fun k hk => ?_
    rw [if_neg fun heq : k = key => hks (heq ▸ hk)]
  induction keys with
  | nil => simp [addToGroup, addName, fresh]
  | cons k rest ih =>
      obtain ⟨hk, hrest⟩ := List.nodup_cons.mp nodup
      rw [List.map_cons, addToGroup]
      by_cases hkey : k = key
      · subst hkey
        rw [if_pos rfl, addName, if_pos List.mem_cons_self, hothers rest hk, List.map_cons, if_pos rfl]
      · rw [if_neg hkey]
        by_cases hmem : key ∈ rest
        · rw [ih hrest fun h => absurd hmem h, addName, addName, if_pos hmem,
            if_pos (List.mem_cons_of_mem k hmem), List.map_cons, if_neg hkey]
        · have hnot : key ∉ k :: rest := fun h =>
            (List.mem_cons.mp h).elim (fun heq => hkey heq.symm) hmem
          rw [ih hrest fun _ => fresh hnot, addName, addName, if_neg hmem, if_neg hnot,
            List.cons_append, List.map_cons, if_neg hkey]

/-- The groups are the keys in order of first appearance, each with the elements that have it. -/
theorem groupByKey_eq (key : α → String) (xs : List α) :
    groupByKey key xs =
      ((xs.map key).foldl addName []).map fun k => (k, xs.filter fun a => key a = k) := by
  induction xs using List.reverseRecOn with
  | nil => rfl
  | append_singleton xs a ih =>
      have hkeys : ((xs.map key).foldl addName []).Nodup :=
        Document.nodup_foldl_addName _ List.nodup_nil
      have hfresh : key a ∉ (xs.map key).foldl addName [] →
          (xs.filter fun b => key b = key a) = [] := by
        intro hnot
        rw [Document.mem_foldl_addName, not_or] at hnot
        rw [List.filter_eq_nil_iff]
        exact fun b hb heq => hnot.2 (of_decide_eq_true heq ▸ List.mem_map_of_mem hb)
      rw [groupByKey, List.foldl_append]
      change addToGroup (key a) a (groupByKey key xs) = _
      rw [ih, addToGroup_map (key a) a hkeys hfresh, List.map_append, List.foldl_append]
      refine List.map_congr_left fun k hk => ?_
      rw [List.filter_append, List.filter_singleton]
      by_cases hkey : k = key a
      · simp [hkey]
      · simp [hkey, Ne.symm hkey]

/-- Two elements are in one group if they share a key. -/
theorem grouped_together {key : α → String} {xs : List α} {a b : α} (ha : a ∈ xs) (hb : b ∈ xs) :
    (∃ g ∈ groupByKey key xs, a ∈ g.2 ∧ b ∈ g.2) ↔ key a = key b := by
  constructor
  · rintro ⟨g, hg, hga, hgb⟩
    obtain ⟨-, hkey⟩ := (groupByKey_keyed key xs).2 g hg
    rw [hkey a hga, hkey b hgb]
  · intro hkey
    have hgroup : (key a, xs.filter fun c => key c = key a) ∈ groupByKey key xs := by
      rw [groupByKey_eq]
      refine List.mem_map_of_mem (f := fun k => (k, xs.filter fun c => key c = k)) ?_
      rw [Document.mem_foldl_addName]
      exact .inr (List.mem_map_of_mem ha)
    refine ⟨_, hgroup, ?_, ?_⟩
    · simp [ha]
    · simp [hb, hkey]

theorem groupByKey_map {β : Type} (key : β → String) (f : α → β) (xs : List α) :
    groupByKey key (xs.map f) =
      (groupByKey (fun a => key (f a)) xs).map fun g => (g.1, g.2.map f) := by
  rw [groupByKey_eq, groupByKey_eq, List.map_map, List.map_map]
  refine List.map_congr_left fun k _ => ?_
  show (k, (xs.map f).filter _) = (k, (xs.filter _).map f)
  rw [List.filter_map]
  rfl

/-- The first members of groups have the keys of the groups. -/
theorem KeyedGroups.heads {key : α → String} {groups : List (String × List α)}
    (h : KeyedGroups key groups) :
    (groups.filterMap fun g => g.2.head?).map key = groups.map Prod.fst := by
  induction groups with
  | nil => rfl
  | cons g rest ih =>
      obtain ⟨⟨hne, hkey⟩, hrest⟩ := List.forall_mem_cons.mp h
      obtain ⟨a, members, hmembers⟩ := List.exists_cons_of_ne_nil hne
      have hhead : g.2.head? = some a := by rw [hmembers]; rfl
      rw [List.filterMap_cons, hhead]
      dsimp only
      rw [List.map_cons, List.map_cons, ih hrest, hkey a (hmembers ▸ List.mem_cons_self)]

theorem map_key_distinctByKey (key : α → String) (xs : List α) :
    (distinctByKey key xs).map key = (xs.map key).foldl addName [] := by
  obtain ⟨hkeys, hkeyed⟩ := groupByKey_keyed key xs
  rw [distinctByKey, hkeyed.heads, hkeys]

theorem nodup_distinctByKey (key : α → String) (xs : List α) : (distinctByKey key xs).Nodup := by
  refine List.Nodup.of_map key ?_
  rw [map_key_distinctByKey]
  exact Document.nodup_foldl_addName _ List.nodup_nil

theorem mem_of_mem_distinctByKey {key : α → String} {xs : List α} {a : α}
    (h : a ∈ distinctByKey key xs) : a ∈ xs := by
  obtain ⟨g, hg, hhead⟩ := List.mem_filterMap.mp h
  exact mem_of_mem_groupByKey hg (List.mem_of_head? hhead)

/-- Where keys tell the elements apart, none is left out but repetitions. -/
theorem mem_distinctByKey {key : α → String} {xs : List α}
    (told : ∀ a ∈ xs, ∀ b ∈ xs, key a = key b → a = b) (a : α) :
    a ∈ distinctByKey key xs ↔ a ∈ xs := by
  constructor
  · exact mem_of_mem_distinctByKey
  · intro ha
    have hkey : key a ∈ (distinctByKey key xs).map key := by
      rw [map_key_distinctByKey, Document.mem_foldl_addName]
      exact .inr (List.mem_map_of_mem ha)
    obtain ⟨b, hb, hsame⟩ := List.mem_map.mp hkey
    rw [told a ha b (mem_of_mem_distinctByKey hb) hsame.symm]
    exact hb

/-! ## Keys and an equality -/

/-- Each group holds the elements with the key of its first one. -/
theorem groupByKey_members (key : α → String) (xs : List α) :
    (groupByKey key xs).map Prod.snd =
      (distinctByKey key xs).map fun a => xs.filter fun b => key b = key a := by
  have hgroups : ∀ g ∈ groupByKey key xs, ∃ a, g.2.head? = some a ∧
      g.2 = xs.filter fun b => key b = key a := by
    intro g hg
    obtain ⟨hne, hkey⟩ := (groupByKey_keyed key xs).2 g hg
    obtain ⟨a, members, hmembers⟩ := List.exists_cons_of_ne_nil hne
    rw [groupByKey_eq] at hg
    obtain ⟨k, -, rfl⟩ := List.mem_map.mp hg
    refine ⟨a, by rw [hmembers]; rfl, ?_⟩
    rw [hkey a (hmembers ▸ List.mem_cons_self)]
  rw [distinctByKey]
  generalize groupByKey key xs = groups at hgroups ⊢
  induction groups with
  | nil => rfl
  | cons g rest ih =>
      obtain ⟨⟨a, hhead, hmembers⟩, hrest⟩ := List.forall_mem_cons.mp hgroups
      rw [List.filterMap_cons, hhead]
      dsimp only
      rw [List.map_cons, List.map_cons, ih hrest, hmembers]

theorem foldl_addName_eq_eraseDups (names : List String) :
    names.foldl addName [] = names.eraseDups := by
  induction names using List.reverseRecOn with
  | nil => rfl
  | append_singleton names name ih =>
      rw [List.foldl_append, ih, List.eraseDups_append]
      by_cases hmem : name ∈ names
      · simp [addName, List.removeAll, hmem]
      · simp only [addName, List.removeAll, List.foldl_cons, List.foldl_nil, List.mem_eraseDups, hmem,
          if_false, List.filter_singleton]
        simp [hmem, List.eraseDups_cons]

theorem distinctByKey_cons (key : α → String) (a : α) (xs : List α) :
    distinctByKey key (a :: xs) = a :: distinctByKey key (xs.filter fun b => key b ≠ key a) := by
  have hkeys : (xs.map key).filter (fun k => !k == key a) =
      (xs.filter fun b => key b ≠ key a).map key := by
    rw [List.filter_map]
    exact congrArg _ (List.filter_congr fun b _ => by simp [Bool.beq_eq_decide_eq])
  have hgroups : groupByKey key (a :: xs) = (key a, a :: xs.filter fun b => key b = key a) ::
      groupByKey key (xs.filter fun b => key b ≠ key a) := by
    rw [groupByKey_eq, groupByKey_eq, foldl_addName_eq_eraseDups, foldl_addName_eq_eraseDups,
      List.map_cons, List.eraseDups_cons, hkeys, List.map_cons]
    refine congrArg₂ List.cons (by simp) (List.map_congr_left fun k hk => ?_)
    obtain ⟨b, hb, rfl⟩ := List.mem_map.mp (List.mem_eraseDups.mp hk)
    have hne : key b ≠ key a := of_decide_eq_true (List.mem_filter.mp hb).2
    rw [List.filter_cons_of_neg (by simpa using hne.symm), List.filter_filter]
    refine congrArg (Prod.mk _) (List.filter_congr fun c _ => ?_)
    by_cases hc : key c = key b
    · simp [hc, hne]
    · simp [hc]
  rw [distinctByKey, hgroups]
  rfl

/-- The elements that are left keep their order. -/
theorem distinctByKey_sublist (key : α → String) (xs : List α) :
    (distinctByKey key xs).Sublist xs := by
  match xs with
  | [] => exact .slnil
  | a :: xs =>
      rw [distinctByKey_cons]
      have hrest := distinctByKey_sublist key (xs.filter fun b => key b ≠ key a)
      exact (hrest.trans List.filter_sublist).cons_cons a
termination_by xs.length
decreasing_by exact Nat.lt_succ_of_le (List.length_filter_le ..)

section Classes

variable {key : α → String} {same : α → α → Bool}

/-- Where keys are the same exactly for equal elements, the first of equal elements are left. -/
theorem distinctByKey_eq_eraseDupsBy {xs : List α}
    (h : ∀ a ∈ xs, ∀ b ∈ xs, key a = key b ↔ same a b = true) :
    distinctByKey key xs = xs.eraseDupsBy same := by
  match xs with
  | [] => rfl
  | a :: xs =>
      have hfilter : (xs.filter fun b => key b ≠ key a) = xs.filter fun b => same b a = false := by
        refine List.filter_congr fun b hb => ?_
        rw [decide_eq_decide, Ne, h b (List.mem_cons_of_mem _ hb) a List.mem_cons_self,
          Bool.not_eq_true]
      rw [distinctByKey_cons, List.eraseDupsBy_cons, hfilter]
      refine congrArg (a :: ·) (distinctByKey_eq_eraseDupsBy fun b hb c hc => ?_)
      exact h b (List.mem_cons_of_mem _ (List.mem_filter.mp hb).1) c
        (List.mem_cons_of_mem _ (List.mem_filter.mp hc).1)
termination_by xs.length
decreasing_by exact Nat.lt_succ_of_le (List.length_filter_le ..)

/-- Where keys are the same exactly for equal elements, there is a group for the first of equal elements
each, with all that are equal to it. -/
theorem groupByKey_classes {xs : List α}
    (h : ∀ a ∈ xs, ∀ b ∈ xs, key a = key b ↔ same a b = true) :
    (groupByKey key xs).map Prod.snd =
      (xs.eraseDupsBy same).map fun a => xs.filter fun b => same b a := by
  rw [groupByKey_members, ← distinctByKey_eq_eraseDupsBy h]
  refine List.map_congr_left fun a ha => List.filter_congr fun b hb => ?_
  rw [Bool.eq_iff_iff, decide_eq_true_iff, h b hb a (mem_of_mem_distinctByKey ha)]

end Classes

end RowPipeline
