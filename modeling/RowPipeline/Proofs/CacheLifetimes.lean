import Mathlib.Data.Finset.Card
import Mathlib.Data.List.Nodup
import RowPipeline.Cache
import RowPipeline.Proofs.Record

/-!
# Lifetimes of cache entries

What a cache answers is read off the calls made to it: a key has the value of the last call that set it,
unless it was deleted since or all was cleared, for as long as that setting lasts. An entry that has
expired may still be stored, since only a read of its key and a purge drop it, but no answer shows it.
The invariant: what is stored under a key is what was last set there, or nothing where that has expired.
-/

namespace RowPipeline

theorem CacheEntry.isExpired_mono {α : Type} {e : CacheEntry α} {now later : ℕ} (h : now ≤ later)
    (hexpired : e.isExpired now = true) : e.isExpired later = true := by
  cases hat : e.expiresAt with
  | none => simp [isExpired, hat] at hexpired
  | some at_ =>
      simp only [isExpired, hat, Option.any_some, decide_eq_true_eq] at hexpired ⊢
      exact hexpired.trans h

namespace Cache

variable {α : Type}

/-! ## Calls -/

/-- What can be asked of a cache. -/
inductive Call (α : Type) where
  | get (key : String)
  | set (key : String) (value : α) (ttl : Option Nat)
  | delete (key : String)
  | contains (key : String)
  | clear
  | purge

namespace Call

/-- The key of a setting. -/
def setKey? : Call α → Option String
  | .set key .. => some key
  | _ => none

def isSet (c : Call α) : Bool := c.setKey?.isSome

def isGet : Call α → Bool
  | .get _ => true
  | _ => false

/-- Whether a call sets or removes what is stored under a key, expired or not. -/
def settles (key : String) : Call α → Bool
  | .set k .. | .delete k => key = k
  | .clear => true
  | .get _ | .contains _ | .purge => false

/-- Whether a call removes entries, expired or not. -/
def removes : Call α → Bool
  | .delete _ | .clear => true
  | _ => false

/-- Whether a call drops the entry of a key if it has expired. -/
def sweeps (key : String) : Call α → Bool
  | .get k => key = k
  | .purge => true
  | .set .. | .delete _ | .contains _ | .clear => false

end Call

/-- A call and the time of it. -/
structure TimedCall (α : Type) where
  time : Nat
  call : Call α

/-- The cache after a call. -/
def step (c : Cache α) (t : TimedCall α) : Cache α :=
  match t.call with
  | .get key => (c.get t.time key).2
  | .set key value ttl => c.set t.time key value ttl
  | .delete key => (c.delete key).2
  | .contains _ => c
  | .clear => c.clear
  | .purge => (c.purge t.time).2

/-- A new cache after some calls. -/
def after (defaultTtl : Option Nat) (history : List (TimedCall α)) : Cache α :=
  history.foldl step { defaultTtl }

/-! ## Timed maps -/

/-- The entry that a setting makes. Without a lifetime of its own it has the default one, and without
any it never expires. -/
def entrySet (defaultTtl : Option Nat) (time : Nat) (value : α) (ttl : Option Nat) : CacheEntry α :=
  ⟨value, (ttl <|> defaultTtl).map (time + ·)⟩

/-- A setting of a key is the last call that set or removed it. -/
def LastSet (history : List (TimedCall α)) (key : String) (time : Nat) (value : α)
    (ttl : Option Nat) : Prop :=
  ∃ before since, history = before ++ ⟨time, .set key value ttl⟩ :: since ∧
    ∀ t ∈ since, t.call.settles key = false

/-- What a call makes of what was last set under a key. -/
def TimedCall.settle (defaultTtl : Option Nat) (key : String) (t : TimedCall α)
    (last : Option (CacheEntry α)) : Option (CacheEntry α) :=
  match t.call with
  | .set k value ttl => if key = k then some (entrySet defaultTtl t.time value ttl) else last
  | .delete k => if key = k then none else last
  | .clear => none
  | .get _ | .contains _ | .purge => last

/-- What was last set under a key, if it was not removed. -/
def lastSet? (defaultTtl : Option Nat) (key : String) (history : List (TimedCall α)) :
    Option (CacheEntry α) :=
  history.foldl (fun last t => t.settle defaultTtl key last) none

theorem after_concat (defaultTtl : Option Nat) (history : List (TimedCall α)) (t : TimedCall α) :
    after defaultTtl (history ++ [t]) = (after defaultTtl history).step t :=
  List.foldl_concat ..

theorem lastSet?_concat (defaultTtl : Option Nat) (key : String) (history : List (TimedCall α))
    (t : TimedCall α) : lastSet? defaultTtl key (history ++ [t]) =
      t.settle defaultTtl key (lastSet? defaultTtl key history) :=
  List.foldl_concat ..

/-- A call that settles a key forgets what was set before, and any other call leaves it. -/
theorem TimedCall.settle_of_settles {key : String} {t : TimedCall α}
    (h : t.call.settles key = true) (defaultTtl : Option ℕ) (last : Option (CacheEntry α)) :
    t.settle defaultTtl key last = t.settle defaultTtl key none := by
  obtain ⟨time, call⟩ := t
  cases call <;> simp_all [settle, Call.settles]

theorem TimedCall.settle_of_not_settles {key : String} {t : TimedCall α}
    (h : t.call.settles key = false) (defaultTtl : Option ℕ) (last : Option (CacheEntry α)) :
    t.settle defaultTtl key last = last := by
  obtain ⟨time, call⟩ := t
  cases call <;> simp_all [settle, Call.settles]

theorem lastSet_concat_iff {history : List (TimedCall α)} {t : TimedCall α} {key : String}
    {time : ℕ} {value : α} {ttl : Option ℕ} :
    LastSet (history ++ [t]) key time value ttl ↔
      t = ⟨time, .set key value ttl⟩ ∨
        t.call.settles key = false ∧ LastSet history key time value ttl := by
  constructor
  · rintro ⟨before, since, heq, hsince⟩
    rcases List.eq_nil_or_concat since with rfl | ⟨since, u, rfl⟩
    · exact .inl (List.singleton_inj.1 (List.append_inj' heq rfl).2)
    · rw [List.concat_eq_append] at heq hsince
      rw [← List.cons_append, ← List.append_assoc] at heq
      obtain ⟨hhistory, hlast⟩ := List.append_inj' heq rfl
      obtain rfl := List.singleton_inj.1 hlast
      obtain ⟨hsince, hsettles⟩ := List.forall_mem_append.1 hsince
      exact .inr ⟨hsettles t List.mem_cons_self, before, since, hhistory, hsince⟩
  · rintro (rfl | ⟨hsettles, before, since, rfl, hsince⟩)
    · exact ⟨history, [], rfl, nofun⟩
    · refine ⟨before, since ++ [t], List.append_assoc .., ?_⟩
      exact List.forall_mem_append.2 ⟨hsince, List.forall_mem_singleton.2 hsettles⟩

/-- What was last set is what the history says. -/
theorem lastSet?_eq_some_iff {defaultTtl : Option ℕ} {key : String} {history : List (TimedCall α)}
    {e : CacheEntry α} : lastSet? defaultTtl key history = some e ↔
      ∃ time value ttl, LastSet history key time value ttl ∧
        e = entrySet defaultTtl time value ttl := by
  induction history using List.reverseRecOn with
  | nil =>
      constructor
      · exact nofun
      · rintro ⟨time, value, ttl, ⟨before, since, heq, -⟩, -⟩
        cases before <;> cases heq
  | append_singleton history t ih =>
      obtain ⟨at_, call⟩ := t
      rw [lastSet?_concat]
      simp only [lastSet_concat_iff]
      cases call with
      | set k value ttl =>
          by_cases hkey : key = k
          · simp [TimedCall.settle, Call.settles, hkey]
            grind
          · simp [TimedCall.settle, Call.settles, hkey, ih]
            grind
      | delete k =>
          by_cases hkey : key = k
          · simp [TimedCall.settle, Call.settles, hkey]
          · simp [TimedCall.settle, Call.settles, hkey, ih]
      | clear => simp [TimedCall.settle, Call.settles]
      | get k => simp [TimedCall.settle, Call.settles, ih]
      | contains k => simp [TimedCall.settle, Call.settles, ih]
      | purge => simp [TimedCall.settle, Call.settles, ih]

/-! ## Stored entries -/

/-- What a call that drops an expired entry leaves of it. -/
def TimedCall.retain (key : String) (t : TimedCall α) (stored : Option (CacheEntry α)) :
    Option (CacheEntry α) :=
  if t.call.sweeps key then stored.filter fun e => !e.isExpired t.time else stored

section Reading

variable {c : Cache α} {now : ℕ} {key : String} {e : CacheEntry α}

theorem get_absent (h : c.entries.get? key = none) :
    c.get now key = (none, { c with counts.misses := c.counts.misses + 1 }) := by
  rw [get, h]

theorem get_expired (h : c.entries.get? key = some e) (hexpired : e.isExpired now = true) :
    c.get now key = (none, { c with
      entries := c.entries.erase key
      counts.misses := c.counts.misses + 1
      counts.evictions := c.counts.evictions + 1 }) := by
  simp only [get, h, hexpired, if_true]

theorem get_alive (h : c.entries.get? key = some e) (halive : e.isExpired now = false) :
    c.get now key = (some e.value, { c with counts.hits := c.counts.hits + 1 }) := by
  simp only [get, h, halive, Bool.false_eq_true, if_false]

/-- The three cases of a read. -/
theorem get_cases (c : Cache α) (now : ℕ) (key : String) :
    c.entries.get? key = none ∨
      (∃ e, c.entries.get? key = some e ∧ e.isExpired now = true) ∨
      ∃ e, c.entries.get? key = some e ∧ e.isExpired now = false := by
  cases h : c.entries.get? key with
  | none => exact .inl rfl
  | some e => cases hexpired : e.isExpired now <;> simp [hexpired]

end Reading

/-- A read drops the entry of its key if that has expired. -/
theorem get?_get (c : Cache α) (now : ℕ) (k key : String) :
    (c.get now k).2.entries.get? key =
      if key = k then (c.entries.get? key).filter fun e => !e.isExpired now
      else c.entries.get? key := by
  by_cases hkey : key = k
  · subst hkey
    rw [if_pos rfl]
    rcases c.get_cases now key with h | ⟨e, h, hexpired⟩ | ⟨e, h, halive⟩
    · rw [get_absent h, h]
      rfl
    · rw [get_expired h hexpired, h, Option.filter_some, hexpired]
      exact (Record.get?_erase ..).trans (if_pos rfl)
    · rw [get_alive h halive, h, Option.filter_some, halive]
      rfl
  · rw [if_neg hkey]
    rcases c.get_cases now k with h | ⟨e, h, hexpired⟩ | ⟨e, h, halive⟩
    · rw [get_absent h]
    · rw [get_expired h hexpired]
      exact (Record.get?_erase ..).trans (if_neg hkey)
    · rw [get_alive h halive]

/-- Deleting drops the entry of its key. -/
theorem get?_delete (c : Cache α) (k key : String) :
    (c.delete k).2.entries.get? key = if key = k then none else c.entries.get? key := by
  rw [delete]
  split
  · exact Record.get?_erase ..
  · rename_i habsent
    split
    · rename_i hkey
      subst hkey
      simpa [Record.contains] using habsent
    · rfl

/-- What is stored under a key after a call: what the call makes of it, but nothing if the call drops
what has expired. -/
theorem get?_step (c : Cache α) (t : TimedCall α) (key : String) :
    (c.step t).entries.get? key =
      t.retain key (t.settle c.defaultTtl key (c.entries.get? key)) := by
  obtain ⟨time, call⟩ := t
  cases call with
  | get k =>
      simp only [TimedCall.retain, Call.sweeps, decide_eq_true_eq]
      exact c.get?_get time k key
  | set k value ttl => exact Record.get?_insert ..
  | delete k => exact c.get?_delete k key
  | contains k => rfl
  | clear => rfl
  | purge => exact Record.get?_filter ..

/-! ## Books -/

/-- The entries that a call drops because they have expired: the expired ones that are no longer stored
after a call that does not remove them itself. -/
def expiredDrops (c : Cache α) (t : TimedCall α) : List (String × CacheEntry α) :=
  if t.call.removes then []
  else c.entries.entries.filter fun p =>
    p.2.isExpired t.time && !(c.step t).entries.contains p.1

/-- A call that removes nothing itself leaves something under a key, and what a sweep looks at it leaves
as it was. -/
theorem TimedCall.settle_some {t : TimedCall α} (h : t.call.removes = false)
    (defaultTtl : Option ℕ) (key : String) (e : CacheEntry α) :
    ∃ f, t.settle defaultTtl key (some e) = some f ∧ (t.call.sweeps key = true → f = e) := by
  obtain ⟨time, call⟩ := t
  cases call with
  | set k value ttl =>
      simp only [settle]
      split
      · exact ⟨_, rfl, nofun⟩
      · exact ⟨_, rfl, nofun⟩
  | get | contains | purge => exact ⟨e, rfl, fun _ => rfl⟩
  | delete | clear => cases h

/-- They are the expired entries that the call looks at. -/
theorem expiredDrops_eq (c : Cache α) (t : TimedCall α) :
    c.expiredDrops t =
      c.entries.entries.filter fun p => t.call.sweeps p.1 && p.2.isExpired t.time := by
  rw [expiredDrops]
  cases hremoves : t.call.removes with
  | true =>
      have hsweeps (key : String) : t.call.sweeps key = false := by
        generalize t.call = call at hremoves
        cases call <;> first | rfl | cases hremoves
      simp [hsweeps]
  | false =>
      rw [if_neg Bool.false_ne_true]
      refine List.filter_congr fun p hp => ?_
      have hstored : c.entries.get? p.1 = some p.2 := Assoc.get?_of_mem c.entries.nodup hp
      obtain ⟨f, hf, hsame⟩ := TimedCall.settle_some hremoves c.defaultTtl p.1 p.2
      rw [Record.contains, get?_step, hstored, hf, TimedCall.retain]
      cases hsweeps : t.call.sweeps p.1 with
      | false => simp
      | true =>
          obtain rfl := hsame hsweeps
          cases hexpired : p.2.isExpired t.time <;> simp [hexpired]

theorem expiredDrops_of_not_sweeps {c : Cache α} {t : TimedCall α}
    (h : ∀ key, t.call.sweeps key = false) : c.expiredDrops t = [] := by
  rw [expiredDrops_eq]
  simp [h]

theorem length_expiredDrops_get (c : Cache α) (time : ℕ) (key : String) :
    (c.expiredDrops ⟨time, .get key⟩).length =
      ((c.entries.get? key).filter fun e => e.isExpired time).toList.length := by
  have hentries := Assoc.filter_name c.entries.nodup key fun e => e.isExpired time
  rw [expiredDrops_eq]
  change (c.entries.entries.filter fun p => p.1 = key && p.2.isExpired time).length = _
  rw [hentries, Option.toList_map, List.length_map]
  rfl

/-- What a call does to the books of a cache. -/
structure Books (c : Cache α) (t : TimedCall α) (c' : Cache α) : Prop where
  defaultTtl : c'.defaultTtl = c.defaultTtl
  reads : c'.counts.hits + c'.counts.misses =
    c.counts.hits + c.counts.misses + if t.call.isGet then 1 else 0
  sets : c'.counts.sets = c.counts.sets + if t.call.isSet then 1 else 0
  evictions : c'.counts.evictions = c.counts.evictions + (c.expiredDrops t).length

theorem books_step (c : Cache α) (t : TimedCall α) : Books c t (c.step t) := by
  obtain ⟨time, call⟩ := t
  cases call with
  | get k =>
      have hdrops := c.length_expiredDrops_get time k
      rcases c.get_cases time k with h | ⟨e, h, hexpired⟩ | ⟨e, h, halive⟩
      · have hstep : c.step ⟨time, .get k⟩ = _ := congrArg Prod.snd (get_absent h)
        rw [h] at hdrops
        rw [hstep]
        exact ⟨rfl, rfl, rfl, hdrops.symm ▸ rfl⟩
      · have hstep : c.step ⟨time, .get k⟩ = _ := congrArg Prod.snd (get_expired h hexpired)
        rw [h, Option.filter_some, hexpired] at hdrops
        rw [hstep]
        exact ⟨rfl, rfl, rfl, hdrops.symm ▸ rfl⟩
      · have hstep : c.step ⟨time, .get k⟩ = _ := congrArg Prod.snd (get_alive h halive)
        rw [h, Option.filter_some, halive] at hdrops
        rw [hstep]
        exact ⟨rfl, Nat.add_right_comm .., rfl, hdrops.symm ▸ rfl⟩
  | delete k =>
      have hstep : ∃ entries deletes, c.step ⟨time, .delete k⟩ =
          { c with entries := entries, counts.deletes := deletes } := by
        change ∃ entries deletes, (c.delete k).2 = _
        rw [delete]
        split
        · exact ⟨_, _, rfl⟩
        · exact ⟨_, _, rfl⟩
      obtain ⟨entries, deletes, hstep⟩ := hstep
      rw [hstep]
      exact ⟨rfl, rfl, rfl, rfl⟩
  | set k value ttl =>
      exact ⟨rfl, rfl, rfl, by rw [expiredDrops_of_not_sweeps fun _ => rfl]; rfl⟩
  | contains k =>
      exact ⟨rfl, rfl, rfl, by rw [expiredDrops_of_not_sweeps fun _ => rfl]; rfl⟩
  | clear => exact ⟨rfl, rfl, rfl, rfl⟩
  | purge =>
      refine ⟨rfl, rfl, rfl, ?_⟩
      have hall : c.entries.entries.length = _ :=
        List.length_eq_length_filter_add fun p => p.2.isExpired time
      rw [expiredDrops_eq]
      change c.counts.evictions + (c.entries.entries.length -
        (c.entries.entries.filter fun p => !p.2.isExpired time).length) =
          c.counts.evictions + (c.entries.entries.filter fun p => p.2.isExpired time).length
      omega

theorem defaultTtl_after (defaultTtl : Option ℕ) (history : List (TimedCall α)) :
    (after defaultTtl history).defaultTtl = defaultTtl := by
  induction history using List.reverseRecOn with
  | nil => rfl
  | append_singleton history t ih => rw [after_concat, (books_step _ t).defaultTtl, ih]

/-- What is stored under a key is what was last set, or nothing if a call found it expired. -/
def Shows (history : List (TimedCall α)) (stored last : Option (CacheEntry α)) : Prop :=
  stored = last ∨
    stored = none ∧ ∃ e, last = some e ∧ ∃ t ∈ history, e.isExpired t.time = true

/-- A call that sets or removes a key does not care whether it has expired. -/
theorem Call.sweeps_of_settles {key : String} {call : Call α} (h : call.settles key = true) :
    call.sweeps key = false := by
  cases call <;> first | rfl | cases h

theorem Shows.step {history : List (TimedCall α)} {stored last : Option (CacheEntry α)}
    (h : Shows history stored last) (t : TimedCall α) (defaultTtl : Option ℕ) (key : String) :
    Shows (history ++ [t]) (t.retain key (t.settle defaultTtl key stored))
      (t.settle defaultTtl key last) := by
  -- a call that settles the key forgets the difference; any other can only drop what has expired
  cases hsettles : t.call.settles key with
  | true =>
      left
      rw [TimedCall.settle_of_settles hsettles, TimedCall.settle_of_settles hsettles _ last,
        TimedCall.retain, Call.sweeps_of_settles hsettles]
      rfl
  | false =>
      rw [TimedCall.settle_of_not_settles hsettles, TimedCall.settle_of_not_settles hsettles]
      rcases h with rfl | ⟨rfl, e, rfl, u, hu, hexpired⟩
      · cases stored with
        | none =>
            left
            rw [TimedCall.retain]
            split <;> rfl
        | some e =>
            rw [TimedCall.retain, Option.filter_some]
            cases hexpired : e.isExpired t.time with
            | false => exact .inl (ite_self _)
            | true =>
                split
                · exact .inr ⟨rfl, e, rfl, t, by simp, hexpired⟩
                · exact .inl rfl
      · right
        refine ⟨?_, e, rfl, u, List.mem_append_left _ hu, hexpired⟩
        rw [TimedCall.retain]
        split <;> rfl

theorem shows_after (defaultTtl : Option ℕ) (history : List (TimedCall α)) (key : String) :
    Shows history ((after defaultTtl history).entries.get? key)
      (lastSet? defaultTtl key history) := by
  induction history using List.reverseRecOn with
  | nil => exact .inl rfl
  | append_singleton history t ih =>
      rw [after_concat, lastSet?_concat, get?_step, defaultTtl_after]
      exact ih.step t defaultTtl key

/-- An entry that has not expired is stored as it was last set. -/
theorem Shows.alive {history : List (TimedCall α)} {stored last : Option (CacheEntry α)}
    (h : Shows history stored last) {now : ℕ} (ordered : ∀ t ∈ history, t.time ≤ now)
    {e : CacheEntry α} (halive : e.isExpired now = false) : stored = some e ↔ last = some e := by
  rcases h with rfl | ⟨rfl, f, rfl, t, ht, hexpired⟩
  · rfl
  · constructor
    · exact nofun
    · rintro ⟨⟩
      rw [CacheEntry.isExpired_mono (ordered t ht) hexpired] at halive
      cases halive

/-! ## Answers -/

/-- A setting has no lifetime, or one that ends later. -/
def Lasts (defaultTtl : Option Nat) (time : Nat) (ttl : Option Nat) (now : Nat) : Prop :=
  ∀ lifetime ∈ ttl <|> defaultTtl, now < time + lifetime

theorem isExpired_entrySet {defaultTtl ttl : Option ℕ} {time now : ℕ} {value : α} :
    (entrySet defaultTtl time value ttl).isExpired now = false ↔ Lasts defaultTtl time ttl now := by
  rw [Lasts, entrySet, CacheEntry.isExpired]
  cases ttl <|> defaultTtl <;> simp

theorem get_eq_some_iff {c : Cache α} {now : ℕ} {key : String} {value : α} :
    (c.get now key).1 = some value ↔
      ∃ e, c.entries.get? key = some e ∧ e.isExpired now = false ∧ e.value = value := by
  rcases c.get_cases now key with h | ⟨e, h, hexpired⟩ | ⟨e, h, halive⟩
  · rw [get_absent h]
    simp [h]
  · rw [get_expired h hexpired]
    simp [h, hexpired]
  · rw [get_alive h halive]
    simp [h, halive]

theorem contains_iff {c : Cache α} {now : ℕ} {key : String} :
    c.contains now key = true ↔ ∃ e, c.entries.get? key = some e ∧ e.isExpired now = false := by
  rw [contains]
  cases c.entries.get? key <;> simp

section Answers

variable {defaultTtl : Option ℕ} {history : List (TimedCall α)} {now : ℕ}

/-- The entries that have not expired are those of the settings that last. -/
theorem alive_iff (ordered : ∀ t ∈ history, t.time ≤ now) {key : String} (P : α → Prop) :
    (∃ e, (after defaultTtl history).entries.get? key = some e ∧ e.isExpired now = false ∧
        P e.value) ↔
      ∃ time value ttl, LastSet history key time value ttl ∧ Lasts defaultTtl time ttl now ∧
        P value := by
  have hshows := shows_after defaultTtl history key
  constructor
  · rintro ⟨e, hstored, halive, hvalue⟩
    rw [hshows.alive ordered halive, lastSet?_eq_some_iff] at hstored
    obtain ⟨time, value, ttl, hlast, rfl⟩ := hstored
    exact ⟨time, value, ttl, hlast, isExpired_entrySet.1 halive, hvalue⟩
  · rintro ⟨time, value, ttl, hlast, hlasts, hvalue⟩
    have halive : (entrySet defaultTtl time value ttl).isExpired now = false :=
      isExpired_entrySet.2 hlasts
    refine ⟨entrySet defaultTtl time value ttl, ?_, halive, hvalue⟩
    rw [hshows.alive ordered halive, lastSet?_eq_some_iff]
    exact ⟨time, value, ttl, hlast, rfl⟩

end Answers

/-! ## Runs -/

/-- The entries dropped along some calls because they had expired. -/
def evicted (c : Cache α) : List (TimedCall α) → List (String × CacheEntry α)
  | [] => []
  | t :: rest => c.expiredDrops t ++ (c.step t).evicted rest

/-- The keys that were set. -/
def keysSet (history : List (TimedCall α)) : List String :=
  history.filterMap fun t => t.call.setKey?

theorem reads_run (c : Cache α) (history : List (TimedCall α)) :
    (history.foldl step c).counts.hits + (history.foldl step c).counts.misses =
      c.counts.hits + c.counts.misses + history.countP fun t => t.call.isGet := by
  induction history generalizing c with
  | nil => rfl
  | cons t rest ih =>
      rw [List.foldl_cons, ih, (books_step c t).reads, List.countP_cons]
      omega

theorem sets_run (c : Cache α) (history : List (TimedCall α)) :
    (history.foldl step c).counts.sets =
      c.counts.sets + history.countP fun t => t.call.isSet := by
  induction history generalizing c with
  | nil => rfl
  | cons t rest ih =>
      rw [List.foldl_cons, ih, (books_step c t).sets, List.countP_cons]
      omega

theorem evictions_run (c : Cache α) (history : List (TimedCall α)) :
    (history.foldl step c).counts.evictions =
      c.counts.evictions + (c.evicted history).length := by
  induction history generalizing c with
  | nil => rfl
  | cons t rest ih =>
      rw [List.foldl_cons, ih, (books_step c t).evictions, evicted, List.length_append]
      omega

/-- Only keys that were set are stored. -/
theorem mem_keysSet {defaultTtl : Option ℕ} {history : List (TimedCall α)} {key : String}
    (h : (after defaultTtl history).entries.contains key = true) : key ∈ keysSet history := by
  obtain ⟨e, hstored⟩ := Option.isSome_iff_exists.1 h
  have hlast : lastSet? defaultTtl key history = some e := by
    rcases shows_after defaultTtl history key with hsame | ⟨hnone, -⟩
    · rw [← hsame, hstored]
    · rw [hnone] at hstored
      cases hstored
  obtain ⟨time, value, ttl, ⟨before, since, rfl, -⟩, -⟩ := lastSet?_eq_some_iff.1 hlast
  simp [keysSet, Call.setKey?]

/-- The entries that are stored are counted by the keys that were set. -/
theorem size_after (defaultTtl : Option ℕ) (history : List (TimedCall α)) :
    (after defaultTtl history).size = ((keysSet history).toFinset.filter fun key =>
      (after defaultTtl history).entries.contains key = true).card := by
  have hkeys : (after defaultTtl history).entries.keys.toFinset =
      (keysSet history).toFinset.filter fun key =>
        (after defaultTtl history).entries.contains key = true := by
    ext key
    rw [List.mem_toFinset, ← Record.contains_iff_mem_keys, Finset.mem_filter, List.mem_toFinset]
    exact ⟨fun h => ⟨mem_keysSet h, h⟩, And.right⟩
  have hnodup : (after defaultTtl history).entries.keys.Nodup :=
    (after defaultTtl history).entries.nodup
  rw [← hkeys, List.toFinset_card_of_nodup hnodup]
  exact (Record.length_keys _).symm

/-- A cache is a timed map. After any calls, at any time from the last one on, a read finds a value under
a key exactly if the last call that set or removed the key set it to that value, with no lifetime or one
that ends later, and so it is with the test for a key. The hits and misses together count the reads, the
settings are counted, the size is the number of keys that were set and are stored, and the evictions
count the entries that were dropped because they had expired. -/
theorem refines_timed_map (defaultTtl : Option Nat) (history : List (TimedCall α)) (now : Nat)
    (ordered : ∀ t ∈ history, t.time ≤ now) :
    let c := after defaultTtl history
    (∀ key value, (c.get now key).1 = some value ↔
        ∃ time ttl, LastSet history key time value ttl ∧ Lasts defaultTtl time ttl now) ∧
      (∀ key, c.contains now key = true ↔
        ∃ time value ttl, LastSet history key time value ttl ∧ Lasts defaultTtl time ttl now) ∧
      c.counts.hits + c.counts.misses = history.countP (fun t => t.call.isGet) ∧
      c.counts.sets = history.countP (fun t => t.call.isSet) ∧
      c.size = ((keysSet history).toFinset.filter fun key => c.entries.contains key = true).card ∧
      c.size ≤ (keysSet history).toFinset.card ∧
      c.counts.evictions = (evicted { defaultTtl } history).length := by
  intro c
  refine ⟨fun key value => ?_, fun key => ?_, ?_, ?_, size_after defaultTtl history, ?_, ?_⟩
  · rw [get_eq_some_iff]
    refine (alive_iff ordered (· = value)).trans ⟨?_, ?_⟩
    · rintro ⟨time, found, ttl, hlast, hlasts, rfl⟩
      exact ⟨time, ttl, hlast, hlasts⟩
    · rintro ⟨time, ttl, hlast, hlasts⟩
      exact ⟨time, value, ttl, hlast, hlasts, rfl⟩
  · rw [contains_iff]
    simpa only [and_true] using alive_iff ordered fun _ => True
  · exact (reads_run { defaultTtl } history).trans (Nat.zero_add _)
  · exact (sets_run { defaultTtl } history).trans (Nat.zero_add _)
  · rw [size_after]
    exact Finset.card_filter_le ..
  · exact (evictions_run { defaultTtl } history).trans (Nat.zero_add _)

/-- One key whose value expires and is dropped by a read, one that is set again, one that is deleted, and
one whose value expires and stays stored. -/
def sampleCalls : List (TimedCall Nat) :=
  [⟨0, .set "read" 1 none⟩, ⟨1, .set "kept" 2 (some 1)⟩, ⟨2, .set "kept" 3 (some 9)⟩,
    ⟨3, .set "gone" 4 none⟩, ⟨4, .delete "gone"⟩, ⟨5, .get "read"⟩, ⟨5, .set "stale" 5 (some 2)⟩,
    ⟨6, .get "kept"⟩]

theorem refines_timed_map_sample :
    (∀ t ∈ sampleCalls, t.time ≤ 7) ∧
      ((after (some 5) sampleCalls).get 7 "kept").1 = some 3 ∧
      (∃ time ttl, LastSet sampleCalls "kept" time 3 ttl ∧ Lasts (some 5) time ttl 7) ∧
      (after (some 5) sampleCalls).contains 7 "stale" = false ∧
      (after (some 5) sampleCalls).entries.contains "stale" = true ∧
      (after (some 5) sampleCalls).size = 2 ∧
      (evicted { defaultTtl := some 5 } sampleCalls).length = 1 := by
  obtain ⟨hget, -, -, -, -, -, hevictions⟩ :=
    refines_timed_map (some 5) sampleCalls 7 (by decide)
  have hkept : ((after (some 5) sampleCalls).get 7 "kept").1 = some 3 := by decide
  exact ⟨by decide, hkept, (hget "kept" 3).1 hkept, by decide, by decide, by decide,
    hevictions.symm.trans (by decide)⟩

end Cache

end RowPipeline
