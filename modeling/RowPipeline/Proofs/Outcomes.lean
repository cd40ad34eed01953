import Mathlib.Data.List.Forall2
import RowPipeline.Connector

/-!
# Computations that can fail

How a result that is there came about, and rules for what holds of every result of a computation that
sends SQL.
-/

namespace RowPipeline

/-- Where a chain succeeds, so did its first part. -/
theorem bind_eq_ok {ε α β : Type} {x : Except ε α} {f : α → Except ε β} {b : β}
    (h : x >>= f = .ok b) : ∃ a, x = .ok a ∧ f a = .ok b := by
  cases x with
  | error e => cases h
  | ok a => exact ⟨a, rfl, h⟩

theorem mapError_eq_ok {ε ε' α : Type} {f : ε → ε'} {x : Except ε α} {a : α}
    (h : x.mapError f = .ok a) : x = .ok a := by
  cases x with
  | error e => cases h
  | ok b =>
      cases h
      rfl

theorem map_eq_ok {ε α β : Type} {f : α → β} {x : Except ε α} {b : β} (h : x.map f = .ok b) :
    ∃ a, x = .ok a ∧ f a = b := by
  cases x with
  | error e => cases h
  | ok a => exact ⟨a, rfl, Except.ok.inj h⟩

theorem map_eq_error {ε α β : Type} {f : α → β} {x : Except ε α} {e : ε} (h : x.map f = .error e) :
    x = .error e := by
  cases x with
  | ok a => cases h
  | error e' => exact congrArg Except.error (Except.error.inj h)

theorem mapM_congr {ε α β : Type} {f g : α → Except ε β} {list : List α}
    (h : ∀ a ∈ list, f a = g a) : list.mapM f = list.mapM g := by
  induction list with
  | nil => rfl
  | cons head rest ih =>
      rw [List.mapM_cons, List.mapM_cons, h head List.mem_cons_self,
        ih fun a ha => h a (List.mem_cons_of_mem head ha)]

theorem mapM_eq_map {ε α β : Type} {f : α → Except ε β} {g : α → β} {list : List α}
    (h : ∀ a ∈ list, f a = .ok (g a)) : list.mapM f = .ok (list.map g) := by
  induction list with
  | nil => rfl
  | cons head rest ih =>
      rw [List.mapM_cons, h head List.mem_cons_self, ih fun a ha => h a (List.mem_cons_of_mem head ha)]
      rfl

theorem foldlM_congr {ε α β : Type} {f g : β → α → Except ε β} {list : List α}
    (h : ∀ b, ∀ a ∈ list, f b a = g b a) (b : β) : list.foldlM f b = list.foldlM g b := by
  induction list generalizing b with
  | nil => rfl
  | cons head rest ih =>
      have hrest : (fun b => rest.foldlM f b) = fun b => rest.foldlM g b :=
        funext (ih fun b a ha => h b a (List.mem_cons_of_mem head ha))
      rw [List.foldlM_cons, List.foldlM_cons, h b head List.mem_cons_self, hrest]

/-- A list made by steps that may fail holds the result of each item, in the same order. -/
theorem forall₂_of_mapM {ε α β : Type} {f : α → Except ε β} {list : List α} {list' : List β}
    (h : list.mapM f = .ok list') : List.Forall₂ (fun a b => f a = .ok b) list list' := by
  induction list generalizing list' with
  | nil =>
      cases h
      exact .nil
  | cons head rest ih =>
      rw [List.mapM_cons] at h
      obtain ⟨first, hfirst, h⟩ := bind_eq_ok h
      obtain ⟨others, hothers, h⟩ := bind_eq_ok h
      cases h
      exact .cons hfirst (ih hothers)

theorem exists_of_forall₂ {α β : Type} {R : α → β → Prop} {list : List α} {list' : List β}
    (h : List.Forall₂ R list list') {b : β} (hb : b ∈ list') : ∃ a ∈ list, R a b := by
  induction h with
  | nil => cases hb
  | cons hfirst _ ih =>
      rcases List.mem_cons.mp hb with rfl | hb
      · exact ⟨_, List.mem_cons_self, hfirst⟩
      · obtain ⟨a, ha, hab⟩ := ih hb
        exact ⟨a, List.mem_cons_of_mem _ ha, hab⟩

theorem mem_of_mapM {ε α β : Type} {f : α → Except ε β} {list : List α} {list' : List β}
    (h : list.mapM f = .ok list') {b : β} (hb : b ∈ list') : ∃ a ∈ list, f a = .ok b :=
  exists_of_forall₂ (forall₂_of_mapM h) hb

theorem exists_of_mapM {ε α β : Type} {f : α → Except ε β} {list : List α} {list' : List β}
    (h : list.mapM f = .ok list') {a : α} (ha : a ∈ list) : ∃ b ∈ list', f a = .ok b :=
  exists_of_forall₂ (forall₂_of_mapM h).flip ha

/-- What each step keeps of its item, the list keeps. -/
theorem map_of_mapM {ε α β γ : Type} {f : α → Except ε β} (g : α → γ) (g' : β → γ)
    (hf : ∀ a b, f a = .ok b → g' b = g a) {list : List α} {list' : List β}
    (h : list.mapM f = .ok list') : list'.map g' = list.map g := by
  have hall := forall₂_of_mapM h
  clear h
  induction hall with
  | nil => rfl
  | cons hfirst _ ih => rw [List.map_cons, List.map_cons, hf _ _ hfirst, ih]

namespace Sending

variable {α β : Type}

/-- A part that sends nothing stands before the rest. -/
theorem start_lift (x : Except Fault α) (f : α → Sending β) :
    (do let a ← x; f a : Sending β).start =
      match x with
      | .ok a => (f a).start
      | .error e => (.error e, []) := by
  cases x <;> rfl

/-- Whatever was sent before, a computation that succeeds gives a result with a property. -/
def Gives (P : α → Prop) (m : Sending α) : Prop :=
  ∀ sent a sent', m.run.run sent = (.ok a, sent') → P a

namespace Gives

variable {P : α → Prop} {Q : β → Prop}

theorem pure {a : α} (h : P a) : Gives P (Pure.pure a) := by
  rintro sent b sent' hrun
  cases hrun
  exact h

/-- What holds of every result of the last part holds of the chain. -/
theorem bind {m : Sending α} {f : α → Sending β} (h : ∀ a, Gives Q (f a)) : Gives Q (m >>= f) := by
  rintro sent b sent' hrun
  rw [ExceptT.run_bind, StateT.run_bind] at hrun
  rcases hm : m.run.run sent with ⟨outcome, s⟩
  rw [hm] at hrun
  cases outcome with
  | ok a => exact h a s b sent' hrun
  | error e => cases hrun

theorem start {m : Sending α} (h : Gives P m) {a : α} (hrun : m.start.1 = .ok a) : P a :=
  h [] a m.start.2 (Prod.ext hrun rfl)

end Gives

/-- A computation that gives a result, after whatever was sent before. -/
def Succeeds (m : Sending α) : Prop := ∃ sent a sent', m.run.run sent = (.ok a, sent')

namespace Succeeds

theorem of_start {m : Sending α} {a : α} (h : m.start.1 = .ok a) : Succeeds m :=
  ⟨[], a, m.start.2, Prod.ext h rfl⟩

/-- Where a chain succeeds, so did both of its parts. -/
theorem bind {m : Sending α} {f : α → Sending β} (h : Succeeds (m >>= f)) :
    Succeeds m ∧ ∃ a, Succeeds (f a) := by
  obtain ⟨sent, b, sent', hrun⟩ := h
  rw [ExceptT.run_bind, StateT.run_bind] at hrun
  rcases hm : m.run.run sent with ⟨outcome, s⟩
  rw [hm] at hrun
  cases outcome with
  | ok a => exact ⟨⟨sent, a, s, hm⟩, a, s, b, sent', hrun⟩
  | error e => cases hrun

/-- What a first part that sends nothing gave is known. -/
theorem bind_lift {x : Except Fault α} {f : α → Sending β} (h : Succeeds (liftM x >>= f)) :
    ∃ a, x = .ok a ∧ Succeeds (f a) := by
  cases x with
  | ok a => exact ⟨a, rfl, h⟩
  | error e =>
      obtain ⟨sent, b, sent', hrun⟩ := h
      cases hrun

theorem lift {x : Except Fault α} (h : Succeeds (liftM x : Sending α)) : ∃ a, x = .ok a := by
  cases x with
  | ok a => exact ⟨a, rfl⟩
  | error e =>
      obtain ⟨sent, a, sent', hrun⟩ := h
      cases hrun

theorem mapM {list : List α} {f : α → Sending β} (h : Succeeds (list.mapM f)) :
    ∀ a ∈ list, Succeeds (f a) := by
  induction list with
  | nil => exact fun _ ha => absurd ha List.not_mem_nil
  | cons head rest ih =>
      rw [List.mapM_cons] at h
      obtain ⟨hhead, _, hrest⟩ := h.bind
      exact List.forall_mem_cons.mpr ⟨hhead, ih hrest.bind.1⟩

end Succeeds

/-- A computation that sends no SQL. -/
def Silent (m : Sending α) : Prop := ∀ sent, (m.run.run sent).2 = sent

namespace Silent

theorem pure (a : α) : Silent (Pure.pure a) := fun _ => rfl

theorem lift (x : Except Fault α) : Silent (liftM x : Sending α) := by
  intro sent
  cases x <;> rfl

theorem bind {m : Sending α} {f : α → Sending β} (h : Silent m) (hf : ∀ a, Silent (f a)) :
    Silent (m >>= f) := by
  intro sent
  rw [ExceptT.run_bind, StateT.run_bind]
  have hm := h sent
  rcases hrun : m.run.run sent with ⟨outcome, s⟩
  rw [hrun] at hm
  obtain rfl : s = sent := hm
  cases outcome with
  | ok a => exact hf a s
  | error e => rfl

theorem start {m : Sending α} (h : Silent m) : m.start.2 = [] := h []

end Silent

/-- Where the first computation succeeds, the second does the same. -/
def Leads (m m' : Sending α) : Prop :=
  ∀ sent a sent', m.run.run sent = (.ok a, sent') → m'.run.run sent = (.ok a, sent')

namespace Leads

variable {m m' : Sending α}

theorem refl (m : Sending α) : Leads m m := fun _ _ _ h => h

theorem bind {f f' : α → Sending β} (h : Leads m m') (hf : ∀ a, Leads (f a) (f' a)) :
    Leads (m >>= f) (m' >>= f') := by
  intro sent b sent' hrun
  rw [ExceptT.run_bind, StateT.run_bind] at hrun ⊢
  rcases hm : m.run.run sent with ⟨outcome, s⟩
  rw [hm] at hrun
  cases outcome with
  | ok a =>
      rw [h sent a s hm]
      exact hf a s b sent' hrun
  | error e => cases hrun

theorem lift {x x' : Except Fault α} (h : ∀ a, x = .ok a → x' = .ok a) :
    Leads (liftM x) (liftM x') := by
  cases hx : x with
  | error e =>
      intro sent a sent' hrun
      cases hrun
  | ok a =>
      rw [h a hx]
      exact refl _

theorem mapM {list : List α} {f f' : α → Sending β} (h : ∀ a, Leads (f a) (f' a)) :
    Leads (list.mapM f) (list.mapM f') := by
  induction list with
  | nil => exact refl _
  | cons head rest ih =>
      rw [List.mapM_cons, List.mapM_cons]
      exact (h head).bind fun _ => ih.bind fun _ => refl _

/-- After a part that sends nothing, what it gave is known. -/
theorem bind_lift {x x' : Except Fault α} {f f' : α → Sending β}
    (h : ∀ a, x = .ok a → x' = .ok a) (hf : ∀ a, x = .ok a → Leads (f a) (f' a)) :
    Leads (liftM x >>= f) (liftM x' >>= f') := by
  cases hx : x with
  | error e =>
      intro sent b sent' hrun
      cases hrun
  | ok a =>
      rw [h a hx]
      exact hf a hx

theorem start (h : Leads m m') {a : α} (hrun : m.start.1 = .ok a) : m'.start.1 = .ok a := by
  have hm := h [] a m.start.2 (Prod.ext hrun rfl)
  exact congrArg Prod.fst hm

end Leads

end Sending

end RowPipeline
