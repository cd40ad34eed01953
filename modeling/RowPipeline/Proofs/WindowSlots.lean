import RowPipeline.Proofs.ExpressionReferences

/-!
# Slots of window functions

The parser numbers the windows of an expression in the order in which they close. So the windows of a
phrase have the slots between the one before it and the one after it, each at most once, and no two
windows of an expression share a slot.
-/

namespace RowPipeline

namespace Expr

/-- The slots of the windows among some terms. -/
def slotsOf (terms : List Expr) : List Nat :=
  terms.filterMap fun
    | .window slot _ => some slot
    | _ => none

theorem slotsOf_append (terms terms' : List Expr) :
    slotsOf (terms ++ terms') = slotsOf terms ++ slotsOf terms' :=
  List.filterMap_append

theorem slots_windows (e : Expr) : e.windows.map Prod.fst = slotsOf e.subterms := by
  rw [windows, List.map_filterMap, slotsOf]
  refine List.filterMap_congr fun t _ => ?_
  cases t <;> rfl

theorem slotsOf_negate (e : Expr) : slotsOf (Parser.negate e).subterms = slotsOf e.subterms := by
  unfold Parser.negate
  split <;> rfl

end Expr

namespace Grammar

open RowPipeline.Expr

/-- Some slots from one on and before another, each once. -/
structure Spread (s s' : Nat) (slots : List Nat) : Prop where
  le : s ≤ s'
  within : ∀ slot ∈ slots, s ≤ slot ∧ slot < s'
  nodup : slots.Nodup

namespace Spread

variable {s s₁ s' : Nat} {front back : List Nat}

theorem nil (s : Nat) : Spread s s [] := ⟨Nat.le_refl s, nofun, .nil⟩

theorem append (h : Spread s s₁ front) (h' : Spread s₁ s' back) : Spread s s' (front ++ back) where
  le := h.le.trans h'.le
  within := by
    intro slot hslot
    rcases List.mem_append.1 hslot with hfront | hback
    · exact ⟨(h.within slot hfront).1, (h.within slot hfront).2.trans_le h'.le⟩
    · exact ⟨h.le.trans (h'.within slot hback).1, (h'.within slot hback).2⟩
  nodup := by
    refine List.nodup_append.2 ⟨h.nodup, h'.nodup, fun a ha b hb => ?_⟩
    have hbefore := (h.within a ha).2
    have hafter := (h'.within b hb).1
    omega

/-- A window that closes takes the next slot. -/
theorem close (h : Spread s s' back) : Spread s (s' + 1) (s' :: back) where
  le := Nat.le_succ_of_le h.le
  within := by
    intro slot hslot
    rcases List.mem_cons.1 hslot with rfl | hback
    · exact ⟨h.le, Nat.lt_succ_self slot⟩
    · exact ⟨(h.within slot hback).1, Nat.lt_succ_of_lt (h.within slot hback).2⟩
  nodup := List.nodup_cons.2 ⟨fun hmem => Nat.lt_irrefl s' (h.within s' hmem).2, h.nodup⟩

end Spread

/-- The windows of a phrase have slots of it. The function of a window stands before the phrase behind
OVER, so its windows have slots from before. -/
def Phrase.TakesSlots (s s' : Nat) : Phrase → Prop
  | .expr _ e => Spread s s' (slotsOf e.subterms)
  | .list es | .items es | .partitions es | .partitionClause es =>
      Spread s s' (slotsOf (subtermsOfList es))
  | .argument _ _ e | .operand e | .otherwise e => Spread s s' (slotsOf (subtermsOfOption e))
  | .overWindow func e => ∀ r, Spread r s (slotsOf (subtermsOfFunction func)) →
      Spread r s' (slotsOf e.subterms)
  | .keys ks | .orderClause ks => Spread s s' (slotsOf (subtermsOfKeys ks))
  | .branches bs => Spread s s' (slotsOf (subtermsOfBranches bs))

theorem Spread.both {s s₁ s' : Nat} {terms terms' : List Expr} (h : Spread s s₁ (slotsOf terms))
    (h' : Spread s₁ s' (slotsOf terms')) : Spread s s' (slotsOf (terms ++ terms')) := by
  rw [slotsOf_append]
  exact h.append h'

/-- A phrase takes the slots between the one before it and the one after it. -/
theorem Derives.takesSlots {s s' : Nat} {ts : List Token} {p : Phrase} (h : Derives s ts p s') :
    p.TakesSlots s s' := by
  -- the slot after one part of a phrase is the slot before the next
  induction h with
  | @atom s t e is =>
      rcases atom?_eq_some is with ⟨v, rfl⟩ | ⟨name, rfl⟩ | ⟨name, rfl⟩ <;> exact .nil s
  | overWindow _ _ ihpartition ihorder =>
      intro r hfunc
      exact ((hfunc.both ihpartition).both ihorder).close
  | windowed _ _ _ _ _ ihargument ihover => exact ihover _ ihargument
  | ranking ranking _ _ ih =>
      refine ih _ ?_
      rw [subtermsOfFunction_ranking ranking]
      exact .nil _
  | minus _ ih => rwa [Phrase.TakesSlots, slotsOf_negate]
  | paren _ ih | plus _ ih | up _ ih | listSome _ ih | partitionSome _ _ _ ih | orderSome _ _ _ ih
  | operandSome _ ih | otherwiseSome _ _ ih | plain _ _ ih | distinct _ _ ih => exact ih
  | call _ _ _ _ _ ih | aggregate _ _ _ ih | not _ _ ih | isNull _ _ _ _ ih => exact ih
  | binary _ _ _ ih ih' | inList _ _ _ _ ih ih' | like _ _ _ _ ih ih' => exact ih.both ih'
  | between _ _ _ _ _ _ ih ih' ih'' => exact (ih.both ih').both ih''
  | case _ _ _ _ _ _ ih ih' ih'' => exact (ih.both ih').both ih''
  | itemsMore _ _ ih ih' | partitionsMore _ _ ih ih' | keysMore _ _ _ ih ih' => exact ih.both ih'
  | itemsLast _ ih | partitionsLast _ ih | keysLast _ _ ih => exact ih.both (.nil _)
  | branchesMore _ _ _ _ _ ih ih' ih'' => exact (ih.both ih').both ih''
  | listNone | star | partitionNone | orderNone | operandNone | branchesNone | otherwiseNone =>
      exact .nil _

end Grammar

/-- The windows of an expression that is read off a text have different slots. -/
theorem nodup_slots {text : String} {e : Expr} (h : Expr.parse text = .ok e) :
    (e.windows.map Prod.fst).Nodup := by
  obtain ⟨ps, s, -, -, hderives⟩ := derives_of_parse h
  have htakes : Grammar.Spread 0 s (Expr.slotsOf e.subterms) := hderives.takesSlots
  rw [Expr.slots_windows]
  exact htakes.nodup

end RowPipeline
