import RowPipeline.Proofs.GrammarSoundness

/-!
# Leaves

The names of fields and parameters and the numbers in an expression that was read off a text are those
of its tokens, so they can be written again.
-/

namespace RowPipeline

open Lexer

/-! ## Tokens -/

/-- What is read off a text besides: no name with a back quote in it, and a parameter that can be read
in braces. -/
def Token.Named : Token → Prop
  | .ident name | .quotedIdent name => ∀ c ∈ name.toList, c.toNat ≠ 0x60
  | .param name => ∀ left,
      takeParam ('\x7b' :: (name.toList ++ '\x7d' :: left)) = .ok (.param name, left)
  | _ => True

variable {t : Token}

theorem takeParam_braced {cs name left₂ : List Char} (hname : takeName cs = (name, left₂))
    (nonempty : name ≠ []) (left : List Char) :
    takeParam ('\x7b' :: (name ++ '\x7d' :: left)) = .ok (.param (String.ofList name), left) := by
  have hread : takeName (name ++ '\x7d' :: left) = (name, '\x7d' :: left) := by
    refine (takeName_append hname ?_).2
    rintro d more ⟨⟩
    exact continuesName_eq_false (by decide) (by decide)
  cases name with
  | nil => exact absurd rfl nonempty
  | cons c name => simp only [takeParam, hread]

theorem takeQuotedIdent_clean {cs name left : List Char}
    (h : takeQuotedIdent cs = some (name, left)) : ∀ c ∈ name, c.toNat ≠ 0x60 := by
  induction cs generalizing name with
  | nil => cases h
  | cons c rest ih =>
      rw [takeQuotedIdent] at h
      split at h
      · obtain ⟨rfl, rfl⟩ : [] = name ∧ rest = left := by simpa using h
        simp
      · rename_i hc
        obtain ⟨⟨name', left'⟩, hrest, hname⟩ := Option.map_eq_some_iff.1 h
        obtain ⟨rfl, rfl⟩ : c :: name' = name ∧ left' = left := by simpa using hname
        intro d hd
        rcases List.mem_cons.1 hd with rfl | hd
        · exact hc
        · exact ih hrest d hd

theorem named_of_isMark (h : isMark t = true) : t.Named := by
  cases t <;> trivial

theorem takeNumber_named (cs : List Char) : (takeNumber cs).1.Named := by
  rcases takeNumber_cases cs with ⟨n, -, hn⟩ | ⟨x, hx⟩
  · rw [hn]
    trivial
  · rw [hx]
    trivial

theorem takeToken_named {total : Nat} {c : Char} {rest left : List Char}
    (h : takeToken total c rest = .ok (t, left)) : t.Named := by
  cases scans_of_takeToken h with
  | param start read =>
      obtain ⟨name, rfl, ⟨cs, left₂, hname⟩, hnonempty, -⟩ := takeParam_append read
      intro left'
      rw [String.toList_ofList]
      exact takeParam_braced hname hnonempty left'
  | string => trivial
  | quotedIdent start read =>
      intro c hc
      rw [String.toList_ofList] at hc
      exact takeQuotedIdent_clean read c hc
  | number start read =>
      have hnumber := takeNumber_named (c :: rest)
      rwa [read] at hnumber
  | name start read =>
      -- a back quote goes on with no word
      intro d hd hback
      rw [String.toList_ofList] at hd
      obtain rfl : d = Char.ofNat 0x60 := by rw [← hback, Char.ofNat_toNat]
      exact absurd (takeName_chars read _ hd) (by decide)
  | mark read => exact named_of_isMark (takeMark?_isMark read)

/-! ## Expressions -/

theorem Expr.mem_subterms_self (e : Expr) : e ∈ e.subterms := by
  cases e <;> simp [Expr.subterms]

/-- Whether an expression is a literal, a field or a parameter. -/
def Expr.isLeaf : Expr → Bool
  | .literal _ | .field _ | .param _ => true
  | _ => false

/-- What all expressions have that are put together of others, and what a sign in front of a literal
keeps. -/
structure Expr.Settled (P : Expr → Prop) : Prop where
  compound : ∀ e : Expr, e.isLeaf = false → P e
  negate : ∀ v, P (.literal v) → P (Parser.negate (.literal v))

/-- What can be written again: no least integer, no list or object, no field with a back quote in its
name, and no parameter that cannot stand in braces. -/
def Expr.Writable : Expr → Prop
  | .literal (.int i) => i ≠ Int64.minValue
  | .literal (.array _) | .literal (.object _) => False
  | .field name => ∀ c ∈ name.toList, c.toNat ≠ 0x60
  | .param name => (Token.param name).Named
  | _ => True

/-- Whether an expression is a double by itself. -/
def Expr.isDouble : Expr → Bool
  | .literal (.float _) => true
  | _ => false

/-- That all expressions in a phrase have a property. Those in what a window computes stand before it. -/
def Grammar.Phrase.Each (P : Expr → Prop) : Phrase → Prop
  | .expr _ e => ∀ sub ∈ e.subterms, P sub
  | .list es | .items es | .partitions es | .partitionClause es =>
      ∀ sub ∈ Expr.subtermsOfList es, P sub
  | .argument _ _ arg => ∀ sub ∈ Expr.subtermsOfOption arg, P sub
  | .overWindow func e => (∀ sub ∈ Expr.subtermsOfFunction func, P sub) → ∀ sub ∈ e.subterms, P sub
  | .keys ks | .orderClause ks => ∀ sub ∈ Expr.subtermsOfKeys ks, P sub
  | .operand e | .otherwise e => ∀ sub ∈ Expr.subtermsOfOption e, P sub
  | .branches bs => ∀ sub ∈ Expr.subtermsOfBranches bs, P sub

namespace Grammar

variable {P : Expr → Prop} {s s' : Nat} {ts : List Token} {p : Phrase} {e : Expr}

theorem each_atom (is : atom? t = some e) (he : P e) : ∀ sub ∈ e.subterms, P sub := by
  rcases atom?_eq_some is with ⟨v, rfl⟩ | ⟨name, rfl⟩ | ⟨name, rfl⟩
  all_goals exact List.forall_mem_singleton.2 he

theorem each_negate (settled : Expr.Settled P) (h : ∀ sub ∈ e.subterms, P sub) :
    ∀ sub ∈ (Parser.negate e).subterms, P sub := by
  unfold Parser.negate
  split
  · rename_i i
    exact List.forall_mem_singleton.2 (settled.negate (.int i) (h _ (Expr.mem_subterms_self _)))
  · rename_i x
    exact List.forall_mem_singleton.2 (settled.negate (.float x) (h _ (Expr.mem_subterms_self _)))
  · exact List.forall_mem_cons.2 ⟨settled.compound _ rfl, h⟩

theorem each_ranking {func : WindowFunction Expr} {name : String}
    (h : Parser.rankingOfName? name = some func) :
    ∀ sub ∈ Expr.subtermsOfFunction func, P sub := by
  rw [Parser.rankingOfName?.eq_def] at h
  split at h
  all_goals first
    | (cases h; done)
    | (cases h; exact List.forall_mem_nil _)

/-- What the literals, fields and parameters among the tokens have, every expression in a phrase has. -/
theorem Derives.each (settled : Expr.Settled P) (h : Derives s ts p s')
    (hts : ∀ t ∈ ts, ∀ e, atom? t = some e → P e) : p.Each P := by
  induction h with
  | atom is => exact each_atom is (hts _ (by simp) _ is)
  | paren _ ih => exact ih fun t ht => hts t (by simp [ht])
  | call _ _ _ _ _ ih =>
      exact List.forall_mem_cons.2 ⟨settled.compound _ rfl, ih fun t ht => hts t (by simp [ht])⟩
  | aggregate _ _ _ ih =>
      exact List.forall_mem_cons.2 ⟨settled.compound _ rfl, ih fun t ht => hts t (by simp [ht])⟩
  | windowed _ _ _ _ _ iharg ihover =>
      have harg := iharg fun t ht => hts t (by simp [ht])
      exact ihover (fun t ht => hts t (by simp [ht])) harg
  | ranking ranking _ _ ih =>
      exact ih (fun t ht => hts t (by simp [ht])) (each_ranking ranking)
  | case _ _ _ _ _ _ ihsubject ihbody ihlast =>
      have hsubject := ihsubject fun t ht => hts t (by simp [ht])
      have hbody := ihbody fun t ht => hts t (by simp [ht])
      have hlast := ihlast fun t ht => hts t (by simp [ht])
      refine List.forall_mem_cons.2 ⟨settled.compound _ rfl, List.forall_mem_append.2 ⟨?_, hlast⟩⟩
      exact List.forall_mem_append.2 ⟨hsubject, hbody⟩
  | minus _ ih => exact each_negate settled (ih fun t ht => hts t (by simp [ht]))
  | plus _ ih => exact ih fun t ht => hts t (by simp [ht])
  | not _ _ ih =>
      exact List.forall_mem_cons.2 ⟨settled.compound _ rfl, ih fun t ht => hts t (by simp [ht])⟩
  | binary _ _ _ ihleft ihright =>
      have hleft := ihleft fun t ht => hts t (by simp [ht])
      have hright := ihright fun t ht => hts t (by simp [ht])
      exact List.forall_mem_cons.2 ⟨settled.compound _ rfl, List.forall_mem_append.2 ⟨hleft, hright⟩⟩
  | isNull _ _ _ _ ih =>
      exact List.forall_mem_cons.2 ⟨settled.compound _ rfl, ih fun t ht => hts t (by simp [ht])⟩
  | inList _ _ _ _ ihsubject ihitems =>
      have hsubject := ihsubject fun t ht => hts t (by simp [ht])
      have hitems := ihitems fun t ht => hts t (by simp [ht])
      exact List.forall_mem_cons.2 ⟨settled.compound _ rfl, List.forall_mem_append.2 ⟨hsubject, hitems⟩⟩
  | between _ _ _ _ _ _ ihsubject ihlower ihupper =>
      have hsubject := ihsubject fun t ht => hts t (by simp [ht])
      have hlower := ihlower fun t ht => hts t (by simp [ht])
      have hupper := ihupper fun t ht => hts t (by simp [ht])
      refine List.forall_mem_cons.2 ⟨settled.compound _ rfl, List.forall_mem_append.2 ⟨?_, hupper⟩⟩
      exact List.forall_mem_append.2 ⟨hsubject, hlower⟩
  | like _ _ _ _ ihsubject ihform =>
      have hsubject := ihsubject fun t ht => hts t (by simp [ht])
      have hform := ihform fun t ht => hts t (by simp [ht])
      exact List.forall_mem_cons.2 ⟨settled.compound _ rfl, List.forall_mem_append.2 ⟨hsubject, hform⟩⟩
  | up _ ih => exact ih hts
  | listNone | star | partitionNone | orderNone | operandNone | branchesNone | otherwiseNone =>
      exact List.forall_mem_nil _
  | listSome _ ih => exact ih hts
  | itemsLast _ ih =>
      have hitem := ih fun t ht => hts t (by simp [ht])
      exact List.forall_mem_append.2 ⟨hitem, List.forall_mem_nil _⟩
  | itemsMore _ _ ihitem ihmore =>
      have hitem := ihitem fun t ht => hts t (by simp [ht])
      have hmore := ihmore fun t ht => hts t (by simp [ht])
      exact List.forall_mem_append.2 ⟨hitem, hmore⟩
  | plain _ _ ih => exact ih fun t ht => hts t (by simp [ht])
  | distinct _ _ ih => exact ih fun t ht => hts t (by simp [ht])
  | overWindow _ _ ihpartition ihorder =>
      intro hfunc
      have hpartition := ihpartition fun t ht => hts t (by simp [ht])
      have horder := ihorder fun t ht => hts t (by simp [ht])
      refine List.forall_mem_cons.2 ⟨settled.compound _ rfl, List.forall_mem_append.2 ⟨?_, horder⟩⟩
      exact List.forall_mem_append.2 ⟨hfunc, hpartition⟩
  | partitionSome _ _ _ ih => exact ih fun t ht => hts t (by simp [ht])
  | partitionsLast _ ih => exact List.forall_mem_append.2 ⟨ih hts, List.forall_mem_nil _⟩
  | partitionsMore _ _ ihitem ihmore =>
      have hitem := ihitem fun t ht => hts t (by simp [ht])
      have hmore := ihmore fun t ht => hts t (by simp [ht])
      exact List.forall_mem_append.2 ⟨hitem, hmore⟩
  | orderSome _ _ _ ih => exact ih fun t ht => hts t (by simp [ht])
  | keysLast _ _ ih =>
      have hitem := ih fun t ht => hts t (by simp [ht])
      exact List.forall_mem_append.2 ⟨hitem, List.forall_mem_nil _⟩
  | keysMore _ _ _ ihitem ihmore =>
      have hitem := ihitem fun t ht => hts t (by simp [ht])
      have hmore := ihmore fun t ht => hts t (by simp [ht])
      exact List.forall_mem_append.2 ⟨hitem, hmore⟩
  | operandSome _ ih => exact ih hts
  | branchesMore _ _ _ _ _ ihcondition ihresult ihmore =>
      have hcondition := ihcondition fun t ht => hts t (by simp [ht])
      have hresult := ihresult fun t ht => hts t (by simp [ht])
      have hmore := ihmore fun t ht => hts t (by simp [ht])
      refine List.forall_mem_append.2 ⟨?_, hmore⟩
      exact List.forall_mem_append.2 ⟨hcondition, hresult⟩
  | otherwiseSome _ _ ih => exact ih fun t ht => hts t (by simp [ht])

theorem writable_atom (ht : t.Written ∧ t.Named) (is : atom? t = some e) : e.Writable := by
  cases t with
  | ident name =>
      rw [atom?] at is
      repeat' split at is
      all_goals first
        | (cases is; done)
        | (cases is; trivial)
        | (cases is; exact ht.2)
  | integer i =>
      cases is
      exact fun hi => ht.1.2 (by rw [hi])
  | float x | string x =>
      cases is
      trivial
  | param name | quotedIdent name =>
      cases is
      exact ht.2
  | _ => cases is

end Grammar

theorem Expr.settled_writable : Expr.Settled Expr.Writable where
  compound e he := by cases e <;> trivial
  negate v hv := by
    cases v with
    | int i => exact Parser.neg_ne_minValue hv
    | array _ | object _ => exact hv.elim
    | _ => trivial

/-- Every expression in one that was read off a text can be written again. -/
theorem writable_of_parse {text : String} {e : Expr} (h : Expr.parse text = .ok e) :
    ∀ sub ∈ e.subterms, sub.Writable := by
  obtain ⟨ps, s, htokens, hwritten, hderives⟩ := derives_of_parse h
  have hnamed := tokensFrom_forall takeToken_named htokens
  refine hderives.each Expr.settled_writable fun t ht e is => ?_
  obtain ⟨p, hp, rfl⟩ := List.mem_map.1 ht
  exact Grammar.writable_atom ⟨hwritten p hp, hnamed p hp⟩ is

end RowPipeline
