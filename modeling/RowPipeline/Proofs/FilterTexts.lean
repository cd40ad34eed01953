import RowPipeline.Proofs.TokenTexts

/-!
# The SQL text of a filter tree

The text of a tree with plain values is read as the expression that mirrors the tree: a group is a
chain of its operator over its members from left to right. Every text on the way stands for one
comparison, with parentheses around a chain, so no member reaches over into the next one.
-/

namespace RowPipeline

open Grammar Spelling Sql

/-! ## The mirrored expression -/

/-- `1 = 1` or `1 = 0`: what always or never holds. -/
def Expr.constant (holds : Bool) : Expr :=
  .binary .eq (.literal (.int 1)) (.literal (.int (if holds then 1 else 0)))

/-- Whether an expression is among some values; there is none among no values. -/
def Expr.among (e : Expr) (items : List Value) (negated : Bool) : Expr :=
  if items.isEmpty then .constant negated else .inList e (items.map .literal) negated

/-- The expression of a condition on its field and its literals. -/
def FilterCondition.mirror (c : FilterCondition) : Expr :=
  let field := Expr.field c.field
  match c.operator with
  | .eq => .binary .eq field (.literal c.value)
  | .notEq => .binary .notEq field (.literal c.value)
  | .gt => .binary .gt field (.literal c.value)
  | .gtEq => .binary .gtEq field (.literal c.value)
  | .lt => .binary .lt field (.literal c.value)
  | .ltEq => .binary .ltEq field (.literal c.value)
  | .isIn => field.among (candidates c.value) false
  | .notIn => field.among (candidates c.value) true
  | .between =>
      match c.value with
      | .array [low, high] => .between field (.literal low) (.literal high) false
      | _ => .constant false
  | .like => .like field (.literal c.value) false
  | .notLike => .like field (.literal c.value) true
  | .isNull => .isNull field false
  | .isNotNull => .isNull field true

def LogicalOp.operator : LogicalOp → BinaryOp
  | .and => .and
  | .or => .or

namespace FilterNode

mutual

/-- The expression of a tree. A group of one is its member, an empty one a constant. -/
def mirror : FilterNode → Expr
  | .leaf c => c.mirror
  | .logical op children =>
      match mirrors children with
      | [] => .constant (op = .and)
      | first :: rest => rest.foldl (.binary op.operator) first

def mirrors : List FilterNode → List Expr
  | [] => []
  | n :: rest => n.mirror :: mirrors rest

end

end FilterNode

/-- A condition with a plain field whose value has the shape that its operator takes: plain values in a
list for IN, two of them for BETWEEN, and nothing in particular for IS NULL. -/
structure FilterCondition.Plain (c : FilterCondition) : Prop where
  valid : isValidIdentifier c.field = true
  free : Text.asciiUpper c.field ∉ fixedWords
  value : match c.operator with
    | .isNull | .isNotNull => True
    | .isIn | .notIn => ∀ v ∈ candidates c.value, v.Plain
    | .between => ∃ low high, c.value = .array [low, high] ∧ low.Plain ∧ high.Plain
    | _ => c.value.Plain

/-! ## Texts that say something -/

/-- A text that is read as an expression at a level, whatever slots stand before it. -/
def Says (ℓ : Level) (text : String) (e : Expr) : Prop :=
  ∃ ts, Spelt text ts ∧ ∀ s, Derives s ts (.expr ℓ e) s

variable {ℓ ℓ' : Level} {a b sign : String} {l r e : Expr} {t : Token} {op : BinaryOp} {v : Value}

theorem Says.loosen (h : Says ℓ a e) (hle : ℓ'.rank ≤ ℓ.rank) : Says ℓ' a e := by
  obtain ⟨ts, hspelt, hderives⟩ := h
  exact ⟨ts, hspelt, fun s => (hderives s).loosen hle⟩

theorem Says.of_text (h : Says ℓ a e) (htext : b.toList = a.toList) : Says ℓ b e := by
  obtain ⟨ts, hspelt, hderives⟩ := h
  exact ⟨ts, hspelt.of_text htext, hderives⟩

theorem says_field {name : String} (hvalid : isValidIdentifier name = true)
    (hfree : Text.asciiUpper name ∉ fixedWords) : Says .primary name (.field name) :=
  ⟨[.ident name], spelt_identifier hvalid, fun _ => .atom (atom?_ident hfree)⟩

theorem says_literal (h : v.Plain) : Says .unary (Sql.literal .generic v) (.literal v) := by
  refine ⟨v.literalTokens, spelt_literal h, fun s => ?_⟩
  cases v with
  | null => exact .up (.atom rfl)
  | bool b => cases b <;> exact .up (.atom rfl)
  | int i =>
      rw [Value.literalTokens]
      split
      · have hminus := Derives.minus (.up (.atom (t := .integer (-i)) (s := s) rfl))
        rwa [Parser.negate, Int64.neg_neg] at hminus
      · exact .up (.atom rfl)
  | string x => exact .up (.atom rfl)
  | float x | array items | object fields => exact h.elim

/-- A bound of BETWEEN, a pattern, or the other side of a comparison. -/
theorem says_bound (h : v.Plain) : Says .additive (Sql.literal .generic v) (.literal v) :=
  (says_literal h).loosen (by decide)

theorem Says.parens (h : Says ℓ a e) : Says .primary ("(" ++ (a ++ ")")) e := by
  obtain ⟨ts, hspelt, hderives⟩ := h
  refine ⟨_, hspelt.parens.spelt, fun s => .paren ((hderives s).loosen ?_)⟩
  cases ℓ <;> decide

theorem Says.binary (hl : Says op.level a l) (hr : Says op.level.next b r)
    (hsign : Spelt sign [op.token]) :
    Says op.level (a ++ (" " ++ (sign ++ (" " ++ b)))) (.binary op l r) := by
  obtain ⟨ts, hspelt, hderives⟩ := hl
  obtain ⟨us, hspelt', hderives'⟩ := hr
  refine ⟨ts ++ op.token :: us, hspelt.spaced (hsign.spaced hspelt'), fun s => ?_⟩
  exact .binary (hderives s) op.joins_token (hderives' s)

theorem says_constant (holds : Bool) :
    Says .comparison (if holds then "1 = 1" else "1 = 0") (.constant holds) := by
  have hnumber (i : Int64) (hi : i ≠ Int64.minValue) :
      Says .unary (toString i.toInt) (.literal (.int i)) := says_literal (v := .int i) hi
  have hone : Says BinaryOp.eq.level _ _ := (hnumber 1 (by decide)).loosen (by decide)
  cases holds with
  | false =>
      have hzero : Says BinaryOp.eq.level.next _ _ := (hnumber 0 (by decide)).loosen (by decide)
      exact (hone.binary hzero spelt_eq).of_text (by decide)
  | true =>
      have hother : Says BinaryOp.eq.level.next _ _ := (hnumber 1 (by decide)).loosen (by decide)
      exact (hone.binary hother spelt_eq).of_text (by decide)

/-! ## Conditions -/

section Conditions

variable {field : Expr} {items : List Value}

theorem Says.isNull (h : Says .comparison a e) (negated : Bool) :
    Says .comparison (a ++ (" " ++ ("IS" ++ (" " ++ (Sql.negation negated ++ "NULL")))))
      (.isNull e negated) := by
  obtain ⟨ts, hspelt, hderives⟩ := h
  have hnull := spelt_negated negated (spelt_word "NULL" (by decide))
  refine ⟨_, hspelt.spaced (hnull.after "IS" (by decide)), fun s => ?_⟩
  exact .isNull (hderives s) rfl (negates_negation negated) rfl

theorem Says.like (h : Says .comparison a e) (hpattern : Says .additive b r) (negated : Bool) :
    Says .comparison (a ++ (" " ++ (Sql.negation negated ++ ("LIKE" ++ (" " ++ b)))))
      (.like e r negated) := by
  obtain ⟨ts, hspelt, hderives⟩ := h
  obtain ⟨us, hspelt', hderives'⟩ := hpattern
  have hlike := spelt_negated negated (hspelt'.after "LIKE" (by decide))
  refine ⟨_, hspelt.spaced hlike, fun s => ?_⟩
  exact .like (hderives s) (negates_negation negated) rfl (hderives' s)

theorem Says.between {low high : String} (h : Says .comparison a e) (hlow : Says .additive low l)
    (hhigh : Says .additive high r) :
    Says .comparison (a ++ (" " ++ ("BETWEEN" ++ (" " ++ (low ++ (" " ++ ("AND" ++ (" " ++ high))))))))
      (.between e l r false) := by
  obtain ⟨ts, hspelt, hderives⟩ := h
  obtain ⟨ls, hspelt₁, hderives₁⟩ := hlow
  obtain ⟨rs, hspelt₂, hderives₂⟩ := hhigh
  have hbounds := (hspelt₁.spaced (hspelt₂.after "AND" (by decide))).after "BETWEEN" (by decide)
  refine ⟨_, hspelt.spaced hbounds, fun s => ?_⟩
  exact .between (hderives s) .no rfl (hderives₁ s) rfl (hderives₂ s)

/-- The literals of a list that is not empty, as its items. -/
theorem derives_items (hitems : ∀ v ∈ items, v.Plain) (nonempty : items ≠ []) :
    ∃ tss, List.Forall₂ Spelt (literals .generic items) tss ∧
      ∀ s, Derives s (separated tss ++ [.rparen]) (.items (items.map .literal)) s := by
  induction items with
  | nil => exact absurd rfl nonempty
  | cons v rest ih =>
      obtain ⟨hv, hrest⟩ := List.forall_mem_cons.1 hitems
      obtain ⟨ts, hspelt, hderives⟩ : Says .or _ _ := (says_literal hv).loosen (by decide)
      cases rest with
      | nil =>
          refine ⟨[ts], .cons hspelt .nil, fun s => ?_⟩
          rw [separated, List.intercalate_singleton]
          exact .itemsLast (hderives s)
      | cons w more =>
          obtain ⟨tss, hspelts, hmore⟩ := ih hrest (by simp)
          cases hspelts with
          | @cons _ us _ tss hus htss =>
              refine ⟨ts :: us :: tss, .cons hspelt (.cons hus htss), fun s => ?_⟩
              rw [separated_cons, List.append_assoc]
              exact .itemsMore (hderives s) (hmore s)

theorem Says.inList (h : Says .comparison a e) (hitems : ∀ v ∈ items, v.Plain)
    (nonempty : items ≠ []) (negated : Bool) :
    Says .comparison
      (a ++ (" " ++ (Sql.negation negated ++ ("IN" ++ (" " ++ Sql.literal .generic (.array items))))))
      (.inList e (items.map .literal) negated) := by
  obtain ⟨ts, hspelt, hderives⟩ := h
  obtain ⟨tss, hspelts, hitems⟩ := derives_items hitems nonempty
  have hlist := (Spelt.commas hspelts).parens.spelt.of_text (b := Sql.literal .generic (.array items))
    (by simp [Sql.literal])
  refine ⟨_, hspelt.spaced (spelt_negated negated (hlist.after "IN" (by decide))), fun s => ?_⟩
  exact .inList (hderives s) (negates_negation negated) rfl (.listSome (hitems s))

/-- A field compared with a value. -/
theorem Says.compared (h : Says .comparison a e) (hv : v.Plain) (hsign : Spelt sign [op.token])
    (hop : op.level = .comparison) :
    Says .comparison (a ++ (" " ++ (sign ++ (" " ++ Sql.literal .generic v))))
      (.binary op e (.literal v)) := by
  have hleft : Says op.level a e := by rwa [hop]
  have hright : Says op.level.next (Sql.literal .generic v) (.literal v) := by
    rw [hop]
    exact says_bound hv
  have hboth := hleft.binary hright hsign
  rwa [hop] at hboth

end Conditions

namespace FilterCondition

variable {c : FilterCondition}

theorem Plain.column_eq (h : c.Plain) : identifier c.field = .ok c.field := if_pos h.valid

theorem Plain.says_column (h : c.Plain) : Says .comparison c.field (.field c.field) :=
  (says_field h.valid h.free).loosen (by decide)

/-- The operators of two values. -/
theorem says_compared {operator : FilterOperator} (h : c.Plain) (hop : operator = c.operator)
    (hv : c.value.Plain) (hsign : Spelt operator.sql [op.token]) (hlevel : op.level = .comparison)
    (htext : c.toSql .generic identifier
      = .ok (c.field ++ " " ++ c.operator.sql ++ " " ++ Sql.literal .generic c.value)) :
    ∃ text, c.toSql .generic identifier = .ok text ∧
      Says .comparison text (.binary op (.field c.field) (.literal c.value)) := by
  subst hop
  exact ⟨_, htext, (h.says_column.compared hv hsign hlevel).of_text (by simp)⟩

/-- IN and NOT IN. -/
theorem says_among (h : c.Plain) (hitems : ∀ v ∈ candidates c.value, v.Plain) (negated : Bool)
    (hop : c.operator = if negated then .notIn else .isIn) :
    ∃ text, c.toSql .generic identifier = .ok text ∧
      Says .comparison text ((Expr.field c.field).among (candidates c.value) negated) := by
  rw [toSql, h.column_eq, hop, Expr.among]
  cases hcandidates : candidates c.value with
  | nil =>
      cases negated with
      | false => exact ⟨_, rfl, says_constant false⟩
      | true => exact ⟨_, rfl, says_constant true⟩
  | cons v rest =>
      rw [hcandidates] at hitems
      have hmember := h.says_column.inList hitems (by simp) negated
      cases negated <;> exact ⟨_, rfl, hmember.of_text (by simp [Sql.negation, FilterOperator.sql])⟩

/-- LIKE and NOT LIKE. -/
theorem says_like (h : c.Plain) (hv : c.value.Plain) (negated : Bool)
    (hop : c.operator = if negated then .notLike else .like) :
    ∃ text, c.toSql .generic identifier = .ok text ∧
      Says .comparison text (.like (.field c.field) (.literal c.value) negated) := by
  have hlike := h.says_column.like (says_bound hv) negated
  rw [toSql, h.column_eq, hop]
  cases negated <;> exact ⟨_, rfl, hlike.of_text (by simp [Sql.negation, FilterOperator.sql])⟩

/-- IS NULL and IS NOT NULL. -/
theorem says_isNull (h : c.Plain) (negated : Bool)
    (hop : c.operator = if negated then .isNotNull else .isNull) :
    ∃ text, c.toSql .generic identifier = .ok text ∧
      Says .comparison text (.isNull (.field c.field) negated) := by
  have hnull := h.says_column.isNull negated
  rw [toSql, h.column_eq, hop]
  cases negated <;> exact ⟨_, rfl, hnull.of_text (by simp [Sql.negation, FilterOperator.sql])⟩

/-- The text of a plain condition is read as the expression that mirrors it. -/
theorem says_mirror (h : c.Plain) :
    ∃ text, c.toSql .generic identifier = .ok text ∧ Says .comparison text c.mirror := by
  have hcolumn := h.column_eq
  have hvalue := h.value
  obtain ⟨operator, hop⟩ : ∃ operator, operator = c.operator := ⟨_, rfl⟩
  rw [mirror]
  rw [← hop] at hvalue ⊢
  cases operator with
  | eq => exact says_compared h hop hvalue spelt_eq rfl (by rw [toSql, hcolumn, ← hop]; rfl)
  | notEq =>
      have hsign : Spelt "!=" [.notEq] := spelt_sign rfl (by decide) fun _ _ => rfl
      exact says_compared h hop hvalue hsign rfl (by rw [toSql, hcolumn, ← hop]; rfl)
  | gt => exact says_compared h hop hvalue spelt_gt rfl (by rw [toSql, hcolumn, ← hop]; rfl)
  | gtEq =>
      exact says_compared h hop hvalue (spelt_operator .gtEq) rfl (by rw [toSql, hcolumn, ← hop]; rfl)
  | lt => exact says_compared h hop hvalue spelt_lt rfl (by rw [toSql, hcolumn, ← hop]; rfl)
  | ltEq =>
      exact says_compared h hop hvalue (spelt_operator .ltEq) rfl (by rw [toSql, hcolumn, ← hop]; rfl)
  | isIn => exact says_among h hvalue false hop.symm
  | notIn => exact says_among h hvalue true hop.symm
  | between =>
      obtain ⟨low, high, hpair, hlow, hhigh⟩ := hvalue
      have hbetween := h.says_column.between (says_bound hlow) (says_bound hhigh)
      refine ⟨_, by rw [toSql, hcolumn, ← hop, hpair]; rfl, ?_⟩
      rw [hpair]
      exact hbetween.of_text (by simp)
  | like => exact says_like h hvalue false hop.symm
  | notLike => exact says_like h hvalue true hop.symm
  | isNull => exact says_isNull h false hop.symm
  | isNotNull => exact says_isNull h true hop.symm

end FilterCondition

/-! ## Trees -/

theorem spelt_keyword (op : LogicalOp) : Spelt op.keyword [op.operator.token] := by
  cases op <;> exact spelt_word _ (by decide)

/-- The first two of some texts joined. -/
theorem intercalate_merge (sep : String) (rest : List String) :
    sep.intercalate (a :: b :: rest) = sep.intercalate ((a ++ sep ++ b) :: rest) := by
  cases rest with
  | nil => simp [String.intercalate_cons_cons]
  | cons c rest => simp only [String.intercalate_cons_cons, String.append_assoc]

/-- Texts with an operator between are a chain of it over what they say, from left to right. -/
theorem says_chain (op : LogicalOp) {texts : List String} {es : List Expr}
    (hfirst : Says op.operator.level a e)
    (hrest : List.Forall₂ (Says .comparison) texts es) :
    Says op.operator.level ((" " ++ op.keyword ++ " ").intercalate (a :: texts))
      (es.foldl (.binary op.operator) e) := by
  -- the first two texts are a text of the chain by themselves, with one text less behind it
  induction hrest generalizing a e with
  | nil => simpa using hfirst
  | @cons b r texts es hnext hmore ih =>
      have hright : Says op.operator.level.next b r := by
        refine hnext.loosen ?_
        cases op <;> decide
      have hboth := hfirst.binary hright (spelt_keyword op)
      rw [intercalate_merge, List.foldl_cons]
      exact ih (hboth.of_text (by simp))

namespace FilterNode

mutual

theorem says_mirror : ∀ n : FilterNode, (∀ c ∈ n.leaves, c.Plain) →
    ∃ text, n.toSqlWith .generic identifier = .ok text ∧ Says .comparison text n.mirror
  | .leaf c, h => by
      have hc : c.Plain := h c (by simp [leaves])
      obtain ⟨text, htext, hsays⟩ := FilterCondition.says_mirror hc
      exact ⟨text, by rw [toSqlWith, htext], by rwa [mirror]⟩
  | .logical op [], _ => by
      cases op with
      | and => exact ⟨_, rfl, says_constant true⟩
      | or => exact ⟨_, rfl, says_constant false⟩
  | .logical op [only], h => by
      rw [leaves, leavesOf, leavesOf, List.append_nil] at h
      obtain ⟨text, htext, hsays⟩ := says_mirror only h
      exact ⟨text, by rw [toSqlWith, htext], by simpa [mirror, mirrors] using hsays⟩
  | .logical op (first :: second :: rest), h => by
      rw [leaves, leavesOf, leavesOf, List.forall_mem_append, List.forall_mem_append] at h
      obtain ⟨a, ha, hfirst⟩ := says_mirror first h.1
      obtain ⟨b, hb, hsecond⟩ := says_mirror second h.2.1
      obtain ⟨others, hothers, hrest⟩ := says_mirrors rest h.2.2
      refine ⟨_, by rw [toSqlWith, ha, hb, hothers]; rfl, ?_⟩
      -- every member binds tighter than AND and OR
      have hloose : Says op.operator.level a first.mirror := by
        refine hfirst.loosen ?_
        cases op <;> decide
      have hchain := (says_chain op hloose (.cons hsecond hrest)).parens
      simp only [mirror, mirrors]
      exact (hchain.loosen (by decide)).of_text (by simp)

theorem says_mirrors : ∀ ns : List FilterNode, (∀ c ∈ leavesOf ns, c.Plain) →
    ∃ texts, toSqlAll .generic identifier ns = .ok texts ∧
      List.Forall₂ (Says .comparison) texts (mirrors ns)
  | [], _ => ⟨[], rfl, by rw [mirrors]; exact .nil⟩
  | n :: rest, h => by
      rw [leavesOf, List.forall_mem_append] at h
      obtain ⟨text, htext, hn⟩ := says_mirror n h.1
      obtain ⟨texts, htexts, hrest⟩ := says_mirrors rest h.2
      refine ⟨text :: texts, by rw [toSqlAll, htext, htexts]; rfl, ?_⟩
      rw [mirrors]
      exact .cons hn hrest

end

/-- The SQL text of a tree of plain conditions exists and is read as the expression that mirrors the
tree. -/
theorem parse_toSql_mirror {n : FilterNode} (h : ∀ c ∈ n.leaves, c.Plain) :
    ∃ text, n.toSql .generic = .ok text ∧ Expr.parse text = .ok n.mirror := by
  obtain ⟨text, htext, hsays⟩ := n.says_mirror h
  obtain ⟨ts, hspelt, hderives⟩ : Says .or _ _ := hsays.loosen (by decide)
  exact ⟨text, htext, parse_of_derives hspelt.lexes (hderives 0)⟩

theorem parse_toSql_mirror_between :
    let between : FilterCondition := ⟨"a", .between, .array [.int (-1), .int 2], none⟩
    let among : FilterCondition := ⟨"t.b", .notIn, .array [.string "it's", .null], none⟩
    let absent : FilterCondition := ⟨"c", .isNull, .null, none⟩
    let n : FilterNode := .logical .and [.leaf between, .logical .or [.leaf among, .leaf absent]]
    (∀ c ∈ n.leaves, c.Plain) ∧
      ∃ text, n.toSql .generic = .ok text ∧ Expr.parse text = .ok n.mirror := by
  intro between among absent n
  have hbetween : between.Plain :=
    ⟨by decide, by decide, .int (-1), .int 2, rfl, (by decide : (-1 : Int64) ≠ Int64.minValue),
      (by decide : (2 : Int64) ≠ Int64.minValue)⟩
  have hamong : among.Plain := by
    refine ⟨by decide, by decide, List.forall_mem_cons.2 ⟨?_, List.forall_mem_singleton.2 trivial⟩⟩
    exact (by decide : '\\' ∉ "it's".toList)
  have habsent : absent.Plain := ⟨by decide, by decide, trivial⟩
  have hplain : ∀ c ∈ n.leaves, c.Plain := by
    simp [n, leaves, leavesOf, hbetween, hamong, habsent]
  exact ⟨hplain, parse_toSql_mirror hplain⟩

end FilterNode

end RowPipeline
