import RowPipeline.Proofs.CompositeKeys
import RowPipeline.Proofs.DoubleOrder
import RowPipeline.Proofs.Record

/-!
# Keys and equality

Equal values share a key, and values that share a key are equal, with three exceptions. A key is exact
where equality rounds an integer to a double; it tells no kinds of numbers apart where equality does, in
containers, and no infinity from null; and it keeps the order of names, which does not count for equality.
-/

namespace RowPipeline.Value

/-! ## Names -/

mutual

/-- A value whose objects have each name once, those inside of it too. -/
def NamedOnce : Value → Prop
  | .array items => NamedOnceItems items
  | .object fields => (fields.map Prod.fst).Nodup ∧ NamedOnceFields fields
  | .null | .bool _ | .int _ | .float _ | .string _ => True

def NamedOnceItems : List Value → Prop
  | [] => True
  | v :: rest => v.NamedOnce ∧ NamedOnceItems rest

def NamedOnceFields : List (String × Value) → Prop
  | [] => True
  | f :: rest => f.2.NamedOnce ∧ NamedOnceFields rest

end

/-! ## Where keys and equality may differ -/

mutual

/-- In no place do the values have an integer beside the double that stands for it, two different doubles
that are not finite, or such a double beside null. -/
def Discerned : Value → Value → Prop
  | .int i, .float x | .float x, .int i => Binary64.smallInt64? x ≠ some i
  | .null, .float x | .float x, .null => x.isFinite = true
  | .float x, .float y => x.isFinite = true ∨ y.isFinite = true ∨ (x == y) = true
  | .array as, .array bs => DiscernedItems as bs
  | .object as, .object bs => DiscernedFields as bs
  | _, _ => True

def DiscernedItems : List Value → List Value → Prop
  | a :: as, b :: bs => a.Discerned b ∧ DiscernedItems as bs
  | _, _ => True

def DiscernedFields : List (String × Value) → List (String × Value) → Prop
  | (_, a) :: as, (_, b) :: bs => a.Discerned b ∧ DiscernedFields as bs
  | _, _ => True

end

mutual

/-- In no place do the values have objects with the same names in different orders. -/
def Aligned : Value → Value → Prop
  | .array as, .array bs => AlignedItems as bs
  | .object as, .object bs =>
      ((as.map Prod.fst).Perm (bs.map Prod.fst) → as.map Prod.fst = bs.map Prod.fst) ∧
        AlignedFields as bs
  | _, _ => True

def AlignedItems : List Value → List Value → Prop
  | a :: as, b :: bs => a.Aligned b ∧ AlignedItems as bs
  | _, _ => True

def AlignedFields : List (String × Value) → List (String × Value) → Prop
  | (_, a) :: as, (_, b) :: bs => a.Aligned b ∧ AlignedFields as bs
  | _, _ => True

end

/-! ## Doubles -/

/-- The key of a double stands for its integer, for itself or, if it is not finite, for null. -/
theorem keyForm_float_cases (x : Float) :
    (∃ i, Binary64.smallInt64? x = some i ∧ x.isFinite = true ∧ (float x).keyForm = int i) ∨
      (Binary64.smallInt64? x = none ∧ x.isFinite = true ∧ (float x).keyForm = float x) ∨
      (Binary64.smallInt64? x = none ∧ x.isFinite = false ∧ (float x).keyForm = null) := by
  cases hsmall : Binary64.smallInt64? x with
  | some i =>
      have hfinite : x.isFinite = true := by
        rw [← Binary64.decode?_isSome]
        cases hx : Binary64.decode? x with
        | some d => rfl
        | none =>
            rw [Binary64.smallInt64?, hx] at hsmall
            cases hsmall
      exact .inl ⟨i, rfl, hfinite, by rw [keyForm_float, hsmall]⟩
  | none =>
      cases hfinite : x.isFinite with
      | true => exact .inr (.inl ⟨rfl, rfl, by rw [keyForm_float, hsmall]; exact if_pos hfinite⟩)
      | false =>
          refine .inr (.inr ⟨rfl, rfl, ?_⟩)
          rw [keyForm_float, hsmall]
          exact if_neg (by rw [hfinite]; exact Bool.false_ne_true)

theorem keyForm_float_eq_null {x : Float} : (float x).keyForm = null ↔ x.isFinite = false := by
  rcases keyForm_float_cases x with ⟨i, -, hx, hform⟩ | ⟨-, hx, hform⟩ | ⟨-, hx, hform⟩ <;>
    simp [hx, hform]

theorem keyForm_float_eq_int {x : Float} {i : Int64} :
    (float x).keyForm = int i ↔ Binary64.smallInt64? x = some i := by
  rcases keyForm_float_cases x with ⟨k, hx, -, hform⟩ | ⟨hx, -, hform⟩ | ⟨hx, -, hform⟩ <;>
    simp [hx, hform]

/-- Equal doubles share a key. -/
theorem keyForm_float_congr {x y : Float} (h : (x == y) = true) :
    (float x).keyForm = (float y).keyForm := by
  have hsmall := Binary64.smallInt64?_congr h
  obtain ⟨hx, hy, hplace⟩ := (Binary64.beq_iff_place x y).mp h
  have hfinite : x.isFinite = y.isFinite := by
    rw [Bool.eq_iff_iff, Binary64.isFinite_iff_place hx, Binary64.isFinite_iff_place hy, hplace]
  rw [keyForm_float, keyForm_float, ← hsmall, ← hfinite]
  cases hi : Binary64.smallInt64? x with
  | some i => rfl
  | none =>
      dsimp only
      split
      · rename_i hfinite
        rcases Binary64.eq_or_zero_of_beq h hfinite with rfl | ⟨rfl | rfl, -⟩
        · rfl
        · rw [Binary64.smallInt64?_zero] at hi
          cases hi
        · rw [Binary64.smallInt64?_negZero] at hi
          cases hi
      · rfl

/-- Doubles that share a key are equal, unless they are not finite. -/
theorem beq_of_keyForm {x y : Float} (h : (float x).keyForm = (float y).keyForm)
    (hx : x.isFinite = true) : (x == y) = true := by
  rcases keyForm_float_cases x with ⟨i, hsmall, -, hform⟩ | ⟨-, -, hform⟩ | ⟨-, hinfinite, -⟩
  · have hsmall' := keyForm_float_eq_int.mp (h.symm.trans hform)
    obtain ⟨-, hnan, hplace⟩ := (Binary64.beq_iff_place _ _).mp
      (Binary64.ofInt64_beq_of_smallInt64? hsmall)
    obtain ⟨-, hnan', hplace'⟩ := (Binary64.beq_iff_place _ _).mp
      (Binary64.ofInt64_beq_of_smallInt64? hsmall')
    exact (Binary64.beq_iff_place x y).mpr ⟨hnan, hnan', hplace.symm.trans hplace'⟩
  · have hxy : x = y := by
      rcases keyForm_float_cases y with ⟨i, -, -, hform'⟩ | ⟨-, -, hform'⟩ | ⟨-, -, hform'⟩ <;>
        rw [hform, hform'] at h <;> cases h
      rfl
    subst hxy
    have hnan := Binary64.isNaN_of_isFinite hx
    exact (Binary64.beq_iff_place x x).mpr ⟨hnan, hnan, rfl⟩
  · rw [hx] at hinfinite
    cases hinfinite

/-- The kinds of value that the key of a double stands for. -/
theorem kindRank_keyForm_float (x : Float) :
    (float x).keyForm.kindRank = 0 ∨ (float x).keyForm.kindRank = 2 := by
  rcases keyForm_float_cases x with ⟨i, -, -, hform⟩ | ⟨-, -, hform⟩ | ⟨-, -, hform⟩ <;> rw [hform]
  · exact .inr rfl
  · exact .inr rfl
  · exact .inl rfl

theorem beq_iff_of_keyForm {x y : Float} (h : (float x).keyForm = (float y).keyForm) :
    (x == y) = true ↔ x.isFinite = true ∨ y.isFinite = true ∨ (x == y) = true := by
  refine ⟨fun heq => .inr (.inr heq), ?_⟩
  rintro (hx | hy | heq)
  · exact beq_of_keyForm h hx
  · exact Binary64.beq_comm x y ▸ beq_of_keyForm h.symm hy
  · exact heq

/-! ## Values with one key -/

mutual

/-- Values that share a key are the same where they are discerned. -/
theorem same_iff_discerned (a : Value) {b : Value} (h : a.keyForm = b.keyForm) (hb : b.NamedOnce) :
    a.same b = true ↔ a.Discerned b := by
  cases a with
  | null =>
      cases b with
      | null => exact ⟨fun _ => trivial, fun _ => rfl⟩
      | float x =>
          have hx : x.isFinite = false := keyForm_float_eq_null.mp h.symm
          simp [same, Discerned, hx]
      | _ => cases h
  | int i =>
      cases b with
      | int k => exact iff_of_true (beq_iff_eq.mpr (int.inj h)) trivial
      | float x =>
          have hx : Binary64.smallInt64? x = some i := keyForm_float_eq_int.mp h.symm
          simp [same, Discerned, hx]
      | _ => cases h
  | float x =>
      cases b with
      | null =>
          have hx : x.isFinite = false := keyForm_float_eq_null.mp h
          simp [same, Discerned, hx]
      | int i =>
          have hx : Binary64.smallInt64? x = some i := keyForm_float_eq_int.mp h
          simp [same, Discerned, hx]
      | float y => exact beq_iff_of_keyForm h
      | _ => exact absurd (h ▸ kindRank_keyForm_float x) (by simp [keyForm, kindRank])
  | bool c =>
      cases b with
      | bool d => exact iff_of_true (beq_iff_eq.mpr (bool.inj h)) trivial
      | float x => exact absurd (h ▸ kindRank_keyForm_float x) (by simp [keyForm, kindRank])
      | _ => cases h
  | string s =>
      cases b with
      | string t => exact iff_of_true (beq_iff_eq.mpr (string.inj h)) trivial
      | float x => exact absurd (h ▸ kindRank_keyForm_float x) (by simp [keyForm, kindRank])
      | _ => cases h
  | array as =>
      cases b with
      | array bs => exact sameItems_iff_discerned as (array.inj h) hb
      | float x => exact absurd (h ▸ kindRank_keyForm_float x) (by simp [keyForm, kindRank])
      | _ => cases h
  | object as =>
      cases b with
      | object bs =>
          have hfields : fieldsKeyForm as = fieldsKeyForm bs := object.inj h
          have hnames : as.map Prod.fst = bs.map Prod.fst := by
            rw [← names_fieldsKeyForm as, hfields, names_fieldsKeyForm]
          have hlength : as.length = bs.length := by simpa using congrArg List.length hnames
          rw [same, Bool.and_eq_true_iff, beq_iff_eq, Discerned, and_iff_right hlength]
          exact sameFields_iff_discerned as hfields hb.2 (fun _ hf => hf) hb.1
      | float x => exact absurd (h ▸ kindRank_keyForm_float x) (by simp [keyForm, kindRank])
      | _ => cases h
termination_by structural a

theorem sameItems_iff_discerned (as : List Value) {bs : List Value} (h : itemsKeyForm as = itemsKeyForm bs)
    (hb : NamedOnceItems bs) : sameItems as bs = true ↔ DiscernedItems as bs := by
  cases as with
  | nil =>
      cases bs with
      | nil => exact ⟨fun _ => trivial, fun _ => rfl⟩
      | cons b bs => cases h
  | cons a as =>
      cases bs with
      | nil => cases h
      | cons b bs =>
          obtain ⟨hhead, hrest⟩ := List.cons.inj h
          rw [sameItems, Bool.and_eq_true_iff, DiscernedItems, same_iff_discerned a hhead hb.1,
            sameItems_iff_discerned as hrest hb.2]
termination_by structural as

theorem sameFields_iff_discerned (as : List (String × Value)) {bs other : List (String × Value)}
    (h : fieldsKeyForm as = fieldsKeyForm bs) (hb : NamedOnceFields bs)
    (hmem : ∀ f ∈ bs, f ∈ other) (nodup : (other.map Prod.fst).Nodup) :
    sameFields as other = true ↔ DiscernedFields as bs := by
  cases as with
  | nil =>
      cases bs with
      | nil => exact ⟨fun _ => trivial, fun _ => rfl⟩
      | cons b bs => cases h
  | cons f as =>
      obtain ⟨name, a⟩ := f
      cases bs with
      | nil => cases h
      | cons b bs =>
          obtain ⟨hhead, hrest⟩ := List.cons.inj h
          obtain ⟨hname, hvalue⟩ := Prod.mk.inj hhead
          obtain ⟨hbmem, hmem⟩ := List.forall_mem_cons.mp hmem
          have hfound : Assoc.get? name other = some b.2 := hname ▸ Assoc.get?_of_mem nodup hbmem
          rw [sameFields, hfound, Bool.and_eq_true_iff, DiscernedFields,
            same_iff_discerned a hvalue hb.1, sameFields_iff_discerned as hrest hb.2 hmem nodup]
termination_by structural as

end

/-! ## Values that are the same -/

/-- Fields that are found in others have names of others. -/
theorem names_subset_of_sameFields {as other : List (String × Value)}
    (h : sameFields as other = true) : as.map Prod.fst ⊆ other.map Prod.fst := by
  induction as with
  | nil => exact List.nil_subset _
  | cons f as ih =>
      obtain ⟨name, a⟩ := f
      rw [sameFields, Bool.and_eq_true_iff] at h
      refine List.cons_subset.mpr ⟨?_, ih h.2⟩
      rw [← Assoc.get?_isSome]
      cases hfound : Assoc.get? name other with
      | some b => rfl
      | none =>
          rw [hfound] at h
          cases h.1

/-- Objects that are the same have the same names, in some order. -/
theorem names_perm_of_same {as bs : List (String × Value)} (h : (object as).same (object bs) = true)
    (ha : (as.map Prod.fst).Nodup) : (as.map Prod.fst).Perm (bs.map Prod.fst) := by
  rw [same, Bool.and_eq_true_iff, beq_iff_eq] at h
  have hsub := List.subperm_of_subset ha (names_subset_of_sameFields h.2)
  exact hsub.perm_of_length_le (by simp [h.1])

mutual

/-- Values that are the same share a key where they are aligned. -/
theorem keyForm_iff_aligned (a : Value) {b : Value} (h : a.same b = true) (ha : a.NamedOnce)
    (hb : b.NamedOnce) : a.keyForm = b.keyForm ↔ a.Aligned b := by
  cases a with
  | null =>
      cases b with
      | null => exact iff_of_true rfl trivial
      | _ => cases h
  | bool c =>
      cases b with
      | bool d => exact iff_of_true (congrArg bool (beq_iff_eq.mp h)) trivial
      | _ => cases h
  | int i =>
      cases b with
      | int k => exact iff_of_true (congrArg int (beq_iff_eq.mp h)) trivial
      | _ => cases h
  | float x =>
      cases b with
      | float y => exact iff_of_true (keyForm_float_congr h) trivial
      | _ => cases h
  | string s =>
      cases b with
      | string t => exact iff_of_true (congrArg string (beq_iff_eq.mp h)) trivial
      | _ => cases h
  | array as =>
      cases b with
      | array bs =>
          rw [keyForm, keyForm, array.injEq]
          exact itemsKeyForm_iff_aligned as h ha hb
      | _ => cases h
  | object as =>
      cases b with
      | object bs =>
          have hperm := names_perm_of_same h ha.1
          rw [same, Bool.and_eq_true_iff] at h
          rw [keyForm, keyForm, object.injEq, Aligned]
          constructor
          · intro hform
            have hnames : as.map Prod.fst = bs.map Prod.fst := by
              rw [← names_fieldsKeyForm as, hform, names_fieldsKeyForm]
            exact ⟨fun _ => hnames, (fieldsKeyForm_iff_aligned as h.2 hnames ha.2 hb.2
              (fun _ hf => hf) hb.1).mp hform⟩
          · rintro ⟨hnames, haligned⟩
            exact (fieldsKeyForm_iff_aligned as h.2 (hnames hperm) ha.2 hb.2
              (fun _ hf => hf) hb.1).mpr haligned
      | _ => cases h
termination_by structural a

theorem itemsKeyForm_iff_aligned (as : List Value) {bs : List Value} (h : sameItems as bs = true)
    (ha : NamedOnceItems as) (hb : NamedOnceItems bs) :
    itemsKeyForm as = itemsKeyForm bs ↔ AlignedItems as bs := by
  cases as with
  | nil =>
      cases bs with
      | nil => exact iff_of_true rfl trivial
      | cons b bs => cases h
  | cons a as =>
      cases bs with
      | nil => cases h
      | cons b bs =>
          rw [sameItems, Bool.and_eq_true_iff] at h
          rw [itemsKeyForm, itemsKeyForm, List.cons.injEq, AlignedItems,
            keyForm_iff_aligned a h.1 ha.1 hb.1, itemsKeyForm_iff_aligned as h.2 ha.2 hb.2]
termination_by structural as

theorem fieldsKeyForm_iff_aligned (as : List (String × Value)) {bs other : List (String × Value)}
    (h : sameFields as other = true) (names : as.map Prod.fst = bs.map Prod.fst)
    (ha : NamedOnceFields as) (hb : NamedOnceFields bs) (hmem : ∀ f ∈ bs, f ∈ other)
    (nodup : (other.map Prod.fst).Nodup) :
    fieldsKeyForm as = fieldsKeyForm bs ↔ AlignedFields as bs := by
  cases as with
  | nil =>
      cases bs with
      | nil => exact iff_of_true rfl trivial
      | cons b bs => cases names
  | cons f as =>
      obtain ⟨name, a⟩ := f
      cases bs with
      | nil => cases names
      | cons g bs =>
          obtain ⟨name', b⟩ := g
          obtain ⟨hname, hnames⟩ := List.cons.inj names
          obtain rfl : name = name' := hname
          obtain ⟨hbmem, hmem⟩ := List.forall_mem_cons.mp hmem
          rw [sameFields, Assoc.get?_of_mem nodup hbmem, Bool.and_eq_true_iff] at h
          rw [fieldsKeyForm, fieldsKeyForm, List.cons.injEq, Prod.mk.injEq, and_iff_right rfl,
            AlignedFields, keyForm_iff_aligned a h.1 ha.1 hb.1,
            fieldsKeyForm_iff_aligned as h.2 hnames ha.2 hb.2 hmem nodup]
termination_by structural as

end

/-! ## Equality that takes numbers of both kinds for one -/

/-- As `Discerned`, where an integer may be beside its double at the top. -/
def LooselyDiscerned : Value → Value → Prop
  | .int _, .float _ | .float _, .int _ => True
  | a, b => a.Discerned b

/-- As `Aligned`, and an integer at the top is not beside a double it is only rounded to. -/
def LooselyAligned : Value → Value → Prop
  | .int i, .float x | .float x, .int i =>
      (Binary64.ofInt64 i == x) = true → Binary64.smallInt64? x = some i
  | a, b => a.Aligned b

theorem looseEq_iff_discerned {a b : Value} (h : a.canonicalKey = b.canonicalKey)
    (hb : b.NamedOnce) : a.looseEq b = true ↔ a.LooselyDiscerned b := by
  rw [canonicalKey_eq_iff] at h
  have hnumbers : ∀ {i : Int64} {x : Float}, (int i).keyForm = (float x).keyForm →
      (Binary64.ofInt64 i == x) = true := fun h =>
    Binary64.ofInt64_beq_of_smallInt64? (keyForm_float_eq_int.mp h.symm)
  cases a with
  | int i =>
      cases b with
      | float x => exact iff_of_true (hnumbers h) trivial
      | _ => exact same_iff_discerned _ h hb
  | float x =>
      cases b with
      | int i => exact iff_of_true ((Binary64.beq_comm _ _).trans (hnumbers h.symm)) trivial
      | _ => exact same_iff_discerned _ h hb
  | null | bool | string | array | object => exact same_iff_discerned _ h hb

theorem canonicalKey_iff_aligned {a b : Value} (h : a.looseEq b = true) (ha : a.NamedOnce)
    (hb : b.NamedOnce) : a.canonicalKey = b.canonicalKey ↔ a.LooselyAligned b := by
  rw [canonicalKey_eq_iff]
  cases a with
  | int i =>
      cases b with
      | float x =>
          exact ⟨fun hform _ => keyForm_float_eq_int.mp hform.symm,
            fun hx => (keyForm_float_eq_int.mpr (hx h)).symm⟩
      | _ => exact keyForm_iff_aligned _ h ha hb
  | float x =>
      cases b with
      | int i =>
          have heq : (Binary64.ofInt64 i == x) = true := (Binary64.beq_comm _ _).trans h
          exact ⟨fun hform _ => keyForm_float_eq_int.mp hform,
            fun hx => keyForm_float_eq_int.mpr (hx heq)⟩
      | _ => exact keyForm_iff_aligned _ h ha hb
  | null | bool | string | array | object => exact keyForm_iff_aligned _ h ha hb

/-- Values whose keys differ exactly if they do. -/
structure Concordant (a b : Value) : Prop where
  left : a.NamedOnce
  right : b.NamedOnce
  discerned : a.LooselyDiscerned b
  aligned : a.LooselyAligned b

theorem Concordant.canonicalKey_eq_iff {a b : Value} (h : a.Concordant b) :
    a.canonicalKey = b.canonicalKey ↔ a.looseEq b = true :=
  ⟨fun hkey => (looseEq_iff_discerned hkey h.right).mpr h.discerned,
    fun heq => (canonicalKey_iff_aligned heq h.left h.right).mpr h.aligned⟩

end RowPipeline.Value
