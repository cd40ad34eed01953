import Mathlib.Data.String.Basic
import RowPipeline.Parameter.Span
import RowPipeline.Proofs.Places

/-!
# Spans of placeholders

The scan over bytes finds the references that the scan over characters cuts out. At each of its cuts the
offset is the byte length of some first characters of the text, so what it cuts out is a text again and no
cut fails.
-/

namespace RowPipeline

open String (utf8Len)

/-! ## Cuts -/

theorem isValid_utf8Len (before after : List Char) :
    String.Pos.Raw.isValid (String.ofList (before ++ after)) ⟨utf8Len before⟩ = true := by
  rw [String.Pos.Raw.isValid_eq_true_iff, String.ofList_append]
  refine String.Pos.Raw.isValid_iff_exists_append.2 ⟨_, _, rfl, ?_⟩
  rw [String.rawEndPos, String.utf8ByteSize_ofList]

/-- Offsets between characters cut out what is between them. -/
theorem cut_ofList (before part after : List Char) :
    cut (String.ofList (before ++ part ++ after)) (utf8Len before) (utf8Len before + utf8Len part) =
      .ok (String.ofList part) := by
  have hstart := isValid_utf8Len before (part ++ after)
  have hstop := isValid_utf8Len (before ++ part) after
  rw [← List.append_assoc] at hstart
  rw [String.utf8Len_append] at hstop
  rw [cut, if_pos ⟨Nat.le_add_right _ _, hstart, hstop⟩, String.extract_of_valid]

theorem cut_start (part after : List Char) :
    cut (String.ofList (part ++ after)) 0 (utf8Len part) = .ok (String.ofList part) := by
  have h := cut_ofList [] part after
  rwa [List.nil_append, String.utf8Len_nil, Nat.zero_add] at h

theorem cut_rest (before after : List Char) :
    cut (String.ofList (before ++ after)) (utf8Len before)
        (String.ofList (before ++ after)).utf8ByteSize = .ok (String.ofList after) := by
  have h := cut_ofList before after []
  rwa [List.append_nil, ← String.utf8Len_append, ← String.utf8ByteSize_ofList (before ++ after)] at h

namespace Placeholder

variable {text : String} {p : Placeholder} {name rest : List Char} {c : Char}

/-! ## Bytes -/

/-- A dollar sign is one byte, which no other character has among its bytes. -/
theorem eq_dollar_iff {b : UInt8} (h : b ∈ String.utf8EncodeChar c) : b = dollar ↔ c = '$' := by
  have hbyte : b = dollar ↔ b.toNat = 0x24 := UInt8.toNat_inj.symm
  have hchar : c = '$' ↔ c.val.toNat = 0x24 := Char.toNat_inj.symm
  rw [hbyte, hchar]
  -- a character of more bytes than one has none below 0x80
  rw [String.utf8EncodeChar.eq_1] at h
  generalize c.val.toNat = v at h ⊢
  repeat' split at h
  all_goals
    simp only [List.mem_cons, List.not_mem_nil, or_false] at h
    rcases h with rfl | rfl | rfl | rfl
  all_goals
    rw [UInt8.toNat_ofNat']
    omega

theorem length_encode (cs : List Char) : (cs.flatMap String.utf8EncodeChar).length = utf8Len cs := by
  induction cs with
  | nil => rfl
  | cons c cs ih =>
      rw [List.flatMap_cons, List.length_append, ih, String.length_utf8EncodeChar, String.utf8Len_cons,
        Nat.add_comm]

theorem getUTF8Byte_mem {k : Nat} (hk : k < c.utf8Size) (before rest : List Char)
    (h : (⟨utf8Len before + k⟩ : String.Pos.Raw) < (String.ofList (before ++ c :: rest)).rawEndPos) :
    (String.ofList (before ++ c :: rest)).getUTF8Byte ⟨utf8Len before + k⟩ h ∈
      String.utf8EncodeChar c := by
  -- the bytes of a text are those of its characters, one after the other
  have hbefore := length_encode before
  simp only [String.getUTF8Byte_eq_getElem, String.toByteArray_ofList, List.utf8Encode,
    List.getElem_toByteArray, List.flatMap_append, List.flatMap_cons]
  rw [List.getElem_append_right (by omega),
    List.getElem_append_left (by rw [String.length_utf8EncodeChar]; omega)]
  exact List.getElem_mem _

/-! ## The name after a dollar sign -/

section Offsets

variable {is : Char → Bool}

theorem byteOffset?_stop (h : ∀ c ∈ name, is c = false) (hc : is c = true) (after : List Char) :
    byteOffset? is (name ++ c :: after) = some (utf8Len name) := by
  induction name with
  | nil => simp [byteOffset?, hc]
  | cons d name ih =>
      have hrest := ih fun e he => h e (List.mem_cons_of_mem _ he)
      rw [List.cons_append, byteOffset?, h d List.mem_cons_self, hrest, String.utf8Len_cons,
        Nat.add_comm]
      rfl

theorem byteOffset?_none {cs : List Char} (h : ∀ c ∈ cs, is c = false) : byteOffset? is cs = none := by
  induction cs with
  | nil => rfl
  | cons c cs ih =>
      rw [byteOffset?, h c List.mem_cons_self, ih fun c hc => h c (List.mem_cons_of_mem _ hc)]
      rfl

end Offsets

/-- In braces the name is cut out up to the closing one. -/
theorem afterDollar?_braced (braced : List Char) :
    afterDollar? (String.ofList ('\x7b' :: braced)) =
      .ok ((Piece.referenceAfterDollar? ('\x7b' :: braced)).map fun found =>
        (String.ofList found.1, utf8Len (('\x7b' :: braced).take found.2))) := by
  have hopen : ∀ c ∈ braced.takeWhile (· != '\x7d'), (c == '\x7d') = false := by
    intro c hc
    simpa using Lexer.takeWhile_all braced c hc
  rw [afterDollar?, String.toList_ofList, Piece.referenceAfterDollar?_braced]
  dsimp only
  rw [if_pos rfl]
  -- a brace that stays open opens no reference
  rcases Piece.takeWhile_split (· != '\x7d') braced with hall | ⟨d, after, hd, hsplit⟩
  · rw [hall] at hopen ⊢
    rw [byteOffset?_none hopen]
    simp
  · obtain rfl : d = '\x7d' := by simpa using hd
    generalize braced.takeWhile (· != '\x7d') = name at hsplit hopen ⊢
    subst hsplit
    have htake : (name ++ '\x7d' :: after).take (name.length + 1) = name ++ ['\x7d'] :=
      List.take_length_add_append 1
    have hbraces : utf8Len (name ++ ['\x7d']) + Char.utf8Size '\x7b' = utf8Len name + 2 := by
      rw [String.utf8Len_append]
      rfl
    rw [byteOffset?_stop hopen rfl]
    dsimp only
    rw [cut_start]
    cases hname : Piece.isName name with
    | false => simp [bind, Except.bind, pure, Except.pure, hname]
    | true => simp [bind, Except.bind, pure, Except.pure, hname, htake, ← hbraces]

/-- Without braces the name is cut out up to the first character that is not of it. -/
theorem afterDollar?_bare (h : c ≠ '\x7b') (rest : List Char) :
    afterDollar? (String.ofList (c :: rest)) =
      .ok ((Piece.referenceAfterDollar? (c :: rest)).map fun found =>
        (String.ofList found.1, utf8Len ((c :: rest).take found.2))) := by
  have hlength : (byteOffset? (!Piece.isNameChar ·) (c :: rest)).getD
      (String.ofList (c :: rest)).utf8ByteSize = utf8Len ((c :: rest).takeWhile Piece.isNameChar) := by
    have hname : ∀ d ∈ (c :: rest).takeWhile Piece.isNameChar, (!Piece.isNameChar d) = false := by
      intro d hd
      simpa using Lexer.takeWhile_all (c :: rest) d hd
    rcases Piece.takeWhile_split Piece.isNameChar (c :: rest) with hall | ⟨d, after, hd, hsplit⟩
    · rw [hall] at hname
      rw [byteOffset?_none hname, hall, Option.getD_none, String.utf8ByteSize_ofList]
    · have hstop := byteOffset?_stop hname (c := d) (by simpa using hd) after
      rw [← hsplit] at hstop
      rw [hstop, Option.getD_some]
  have hcut := cut_start ((c :: rest).takeWhile Piece.isNameChar)
    ((c :: rest).dropWhile Piece.isNameChar)
  have htake := List.prefix_iff_eq_take.1 (List.takeWhile_prefix (l := c :: rest) Piece.isNameChar)
  rw [List.takeWhile_append_dropWhile] at hcut
  rw [afterDollar?, String.toList_ofList, Piece.referenceAfterDollar?_bare (by simpa using h),
    Piece.isName_takeWhile]
  dsimp only
  rw [if_neg h, hlength, hcut]
  cases Piece.isNameStart c with
  | false => rfl
  | true => simp [bind, Except.bind, pure, Except.pure, ← htake]

theorem afterDollar?_ofList (rest : List Char) :
    afterDollar? (String.ofList rest) = .ok ((Piece.referenceAfterDollar? rest).map fun found =>
      (String.ofList found.1, utf8Len (rest.take found.2))) := by
  cases rest with
  | nil => rfl
  | cons c rest =>
      by_cases h : c = '\x7b'
      · rw [h]
        exact afterDollar?_braced rest
      · exact afterDollar?_bare h rest

/-! ## The scan -/

/-- No byte of another character is taken for a dollar sign. -/
theorem scanFrom_char (hc : c ≠ '$') (before rest : List Char) :
    scanFrom (String.ofList (before ++ c :: rest)) (utf8Len before) =
      scanFrom (String.ofList (before ++ c :: rest)) (utf8Len (before ++ [c])) := by
  -- the loop goes on byte by byte, so some of its offsets are inside of the character
  have hbytes : ∀ k ≤ c.utf8Size, scanFrom (String.ofList (before ++ c :: rest)) (utf8Len before) =
      scanFrom (String.ofList (before ++ c :: rest)) (utf8Len before + k) := by
    intro k
    induction k with
    | zero => exact fun _ => rfl
    | succ k ih =>
        intro hk
        have hlt : utf8Len before + k < (String.ofList (before ++ c :: rest)).utf8ByteSize := by
          rw [String.utf8ByteSize_ofList, String.utf8Len_append, String.utf8Len_cons]
          omega
        have hbyte := getUTF8Byte_mem (Nat.lt_of_succ_le hk) before rest hlt
        rw [ih (Nat.le_of_succ_le hk), scanFrom, dif_pos hlt,
          if_neg fun h => hc ((eq_dollar_iff hbyte).1 h)]
        rfl
  rw [hbytes _ (Nat.le_refl _), String.utf8Len_append]
  simp

theorem scanFrom_dollar (before rest : List Char) :
    scanFrom (String.ofList (before ++ '$' :: rest)) (utf8Len before) =
      match Piece.referenceAfterDollar? rest with
      | some (name, n) =>
          (scanFrom (String.ofList (before ++ '$' :: rest)) (utf8Len (before ++ '$' :: rest.take n))).map
            (⟨utf8Len before, utf8Len (before ++ '$' :: rest.take n), String.ofList name⟩ :: ·)
      | none => scanFrom (String.ofList (before ++ '$' :: rest)) (utf8Len (before ++ ['$'])) := by
  have hlt : utf8Len before < (String.ofList (before ++ '$' :: rest)).utf8ByteSize := by
    rw [String.utf8ByteSize_ofList, String.utf8Len_append, String.utf8Len_cons]
    exact Nat.lt_add_of_pos_right (Nat.add_pos_right _ (Char.utf8Size_pos '$'))
  have hbyte : (String.ofList (before ++ '$' :: rest)).getUTF8Byte ⟨utf8Len before⟩ hlt = dollar :=
    (eq_dollar_iff (getUTF8Byte_mem (Char.utf8Size_pos '$') before rest hlt)).2 rfl
  have hnext : utf8Len (before ++ ['$']) = utf8Len before + 1 := String.utf8Len_append _ _
  have hcut := cut_rest (before ++ ['$']) rest
  rw [List.append_assoc, List.singleton_append, hnext] at hcut
  rw [scanFrom, dif_pos hlt, if_pos hbyte, hcut]
  simp only [bind, Except.bind, afterDollar?_ofList]
  cases Piece.referenceAfterDollar? rest with
  | none =>
      rw [hnext]
      rfl
  | some found =>
      obtain ⟨name, n⟩ := found
      have hstop : utf8Len (before ++ '$' :: rest.take n) =
          utf8Len before + 1 + utf8Len (rest.take n) := by
        rw [← hnext, ← String.utf8Len_append, List.append_assoc]
        rfl
      simp only [Option.map_some, hstop]
      cases scanFrom (String.ofList (before ++ '$' :: rest))
        (utf8Len before + 1 + utf8Len (rest.take n)) <;> rfl

/-- The placeholders among pieces that start at a byte offset. -/
def spansOf : Nat → List Piece → List Placeholder
  | _, [] => []
  | i, .char c :: pieces => spansOf (i + c.utf8Size) pieces
  | i, .reference name source :: pieces =>
      ⟨i, i + utf8Len source, name⟩ :: spansOf (i + utf8Len source) pieces

theorem spansOf_char (before : List Char) (c : Char) (pieces : List Piece) :
    spansOf (utf8Len before) (.char c :: pieces) = spansOf (utf8Len (before ++ [c])) pieces := by
  rw [spansOf]
  simp

theorem spansOf_reference (before source : List Char) (name : String) (pieces : List Piece) :
    spansOf (utf8Len before) (.reference name source :: pieces) =
      ⟨utf8Len before, utf8Len (before ++ source), name⟩ ::
        spansOf (utf8Len (before ++ source)) pieces := by
  rw [spansOf, String.utf8Len_append]

/-- The scan over bytes finds the references that the scan over characters cuts out. -/
theorem scanFrom_eq (before cs : List Char) : scanFrom (String.ofList (before ++ cs)) (utf8Len before) =
    .ok (spansOf (utf8Len before) (Piece.scanFrom 0 cs)) := by
  -- the text stays whole, and what has been scanned moves into `before`
  induction cs using Piece.scan_induction generalizing before with
  | nil =>
      rw [scanFrom, dif_neg]
      · rfl
      · rw [List.append_nil, String.utf8ByteSize_ofList]
        exact Nat.lt_irrefl _
  | char c rest hc ih =>
      have hrest := ih (before ++ [c])
      rw [List.append_assoc, List.singleton_append] at hrest
      rw [Piece.scanFrom_char hc, spansOf_char, scanFrom_char hc, hrest]
  | dollar rest hreference ih =>
      have hrest := ih (before ++ ['$'])
      rw [List.append_assoc, List.singleton_append] at hrest
      rw [Piece.scanFrom_dollar hreference, spansOf_char, scanFrom_dollar, hreference]
      exact hrest
  | reference rest name n hreference ih =>
      have hrest := ih (before ++ '$' :: rest.take n)
      rw [List.append_assoc, List.cons_append, List.take_append_drop] at hrest
      rw [Piece.scanFrom_name hreference, spansOf_reference, scanFrom_dollar, hreference]
      dsimp only
      rw [hrest]
      rfl

theorem scan_eq (text : String) : scan text = .ok (spansOf 0 (Piece.scan text)) := by
  have h := scanFrom_eq [] text.toList
  rwa [List.nil_append, String.ofList_toList] at h

theorem map_name_spansOf (i : Nat) (pieces : List Piece) :
    (spansOf i pieces).map (·.name) = pieces.filterMap fun
      | .reference name _ => some name
      | .char _ => none := by
  induction pieces generalizing i with
  | nil => rfl
  | cons piece pieces ih =>
      cases piece with
      | char c => exact ih _
      | reference name source => exact congrArg (name :: ·) (ih _)

/-- The placeholders stand one behind the other. -/
theorem spansOf_ordered (i : Nat) (pieces : List Piece) : (∀ p ∈ spansOf i pieces, i ≤ p.start) ∧
    (spansOf i pieces).Pairwise fun p q => p.stop ≤ q.start := by
  induction pieces generalizing i with
  | nil => simp [spansOf]
  | cons piece pieces ih =>
      cases piece with
      | char c => exact ⟨fun p hp => Nat.le_of_add_right_le ((ih _).1 p hp), (ih _).2⟩
      | reference name source =>
          have hrest := ih (i + utf8Len source)
          refine ⟨List.forall_mem_cons.2 ⟨Nat.le_refl i, fun p hp => ?_⟩, List.pairwise_cons.2 hrest⟩
          exact Nat.le_of_add_right_le (hrest.1 p hp)

/-! ## What the spans cover -/

/-- The spelling of a reference in front of other characters. Without braces it goes on as far as it
can. -/
inductive Spelled (name after : String) : String → Prop
  | braced : Spelled name after ("$\x7b" ++ name ++ "\x7d")
  | bare (h : ∀ c ∈ after.toList.head?, Piece.isNameChar c = false) : Spelled name after ("$" ++ name)

/-- What stands in a text between the offsets of a placeholder is a spelling of its name. -/
def Covers (text : String) (p : Placeholder) : Prop :=
  ∃ before source after, text = before ++ source ++ after ∧ before.utf8ByteSize = p.start ∧
    (before ++ source).utf8ByteSize = p.stop ∧ Piece.isName p.name.toList = true ∧
    Spelled p.name after source

/-- A byte offset of a text at which a dollar sign stands, and then a name or a name in braces. -/
def StartsAt (text : String) (i : Nat) : Prop :=
  ∃ before name after, before.utf8ByteSize = i ∧ Piece.isName name.toList = true ∧
    (text = before ++ ("$" ++ name) ++ after ∨ text = before ++ ("$\x7b" ++ name ++ "\x7d") ++ after)

theorem spelled_of_found {n : Nat} (h : Piece.referenceAfterDollar? rest = some (name, n)) :
    Spelled (String.ofList name) (String.ofList (rest.drop n)) (String.ofList ('$' :: rest.take n)) := by
  rcases Piece.referenceAfterDollar?_take h with htake | ⟨htake, hstop⟩
  · have hsource : String.ofList ('$' :: rest.take n) = "$\x7b" ++ String.ofList name ++ "\x7d" := by
      rw [htake, ← String.toList_inj]
      simp
    rw [hsource]
    exact .braced
  · have hsource : String.ofList ('$' :: rest.take n) = "$" ++ String.ofList name := by
      rw [htake, ← String.toList_inj]
      simp
    rw [hsource]
    exact .bare (by rwa [String.toList_ofList])

/-- The offsets of a placeholder are in order, within the text and between its characters. -/
theorem Covers.bounds (h : Covers text p) : p.start < p.stop ∧ p.stop ≤ text.utf8ByteSize ∧
    String.Pos.Raw.IsValid text ⟨p.start⟩ ∧ String.Pos.Raw.IsValid text ⟨p.stop⟩ := by
  obtain ⟨before, source, after, rfl, hstart, hstop, -, hspelled⟩ := h
  have hsource : 0 < source.utf8ByteSize := by
    cases hspelled with
    | braced =>
        rw [String.utf8ByteSize_append]
        exact Nat.add_pos_right _ (by decide)
    | bare =>
        rw [String.utf8ByteSize_append]
        exact Nat.add_pos_left (by decide) _
  rw [← hstart, ← hstop]
  refine ⟨?_, ?_, ?_, ?_⟩
  · rw [String.utf8ByteSize_append]
    exact Nat.lt_add_of_pos_right hsource
  · rw [String.utf8ByteSize_append (t := after)]
    exact Nat.le_add_right _ _
  · rw [String.append_assoc]
    exact String.Pos.Raw.isValid_iff_exists_append.2 ⟨before, source ++ after, rfl, rfl⟩
  · exact String.Pos.Raw.isValid_iff_exists_append.2 ⟨before ++ source, after, rfl, rfl⟩

theorem covers_spansOf (before cs : List Char) :
    ∀ p ∈ spansOf (utf8Len before) (Piece.scanFrom 0 cs), Covers (String.ofList (before ++ cs)) p := by
  induction cs using Piece.scan_induction generalizing before with
  | nil => exact nofun
  | char c rest hc ih =>
      have hrest := ih (before ++ [c])
      rw [List.append_assoc, List.singleton_append] at hrest
      rwa [Piece.scanFrom_char hc, spansOf_char]
  | dollar rest hreference ih =>
      have hrest := ih (before ++ ['$'])
      rw [List.append_assoc, List.singleton_append] at hrest
      rwa [Piece.scanFrom_dollar hreference, spansOf_char]
  | reference rest name n hreference ih =>
      have hrest := ih (before ++ '$' :: rest.take n)
      rw [List.append_assoc, List.cons_append, List.take_append_drop] at hrest
      rw [Piece.scanFrom_name hreference, spansOf_reference]
      refine List.forall_mem_cons.2 ⟨⟨String.ofList before, String.ofList ('$' :: rest.take n),
        String.ofList (rest.drop n), ?_, ?_, ?_, ?_, spelled_of_found hreference⟩, hrest⟩
      · rw [← String.ofList_append, ← String.ofList_append, List.append_assoc, List.cons_append,
          List.take_append_drop]
      · exact String.utf8ByteSize_ofList _
      · rw [← String.ofList_append, String.utf8ByteSize_ofList]
      · rw [String.toList_ofList]
        exact (Piece.referenceAfterDollar?_spec hreference).1

theorem covers_scan (h : p ∈ spansOf 0 (Piece.scan text)) : Covers text p := by
  have hcovers := covers_spansOf [] text.toList p h
  rwa [List.nil_append, String.ofList_toList] at hcovers

/-- A dollar sign that a reference follows starts a placeholder. -/
theorem exists_start (i : Nat) {cs : List Char} (before : List Char) (hcs : cs = before ++ '$' :: rest)
    (h : (Piece.referenceAfterDollar? rest).isSome = true) :
    ∃ p ∈ spansOf i (Piece.scanFrom 0 cs), p.start = i + utf8Len before := by
  induction cs using Piece.scan_induction generalizing i before with
  | nil => simp at hcs
  | char c cs hc ih =>
      rw [Piece.scanFrom_char hc, spansOf]
      cases before with
      | nil => exact absurd (List.cons.inj hcs).1 hc
      | cons b before =>
          obtain ⟨rfl, htail⟩ := List.cons.inj hcs
          obtain ⟨p, hp, hstart⟩ := ih (i + c.utf8Size) before htail
          exact ⟨p, hp, by rw [hstart, String.utf8Len_cons]; omega⟩
  | dollar cs hreference ih =>
      rw [Piece.scanFrom_dollar hreference, spansOf]
      cases before with
      | nil =>
          obtain ⟨-, rfl⟩ := List.cons.inj hcs
          rw [hreference] at h
          cases h
      | cons b before =>
          obtain ⟨rfl, htail⟩ := List.cons.inj hcs
          obtain ⟨p, hp, hstart⟩ := ih (i + Char.utf8Size '$') before htail
          exact ⟨p, hp, by rw [hstart, String.utf8Len_cons]; omega⟩
  | reference cs name n hreference ih =>
      rw [Piece.scanFrom_name hreference, spansOf]
      cases before with
      | nil => exact ⟨_, List.mem_cons_self, rfl⟩
      | cons b before =>
          obtain ⟨rfl, rfl⟩ := List.cons.inj hcs
          rw [List.append_eq] at hreference ih ⊢
          -- no dollar sign stands in a reference, so this one comes after it
          have hn : n ≤ before.length := by
            refine Nat.le_of_not_lt fun hn => Piece.dollar_not_mem hreference ?_
            obtain ⟨k, rfl⟩ := Nat.exists_eq_add_of_lt hn
            rw [Nat.add_assoc, List.take_length_add_append]
            exact List.mem_append_right _ List.mem_cons_self
          rw [List.take_append_of_le_length hn]
          obtain ⟨p, hp, hstart⟩ := ih (i + utf8Len ('$' :: before.take n)) (before.drop n)
            (List.drop_append_of_le_length hn)
          refine ⟨p, List.mem_cons_of_mem _ hp, ?_⟩
          rw [hstart, Nat.add_assoc, ← String.utf8Len_append, List.cons_append, List.take_append_drop]

theorem StartsAt.exists_mem {i : Nat} (h : StartsAt text i) :
    ∃ p ∈ spansOf 0 (Piece.scan text), p.start = i := by
  obtain ⟨before, name, after, rfl, hname, htext⟩ := h
  obtain ⟨rest, hrest, hfound⟩ : ∃ rest, text.toList = before.toList ++ '$' :: rest ∧
      (Piece.referenceAfterDollar? rest).isSome = true := by
    rcases htext with rfl | rfl
    · exact ⟨name.toList ++ after.toList, by simp,
        Piece.referenceAfterDollar?_isSome hname (.inl rfl)⟩
    · exact ⟨'\x7b' :: (name.toList ++ '\x7d' :: after.toList), by simp,
        Piece.referenceAfterDollar?_isSome hname (.inr rfl)⟩
  obtain ⟨p, hp, hstart⟩ := exists_start 0 before.toList hrest hfound
  exact ⟨p, hp, by rw [hstart, Nat.zero_add, String.utf8Len_toList]⟩

/-! ## Filling -/

/-- Of the characters up to the next piece, `done` are filled in and `pending` are not. -/
theorem fillFrom_eq (replace : String → Option String) (done pending : List Char) (pieces : List Piece) :
    fillFrom replace (String.ofList (done ++ pending ++ pieces.flatMap Piece.source)) (utf8Len done)
        (spansOf (utf8Len (done ++ pending)) pieces) =
      .ok (String.ofList (pending ++ pieces.flatMap (Piece.filled replace))) := by
  induction pieces generalizing done pending with
  | nil =>
      rw [List.flatMap_nil, List.flatMap_nil, List.append_nil, List.append_nil, spansOf, fillFrom,
        cut_rest]
  | cons piece pieces ih =>
      cases piece with
      | char c =>
          have hrest := ih done (pending ++ [c])
          rw [← List.append_assoc, ← spansOf_char] at hrest
          simpa [Piece.source, Piece.filled] using hrest
      | reference name source =>
          have hrest := ih (done ++ pending ++ source) []
          have hbefore := cut_ofList done pending (source ++ pieces.flatMap Piece.source)
          have hsource := cut_ofList (done ++ pending) source (pieces.flatMap Piece.source)
          rw [← String.utf8Len_append] at hbefore hsource
          rw [← List.append_assoc] at hbefore
          rw [List.append_nil, List.nil_append] at hrest
          rw [List.flatMap_cons, List.flatMap_cons, spansOf_reference, fillFrom, Piece.source,
            ← List.append_assoc, hbefore, hsource, hrest]
          cases hreplace : replace name <;>
            simp [bind, Except.bind, pure, Except.pure, Piece.filled, hreplace, String.append_assoc]

/-- Filling over spans is filling over pieces. -/
theorem fillFrom_scan (replace : String → Option String) (text : String) :
    fillFrom replace text 0 (spansOf 0 (Piece.scan text)) = .ok (Piece.fill replace text) := by
  have h := fillFrom_eq replace [] [] (Piece.scan text)
  rw [List.append_nil, List.nil_append, List.nil_append, Piece.flatMap_scan, String.ofList_toList] at h
  rw [← String.ofList_toList (s := Piece.fill replace text), Piece.fill_eq]
  exact h

theorem substituteExpression_eq (params : Parameters) (text : String) :
    substituteExpression params text = .ok (RowPipeline.substituteExpression params text) := by
  rw [substituteExpression, scan_eq]
  exact fillFrom_scan _ text

theorem whole?_reference {name : String} {source : List Char}
    (h : Piece.scan text = [.reference name source]) :
    whole? text (spansOf 0 (Piece.scan text)) = some name := by
  have hsize : utf8Len source = text.utf8ByteSize := by
    rw [← String.utf8Len_toList, ← Piece.flatMap_scan, h]
    simp [Piece.source]
  rw [h]
  simp [spansOf, whole?, hsize]

/-- A placeholder that is the whole text has nothing before it and nothing after it. -/
theorem whole?_other (h : ∀ name source, Piece.scan text ≠ [.reference name source]) :
    whole? text (spansOf 0 (Piece.scan text)) = none := by
  have hsize : utf8Len ((Piece.scan text).flatMap Piece.source) = text.utf8ByteSize := by
    rw [Piece.flatMap_scan, String.utf8Len_toList]
  have hsource : ∀ piece ∈ Piece.scan text, piece.source ≠ [] := Piece.source_ne_nil text.toList
  generalize Piece.scan text = pieces at *
  rw [whole?.eq_def]
  split
  · rename_i p hspans
    refine if_neg fun ⟨hstart, hstop⟩ => ?_
    cases pieces with
    | nil => cases hspans
    | cons piece pieces =>
        cases piece with
        | char c =>
            have hle := (spansOf_ordered (0 + c.utf8Size) pieces).1 p
              (hspans ▸ List.mem_singleton_self p)
            have hpos := Char.utf8Size_pos c
            omega
        | reference name source =>
            obtain ⟨rfl, -⟩ := List.cons.inj hspans
            rw [List.flatMap_cons, String.utf8Len_append, ← hstop, Piece.source, Nat.zero_add] at hsize
            have hnil := String.utf8Len_eq_zero.1 (Nat.add_eq_left.1 hsize)
            cases pieces with
            | nil => exact h name source rfl
            | cons piece pieces =>
                have hpiece := hsource piece (by simp)
                simp [hpiece] at hnil
  · rfl

theorem substituteString_eq (params : Parameters) (text : String) :
    substituteString params text = .ok (RowPipeline.substituteString params text) := by
  rw [substituteString, scan_eq, RowPipeline.substituteString]
  by_cases hwhole : ∃ name source, Piece.scan text = [.reference name source]
  · obtain ⟨name, source, hscan⟩ := hwhole
    simp only [bind, Except.bind, whole?_reference hscan]
    rw [hscan]
    dsimp only
    cases params.get? name <;> rfl
  · have hscan : ∀ name source, Piece.scan text ≠ [.reference name source] :=
      fun name source heq => hwhole ⟨name, source, heq⟩
    simp only [bind, Except.bind, whole?_other hscan, fillFrom_scan]
    rfl

end Placeholder

/-- The scan partitions a text. What it finds are all the references, in order and apart from one another,
each between characters and with its whole spelling. So no cut fails, in the scan or where parameters are
put in, and a text stays as it is if none of the names has a value. -/
theorem placeholders_partition (text : String) : ∃ found, Placeholder.scan text = .ok found ∧
    found.Pairwise (fun p q => p.stop ≤ q.start) ∧
    (∀ p ∈ found, p.start < p.stop ∧ p.stop ≤ text.utf8ByteSize ∧
      String.Pos.Raw.IsValid text ⟨p.start⟩ ∧ String.Pos.Raw.IsValid text ⟨p.stop⟩ ∧ p.Covers text) ∧
    (∀ i, (∀ p ∈ found, ¬ (p.start ≤ i ∧ i < p.stop)) → ¬ Placeholder.StartsAt text i) ∧
    found.map (·.name) = Piece.names text ∧
    (∀ params, Placeholder.substituteExpression params text = .ok (substituteExpression params text) ∧
      Placeholder.substituteString params text = .ok (substituteString params text)) ∧
    ∀ params : Parameters, (∀ p ∈ found, params.get? p.name = none) →
      substituteExpression params text = text ∧ substituteString params text = .string text := by
  have hnames : (Placeholder.spansOf 0 (Piece.scan text)).map (·.name) = Piece.names text :=
    Placeholder.map_name_spansOf 0 _
  refine ⟨_, Placeholder.scan_eq text, (Placeholder.spansOf_ordered 0 _).2, fun p hp => ?_, ?_, hnames,
    fun params => ⟨Placeholder.substituteExpression_eq params text,
      Placeholder.substituteString_eq params text⟩, fun params hnone => ?_⟩
  · have hcovers := Placeholder.covers_scan hp
    obtain ⟨hlt, hle, hstart, hstop⟩ := hcovers.bounds
    exact ⟨hlt, hle, hstart, hstop, hcovers⟩
  · intro i houtside hstarts
    obtain ⟨p, hp, rfl⟩ := hstarts.exists_mem
    exact houtside p hp ⟨Nat.le_refl _, (Placeholder.covers_scan hp).bounds.1⟩
  · have hunset : ∀ name ∈ Piece.names text, params.get? name = none := by
      intro name hname
      rw [← hnames] at hname
      obtain ⟨p, hp, rfl⟩ := List.mem_map.1 hname
      exact hnone p hp
    refine ⟨fill_of_none fun name hname => by rw [hunset name hname]; rfl,
      substituteString_of_not_mentions ?_⟩
    rintro ⟨name, hname, hsome⟩
    rw [hunset name hname] at hsome
    cases hsome

/-- Dollar signs and braces that open no reference stand before one and around one. -/
theorem placeholders_partition_overlapping : ∃ found,
    Placeholder.scan "é$$a$\x7bb$\x7bc\x7d" = .ok found ∧ found = [⟨3, 5, "a"⟩, ⟨8, 12, "c"⟩] ∧
    ¬ Placeholder.StartsAt "é$$a$\x7bb$\x7bc\x7d" 2 ∧ ¬ Placeholder.StartsAt "é$$a$\x7bb$\x7bc\x7d" 5 ∧
    substituteString .empty "é$$a$\x7bb$\x7bc\x7d" = .string "é$$a$\x7bb$\x7bc\x7d" := by
  obtain ⟨found, hscan, -, -, houtside, -, -, hunset⟩ := placeholders_partition "é$$a$\x7bb$\x7bc\x7d"
  have hspans : Placeholder.spansOf 0 (Piece.scan "é$$a$\x7bb$\x7bc\x7d") =
      [⟨3, 5, "a"⟩, ⟨8, 12, "c"⟩] := by decide
  obtain rfl : found = [⟨3, 5, "a"⟩, ⟨8, 12, "c"⟩] := by
    rw [Placeholder.scan_eq, hspans] at hscan
    exact (Except.ok.inj hscan).symm
  exact ⟨_, hscan, rfl, houtside 2 (by decide), houtside 5 (by decide),
    (hunset .empty fun _ _ => rfl).2⟩

end RowPipeline
