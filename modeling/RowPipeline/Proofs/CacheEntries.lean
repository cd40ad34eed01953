import RowPipeline.Run.Entry
import RowPipeline.Proofs.Decoding
import RowPipeline.Proofs.Numerals

/-!
# Entries read again

What is stored for an output or a result is read back as it was, but for its rows, which have gone
through JSON: fields that are left out stand for what they were left out for.
-/

namespace RowPipeline

open Json

/-! ## Values -/

namespace Json

theorem decodeUInt64_ofNat (n : UInt64) : decodeUInt64 (.ofNat n.toNat) = .ok n := by
  rw [Json.ofNat]
  split
  · rename_i hsmall
    have hvalue : (Int64.ofNat n.toNat).toInt = n.toNat := Int64.toInt_ofNat_of_lt hsmall
    have hpos : 0 ≤ Int64.ofNat n.toNat := by
      rw [Int64.le_iff_toInt_le, hvalue]
      exact Int.natCast_nonneg _
    rw [decodeUInt64, JsonNumber.toUInt64?, if_pos hpos, hvalue, Int.toNat_natCast]
    simp
  · rw [decodeUInt64, JsonNumber.toUInt64?]
    simp

theorem ofNat_ne_null (n : ℕ) : Json.ofNat n ≠ .null := by
  rw [Json.ofNat]
  split <;> exact nofun

theorem decodeNat_ofNat {n : ℕ} (hn : n < 0x10000000000000000) : decodeNat (.ofNat n) = .ok n := by
  have hsame : n.toUInt64.toNat = n := by
    rw [Nat.toUInt64, UInt64.toNat_ofNat', Nat.mod_eq_of_lt hn]
  have hread := decodeUInt64_ofNat n.toUInt64
  rw [hsame] at hread
  rw [decodeNat, hread]
  exact congrArg Except.ok hsame

theorem decodeString_string (text : String) : decodeString (.string text) = .ok text := rfl

theorem decodeBool_bool (b : Bool) : decodeBool (.bool b) = .ok b := rfl

theorem decodeArray_strings (texts : List String) :
    decodeArray decodeString (ofStrings texts) = .ok texts :=
  decodeArray_encode fun text _ => decodeString_string text

/-- The slot of a field that may be left out. -/
def slotFor : Option Json → Slot
  | none => .absent
  | some j => .given j

section

variable {α : Type} {s : Slots} {name : String} {decode : Json → Decoded α}

theorem Slots.required_of {j : Json} (h : s.get name = .given j) {a : α} (hj : decode j = .ok a) :
    s.required name decode = .ok a := by
  rw [required_given h, hj]

/-- An optional field that is left out if there is nothing to write. -/
theorem Slots.optional_of {encode : α → Json} {x : Option α}
    (h : s.get name = slotFor (x.map encode)) (hread : ∀ a ∈ x, decode (encode a) = .ok a)
    (value : ∀ a ∈ x, encode a ≠ .null) : s.optional name decode = .ok x := by
  rw [optional, h]
  cases x with
  | none => rfl
  | some a =>
      have hsome := hread a rfl
      have hvalue := value a rfl
      rw [Option.map_some, slotFor]
      generalize encode a = j at hsome hvalue ⊢
      cases j with
      | null => exact absurd rfl hvalue
      | _ => exact congrArg (Except.map some) hsome

/-- A list that is left out if it is empty. -/
theorem Slots.withDefault_list {encode : α → Json} {f : α → α} {list : List α}
    (h : s.get name = slotFor (unlessEmpty (list.map encode)))
    (hread : ∀ a ∈ list, decode (encode a) = .ok (f a)) :
    s.withDefault name [] (decodeArray decode) = .ok (list.map f) := by
  rw [withDefault, h]
  cases list with
  | nil => rfl
  | cons a rest => exact decodeArray_map hread

/-- A value that is left out if it is null. -/
theorem Slots.withDefault_value {j : Json} (h : s.get name = slotFor (unlessNull j)) :
    s.withDefault name .null decodeAny = .ok j := by
  rw [withDefault, h]
  cases j <;> rfl

end

end Json

theorem Record.ofList_entries {α : Type} (r : Record α) : Record.ofList r.entries = r := by
  have hentries := entries_ofList_of_nodup r.entries r.nodup
  generalize Record.ofList r.entries = read at hentries
  obtain ⟨entries, nodup⟩ := read
  obtain rfl : entries = r.entries := hentries
  rfl

/-- A row is read back with its names in order. -/
theorem Row.decode_toJson (row : Row) : Row.decode row.toJson = .ok row.throughJson := by
  have hfields : ∀ entries : List (String × Value),
      Value.fieldsOfJson (Value.fieldsToJson entries) =
        entries.map fun entry => (entry.1, Value.ofJson entry.2.toJson) := by
    intro entries
    induction entries with
    | nil => rfl
    | cons entry rest ih =>
        rw [Value.fieldsToJson, Value.fieldsOfJson, ih]
        rfl
  rw [Row.toJson, Row.decode, Row.ofJsonFields, hfields]
  exact congrArg Except.ok (Record.ofList_entries row.throughJson)

theorem decodeRows (rows : List Row) :
    decodeArray Row.decode (rowsToJson rows) = .ok (rows.map Row.throughJson) :=
  decodeArray_map fun row _ => row.decode_toJson

/-! ## Outputs -/

theorem StepOutput.ofJson_toJson (o : StepOutput) :
    ofJson o.toJson = .ok { o with rows := o.rows.map Row.throughJson } := by
  obtain ⟨rows, totalCount, warnings, details⟩ := o
  have hslots : slots [["rows"], ["total_count"], ["warnings"], ["details"]]
      (toJson ⟨rows, totalCount, warnings, details⟩) =
        .ok [("rows", .given (rowsToJson rows)),
          ("total_count", slotFor (totalCount.map fun n => .ofNat n.toNat)),
          ("warnings", .given (ofStrings warnings)), ("details", .given details)] := by
    cases totalCount <;> rfl
  rw [ofJson, hslots]
  dsimp only [bind, Except.bind]
  rw [Slots.required_of rfl (decodeRows rows)]
  dsimp only
  rw [Slots.optional_of rfl (fun n _ => decodeUInt64_ofNat n) fun n _ => ofNat_ne_null n.toNat]
  dsimp only
  rw [Slots.withDefault_given rfl, decodeArray_strings]
  rfl

/-! ## Results -/

theorem StepKind.decode_name (kind : StepKind) : StepKind.decode (.string kind.name) = .ok kind := by
  cases kind <;> rfl

theorem StepStatus.decode_name (status : StepStatus) :
    StepStatus.decode (.string status.name) = .ok status := by
  cases status <;> rfl

/-- The number of rows fits 64 bits. -/
def StepResult.Counted (r : StepResult) : Prop := r.rowCount < 0x10000000000000000

theorem StepResult.ofJson_toJson {r : StepResult} (counted : r.Counted) :
    ofJson r.toJson = .ok r := by
  obtain ⟨stepName, kind, status, rowCount, cacheHit, error, warnings, details⟩ := r
  have hslots : slots [["step_name"], ["step_type"], ["status"], ["row_count"], ["cache_hit"],
        ["error"], ["warnings"], ["details"]]
      (toJson ⟨stepName, kind, status, rowCount, cacheHit, error, warnings, details⟩) =
        .ok [("step_name", .given (.string stepName)), ("step_type", .given (.string kind.name)),
          ("status", .given (.string status.name)), ("row_count", .given (.ofNat rowCount)),
          ("cache_hit", .given (.bool cacheHit)), ("error", slotFor (error.map .string)),
          ("warnings", slotFor (unlessEmpty (warnings.map .string))),
          ("details", slotFor (unlessNull details))] := by
    cases error <;> cases warnings <;> cases details <;> rfl
  rw [ofJson, hslots]
  dsimp only [bind, Except.bind]
  rw [Slots.required_of rfl (decodeString_string stepName)]
  dsimp only
  rw [Slots.required_of rfl kind.decode_name]
  dsimp only
  rw [Slots.required_of rfl status.decode_name]
  dsimp only
  rw [Slots.required_of rfl (decodeNat_ofNat counted)]
  dsimp only
  rw [Slots.required_of rfl (decodeBool_bool cacheHit)]
  dsimp only
  rw [Slots.optional_of rfl (fun text _ => decodeString_string text) nofun]
  dsimp only
  rw [Slots.withDefault_list (f := id) rfl fun text _ => decodeString_string text, List.map_id]
  dsimp only
  rw [Slots.withDefault_value rfl]
  rfl

theorem PageInfo.ofJson_toJson (i : PageInfo) : ofJson i.toJson = .ok i := by
  have hslots : slots [["page"], ["page_size"], ["total_count"], ["total_pages"]] i.toJson =
      .ok [("page", .given (.ofNat i.page.toNat)), ("page_size", .given (.ofNat i.pageSize.toNat)),
        ("total_count", .given (.ofNat i.totalCount.toNat)),
        ("total_pages", .given (.ofNat i.totalPages.toNat))] := rfl
  rw [ofJson, hslots]
  dsimp only [bind, Except.bind]
  rw [Slots.required_of rfl (decodeUInt64_ofNat i.page)]
  dsimp only
  rw [Slots.required_of rfl (decodeUInt64_ofNat i.pageSize)]
  dsimp only
  rw [Slots.required_of rfl (decodeUInt64_ofNat i.totalCount)]
  dsimp only
  rw [Slots.required_of rfl (decodeUInt64_ofNat i.totalPages)]
  rfl

theorem FailureRecord.ofJson_toJson (f : FailureRecord) : ofJson f.toJson = .ok f := rfl

theorem RunResult.Header.ofJson_toJson (h : Header) : ofJson h.toJson = .ok h := by
  have hread : ofJson h.toJson =
      .ok { h with run := Decimal.digitsValue (toString h.run).toList } := rfl
  rw [hread, Decimal.digitsValue_toString]

theorem RunResult.decodeHit_infoToJson (r : RunResult) : decodeHit r.infoToJson = .ok r.cacheHit :=
  rfl

theorem RunResult.ofJson_toJson {r : RunResult} (counted : ∀ t ∈ r.stepResults, t.Counted) :
    ofJson r.toJson = .ok { r with rows := r.rows.map Row.throughJson } := by
  have hslots : slots [["success"], ["data"], ["metadata"], ["execution_info"], ["step_results"],
        ["pagination"], ["errors"]] r.toJson =
      .ok [("success", .given (.bool r.success)), ("data", .given (rowsToJson r.rows)),
        ("metadata", .given r.header.toJson), ("execution_info", .given r.infoToJson),
        ("step_results", .given (.array (r.stepResults.map StepResult.toJson))),
        ("pagination", slotFor (r.page.map PageInfo.toJson)),
        ("errors", slotFor (unlessEmpty (r.failures.map FailureRecord.toJson)))] := by
    rw [toJson]
    cases r.page <;> cases r.failures <;> rfl
  have hsteps : decodeArray StepResult.ofJson (.array (r.stepResults.map StepResult.toJson)) =
      .ok r.stepResults :=
    decodeArray_encode fun t ht => StepResult.ofJson_toJson (counted t ht)
  rw [ofJson, hslots]
  dsimp only [bind, Except.bind]
  rw [Slots.required_of rfl (decodeBool_bool r.success)]
  dsimp only
  rw [Slots.required_of rfl (decodeRows r.rows)]
  dsimp only
  rw [Slots.required_of rfl r.header.ofJson_toJson]
  dsimp only
  rw [Slots.required_of rfl r.decodeHit_infoToJson]
  dsimp only
  rw [Slots.required_of rfl hsteps]
  dsimp only
  rw [Slots.optional_of rfl (fun i _ => i.ofJson_toJson) nofun]
  dsimp only
  rw [Slots.withDefault_list (f := id) rfl fun f _ => f.ofJson_toJson, List.map_id]
  rfl

/-! ## Entries -/

/-- What is stored, read as what it was stored as. -/
def Stored.reread : Stored → Decoded Stored
  | .step output => (StepOutput.ofJson output.toJson).map .step
  | .run r => (RunResult.ofJson r.toJson).map .run

/-- The counts of what is stored fit 64 bits. -/
def Stored.Counted : Stored → Prop
  | .step _ => True
  | .run r => ∀ t ∈ r.stepResults, t.Counted

/-- The form in which something is stored is the one in which its JSON is read again. -/
theorem Stored.reread_eq {v : Stored} (counted : v.Counted) : v.reread = .ok v.throughJson := by
  cases v with
  | step output =>
      rw [reread, StepOutput.ofJson_toJson]
      rfl
  | run r =>
      rw [reread, RunResult.ofJson_toJson counted]
      rfl

end RowPipeline
