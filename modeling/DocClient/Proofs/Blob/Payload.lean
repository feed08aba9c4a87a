import DocClient.Blob.Chunks
import DocClient.Proofs.Number.Whole
import DocClient.Proofs.Outcomes

/-! The payload of a stored chunk. Main statement: `payload_encodings`, by which bytes are read from exactly the values
that hold just these bytes, and all other values are refused. -/
namespace DocClient.Blob

/-! ### Numbers that stand for bytes -/

/-- A number of any type that stands for a byte. -/
inductive StandsFor : Value → UInt8 → Prop
  | int32 {n : Int32} {b : UInt8} (h : n.toInt = b.toNat) : StandsFor (.int32 n) b
  | int64 {n : Int64} {b : UInt8} (h : n.toInt = b.toNat) : StandsFor (.int64 n) b
  | double {d : Double} {b : UInt8} (finite : d.isFinite = true) (h : d.value = b.toNat) : StandsFor (.double d) b

section Numbers

variable {v : Value} {b : UInt8}

private theorem narrowed_eq_some_iff {n : Int64} :
    (if 0 ≤ n && n < 256 then some (UInt8.ofNat n.toInt.toNat) else none) = some b ↔ n.toInt = b.toNat := by
  have hb := b.toNat_lt
  have hrange : (0 ≤ n && n < 256) = decide (0 ≤ n.toInt ∧ n.toInt < 256) := by
    rw [Bool.decide_and]
    exact congrArg₂ and (decide_eq_decide.mpr Int64.le_iff_toInt_le) (decide_eq_decide.mpr Int64.lt_iff_toInt_lt)
  rw [hrange]
  by_cases h : 0 ≤ n.toInt ∧ n.toInt < 256
  · have hbyte : (UInt8.ofNat n.toInt.toNat).toNat = n.toInt.toNat :=
      UInt8.toNat_ofNat_of_lt' (show n.toInt.toNat < 256 by omega)
    rw [if_pos (decide_eq_true h), Option.some.injEq, ← UInt8.toNat_inj, hbyte]
    omega
  · rw [decide_eq_false h]
    refine iff_of_false nofun ?_
    omega

theorem byte?_eq_some_iff : byte? v = some b ↔ StandsFor v b := by
  cases v
  case int32 n =>
    have hbyte : byte? (.int32 n) = some b ↔ n.toInt = b.toNat := by
      rw [← n.toInt_toInt64]
      exact narrowed_eq_some_iff
    exact ⟨fun h => .int32 (hbyte.mp h), fun | .int32 h => hbyte.mpr h⟩
  case int64 n =>
    have hbyte : byte? (.int64 n) = some b ↔ n.toInt = b.toNat := narrowed_eq_some_iff
    exact ⟨fun h => .int64 (hbyte.mp h), fun | .int64 h => hbyte.mpr h⟩
  case double d =>
    have hbyte : byte? (.double d) = some b ↔ d.isIntegral = true ∧ d.truncate = (b.toNat : ℤ) := by
      change ((if d.isIntegral then some d.toInt64 else none).bind _) = some b ↔ _
      by_cases hd : d.isIntegral = true
      · -- A double out of the range of the cast becomes an end of the range, and that is no byte.
        have hb := b.toNat_lt
        rw [if_pos hd, Option.bind_some, narrowed_eq_some_iff, Double.toInt_toInt64 hd, and_iff_right hd,
          Double.clamp_eq_iff (by omega) (by omega)]
      · rw [if_neg hd]
        exact iff_of_false nofun fun h => hd h.1
    rw [hbyte, Double.isIntegral_and_truncate_iff]
    exact ⟨fun h => .double h.1 (by exact_mod_cast h.2), fun | .double finite h => ⟨finite, by exact_mod_cast h⟩⟩
  all_goals exact iff_of_false nofun nofun

theorem byte?_eq_none_iff : byte? v = none ↔ ∀ b, ¬ StandsFor v b := by
  simp only [Option.eq_none_iff_forall_ne_some, Ne, byte?_eq_some_iff]

/-- The types of number that a byte can be written in. -/
inductive NumberType
  | int32
  | int64
  | double

/-- A byte as a number of a type. -/
def NumberType.write : NumberType → UInt8 → Value
  | int32, b => .int32 (Int32.ofInt b.toNat)
  | int64, b => .int64 (Int64.ofInt b.toNat)
  | double, b => .double (Double.ofInt b.toNat)

theorem standsFor_write (type : NumberType) (b : UInt8) : StandsFor (type.write b) b := by
  have hb := b.toNat_lt
  cases type with
  | int32 => exact .int32 (Int32.toInt_ofInt_of_le (by omega) (by omega))
  | int64 => exact .int64 (Int64.toInt_ofInt_of_le (by omega) (by omega))
  | double =>
    obtain ⟨finite, h⟩ := Double.finite_and_value_ofInt (show (b.toNat : ℤ).natAbs < 2 ^ 53 by omega)
    exact .double finite (by exact_mod_cast h)

end Numbers

section Items

variable {items : List Value} {bytes : Bytes}

/-- What an item of an array is read as. -/
private def readItem (item : Value) : Except Error UInt8 :=
  match byte? item with
  | some b => .ok b
  | none => .error (.decode (.chunkByte item))

private theorem readItem_eq_ok_iff {item : Value} {b : UInt8} : readItem item = .ok b ↔ StandsFor item b := by
  rw [← byte?_eq_some_iff, readItem]
  cases byte? item <;> simp

private theorem readItem_eq_error_iff {item : Value} {e : Error} :
    readItem item = .error e ↔ (∀ b, ¬ StandsFor item b) ∧ .decode (.chunkByte item) = e := by
  rw [← byte?_eq_none_iff, readItem]
  cases byte? item <;> simp

private theorem bytesOfItems_eq_eachItem (items : List Value) : bytesOfItems items = eachItem readItem items := by
  induction items with
  | nil => rfl
  | cons item rest ih =>
    rw [bytesOfItems, eachItem, ih, readItem]
    cases byte? item <;> rfl

theorem bytesOfItems_eq_ok_iff : bytesOfItems items = .ok bytes ↔ List.Forall₂ StandsFor items bytes := by
  simp only [bytesOfItems_eq_eachItem, eachItem_eq_ok_iff, readItem_eq_ok_iff]

/-- The error names the first item that stands for no byte. -/
theorem bytesOfItems_eq_error_iff {e : Error} :
    bytesOfItems items = .error e ↔
      ∃ before item after, items = before ++ item :: after ∧ (∀ item' ∈ before, ∃ b, StandsFor item' b) ∧
        (∀ b, ¬ StandsFor item b) ∧ .decode (.chunkByte item) = e := by
  simp only [bytesOfItems_eq_eachItem, eachItem_eq_error_iff, readItem_eq_ok_iff, readItem_eq_error_iff]

end Items

/-! ### Payloads -/

/-- Values that hold bytes as the payload of a chunk: as they are, under any subtype, or as an array of numbers. -/
inductive Encodes (bytes : Bytes) : Value → Prop
  | binary : Encodes bytes (.binary bytes)
  | other (subtype : UInt8) : Encodes bytes (.other (.binary subtype bytes))
  | array {items : List Value} (h : List.Forall₂ StandsFor items bytes) : Encodes bytes (.array items)

/-- Values that hold no bytes, each with what is found wrong with it: its type, or the first item that is no byte. -/
inductive Unencoding : Value → DecodeCause → Prop
  | data {v : Value} (hbinary : ∀ bytes, v ≠ .binary bytes)
      (hother : ∀ subtype bytes, v ≠ .other (.binary subtype bytes)) (harray : ∀ items, v ≠ .array items) :
      Unencoding v (.chunkData v)
  | item {before after : List Value} {item : Value} (hbefore : ∀ item' ∈ before, ∃ b, StandsFor item' b)
      (h : ∀ b, ¬ StandsFor item b) : Unencoding (.array (before ++ item :: after)) (.chunkByte item)

section Payloads

variable {v : Value} {bytes : Bytes}

theorem payload_eq_ok_iff : payload v = .ok bytes ↔ Encodes bytes v := by
  constructor
  · intro h
    unfold payload at h
    split at h
    case h_1 data =>
      obtain rfl := Except.ok.inj h
      exact .binary
    case h_2 subtype data =>
      obtain rfl := Except.ok.inj h
      exact .other subtype
    case h_3 items => exact .array (bytesOfItems_eq_ok_iff.mp h)
    case h_4 => cases h
  · rintro (_ | _ | h)
    · rfl
    · rfl
    · exact bytesOfItems_eq_ok_iff.mpr h

theorem payload_eq_error_iff {e : Error} : payload v = .error e ↔ ∃ cause, Unencoding v cause ∧ .decode cause = e := by
  constructor
  · intro h
    unfold payload at h
    split at h
    case h_1 | h_2 => cases h
    case h_3 items =>
      obtain ⟨before, item, after, rfl, hbefore, hitem, rfl⟩ := bytesOfItems_eq_error_iff.mp h
      exact ⟨.chunkByte item, .item hbefore hitem, rfl⟩
    case h_4 data hbinary hother harray =>
      obtain rfl := Except.error.inj h
      exact ⟨.chunkData v, .data hbinary hother harray, rfl⟩
  · rintro ⟨cause, ⟨hbinary, hother, harray⟩ | ⟨hbefore, hitem⟩, rfl⟩
    · unfold payload
      split
      case h_1 bytes => exact absurd rfl (hbinary bytes)
      case h_2 subtype bytes => exact absurd rfl (hother subtype bytes)
      case h_3 items => exact absurd rfl (harray items)
      case h_4 => rfl
    · exact bytesOfItems_eq_error_iff.mpr ⟨_, _, _, rfl, hbefore, hitem, rfl⟩

/--
The payload of a chunk is read from exactly the values that hold these bytes, and from all others not at all; an array
may hold each byte as a number of any type.
-/
theorem payload_encodings :
    (∀ v bytes, payload v = .ok bytes ↔ Encodes bytes v) ∧
      (∀ v, (∀ bytes, ¬ Encodes bytes v) ↔ ∃ cause, Unencoding v cause ∧ payload v = .error (.decode cause)) ∧
      ∀ written : List (NumberType × UInt8),
        payload (.array (written.map fun w => w.1.write w.2)) = .ok (written.map Prod.snd) := by
  refine ⟨fun v bytes => payload_eq_ok_iff, fun v => ?_, fun written => bytesOfItems_eq_ok_iff.mpr ?_⟩
  · simp only [← payload_eq_ok_iff]
    cases hpayload : payload v with
    | ok bytes => exact iff_of_false (fun h => h bytes rfl) nofun
    | error e =>
      obtain ⟨cause, hcause, rfl⟩ := payload_eq_error_iff.mp hpayload
      exact iff_of_true nofun ⟨cause, hcause, rfl⟩
  · rw [List.forall₂_map_left_iff, List.forall₂_map_right_iff, List.forall₂_same]
    exact fun w _ => standsFor_write w.1 w.2

end Payloads

end DocClient.Blob
