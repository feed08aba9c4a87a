import DocClient.Proofs.Conversion
import DocClient.Proofs.Time
import DocClient.Value.Equality

/-! Values that are sent and read back. Main statement: `reads_back_normal`, by which every value comes back in
its normal form. -/
namespace DocClient

namespace Value

mutual

/-- What a value is after it was sent and read back. A malformed identifier has become binary, a time has
whole milliseconds, and an ordered document is unordered, each name with its last value. -/
def normal : Value → Value
  | .objectId id => if id.bytes.length = 12 then .objectId id else .binary id.bytes
  | .time t => .time t.keptMillis
  | .array items => .array (normalItems items)
  | .unordered fields => .unordered (normalFields fields)
  | .ordered pairs => .unordered (Fields.byName (Fields.latest (normalFields pairs)))
  | .other b => b.inbound
  | v => v

def normalItems : List Value → List Value
  | [] => []
  | v :: rest => normal v :: normalItems rest

def normalFields : List (String × Value) → List (String × Value)
  | [] => []
  | (k, v) :: rest => (k, normal v) :: normalFields rest

end

mutual

/-- Whether a value is built of scalars, strings, binaries, identifiers of twelve bytes, times of whole
milliseconds outside of leap seconds, lists and unordered documents. -/
def isNormal : Value → Bool
  | .objectId id => id.bytes.length = 12
  | .time t => t.nanos < 1000000000 && t.nanos % 1000000 = 0
  | .array items => areNormal items
  | .unordered fields => fieldsNormal fields
  | .ordered _ | .other _ => false
  | _ => true

def areNormal : List Value → Bool
  | [] => true
  | v :: rest => isNormal v && areNormal rest

def fieldsNormal : List (String × Value) → Bool
  | [] => true
  | (_, v) :: rest => isNormal v && fieldsNormal rest

end

@[simp] theorem names_normalFields (fields : Fields Value) :
    Fields.names (normalFields fields) = Fields.names fields := by
  induction fields with
  | nil => rfl
  | cons p rest ih =>
    obtain ⟨k, v⟩ := p
    simp [normalFields, ih]

theorem inbound_outbound_objectId (id : ObjectId) :
    (Value.objectId id).outbound.inbound = (Value.objectId id).normal := by
  rw [outbound, normal]
  unfold ObjectId.toOid? Oid.ofBytes?
  by_cases h : id.bytes.length = 12
  · rw [dif_pos h, if_pos h]
    rfl
  · rw [dif_neg h, if_neg h]
    rfl

theorem inbound_outbound_time {t : Time} (h : t.Valid) :
    (Value.time t).outbound.inbound = .time t.keptMillis := by
  rw [outbound, Bson.inbound, Time.toInt_millis h, Time.ofMillisClamped_millis h]

end Value

namespace Bson

theorem inboundFields_eq_mapValues (fields : Fields Bson) :
    inboundFields fields = Fields.mapValues inbound fields := by
  induction fields with
  | nil => rfl
  | cons p rest ih => exact congrArg _ ih

/-- An ordered document reads back as the unordered document of its pairs. -/
theorem inbound_collect (pairs : Fields Bson) :
    (Bson.document (Fields.collect pairs)).inbound =
      .unordered (Fields.byName (Fields.latest (inboundFields pairs))) := by
  rw [inbound, inboundFields_eq_mapValues, ← Fields.collect_mapValues, Fields.collectSorted_collect,
    Fields.collectSorted_eq_byName_latest, ← inboundFields_eq_mapValues]

end Bson

namespace Value

mutual

theorem inbound_outbound {v : Value} (h : v.isWellFormed = true) : v.outbound.inbound = v.normal := by
  cases v with
  | objectId id => exact inbound_outbound_objectId id
  | time t =>
    rw [isWellFormed, decide_eq_true_eq] at h
    exact inbound_outbound_time h
  | array items =>
    rw [isWellFormed] at h
    rw [outbound, Bson.inbound, normal, inboundItems_outboundItems h]
  | unordered fields =>
    rw [isWellFormed, Bool.and_eq_true] at h
    have hascending : (Fields.names (normalFields fields)).Pairwise (· < ·) := by
      rw [names_normalFields]
      exact Fields.ascending_iff.mp h.1
    rw [outbound, Bson.inbound, normal, inboundFields_outboundFields h.2,
      Fields.collectSorted_of_pairwise hascending]
  | ordered pairs =>
    rw [isWellFormed] at h
    rw [outbound, Bson.inbound_collect, normal, inboundFields_outboundFields h]
  | other b => rfl
  | _ => rfl

theorem inboundItems_outboundItems {items : List Value} (h : areWellFormed items = true) :
    Bson.inboundItems (outboundItems items) = normalItems items := by
  match items with
  | [] => rfl
  | v :: rest =>
    rw [areWellFormed, Bool.and_eq_true] at h
    rw [outboundItems, Bson.inboundItems, normalItems, inbound_outbound h.1,
      inboundItems_outboundItems h.2]

theorem inboundFields_outboundFields {fields : List (String × Value)}
    (h : fieldsWellFormed fields = true) :
    Bson.inboundFields (outboundFields fields) = normalFields fields := by
  match fields with
  | [] => rfl
  | (k, v) :: rest =>
    rw [fieldsWellFormed, Bool.and_eq_true] at h
    rw [outboundFields, Bson.inboundFields, normalFields, inbound_outbound h.1,
      inboundFields_outboundFields h.2]

end

theorem keptMillis_of_whole {t : Time} (h : t.Valid) (hnanos : t.nanos < 1000000000)
    (hwhole : t.nanos % 1000000 = 0) : t.keptMillis = t := by
  rw [Time.keptMillis_eq h hnanos]
  have hsame : t.nanos / 1000000 * 1000000 = t.nanos := by omega
  rw [hsame]

mutual

theorem normal_of_isNormal {v : Value} (h : v.isWellFormed = true) (hn : v.isNormal = true) :
    v.normal = v := by
  cases v with
  | objectId id =>
    rw [isNormal, decide_eq_true_eq] at hn
    rw [normal, if_pos hn]
  | time t =>
    rw [isWellFormed, decide_eq_true_eq] at h
    rw [isNormal, Bool.and_eq_true, decide_eq_true_eq, decide_eq_true_eq] at hn
    rw [normal, keptMillis_of_whole h hn.1 hn.2]
  | array items =>
    rw [isWellFormed] at h
    rw [isNormal] at hn
    rw [normal, normalItems_of_areNormal h hn]
  | unordered fields =>
    rw [isWellFormed, Bool.and_eq_true] at h
    rw [isNormal] at hn
    rw [normal, normalFields_of_fieldsNormal h.2 hn]
  | ordered pairs => simp [isNormal] at hn
  | other b => simp [isNormal] at hn
  | _ => rfl

theorem normalItems_of_areNormal {items : List Value} (h : areWellFormed items = true)
    (hn : areNormal items = true) : normalItems items = items := by
  match items with
  | [] => rfl
  | v :: rest =>
    rw [areWellFormed, Bool.and_eq_true] at h
    rw [areNormal, Bool.and_eq_true] at hn
    rw [normalItems, normal_of_isNormal h.1 hn.1, normalItems_of_areNormal h.2 hn.2]

theorem normalFields_of_fieldsNormal {fields : List (String × Value)}
    (h : fieldsWellFormed fields = true) (hn : fieldsNormal fields = true) :
    normalFields fields = fields := by
  match fields with
  | [] => rfl
  | (k, v) :: rest =>
    rw [fieldsWellFormed, Bool.and_eq_true] at h
    rw [fieldsNormal, Bool.and_eq_true] at hn
    rw [normalFields, normal_of_isNormal h.1 hn.1, normalFields_of_fieldsNormal h.2 hn.2]

end

/-- A value comes back in its normal form, and in the same form if it had it already. -/
theorem reads_back_normal {v : Value} (h : v.isWellFormed = true) :
    v.outbound.inbound = v.normal ∧ (v.isNormal = true → v.outbound.inbound = v) := by
  refine ⟨inbound_outbound h, ?_⟩
  intro hn
  rw [inbound_outbound h, normal_of_isNormal h hn]

/-- A leap second, a malformed identifier and a repeated name. -/
theorem reads_back_normal_repeated :
    let v : Value := .ordered [("b", .null), ("a", .array [.time ⟨59, 1500000000⟩, .objectId ⟨[1, 2]⟩]),
      ("b", .unordered [("x", .int32 1), ("y", .string "last")])]
    v.isWellFormed = true ∧
      v.outbound.inbound = .unordered [("a", .array [.time ⟨60, 500000000⟩, .binary [1, 2]]),
        ("b", .unordered [("x", .int32 1), ("y", .string "last")])] := by
  refine ⟨by decide, (reads_back_normal (by decide)).1.trans ?_⟩
  rw [normal, ← Fields.collectSorted_eq_byName_latest]
  decide

/-- Half a second into the leap second at the end of the calendar is read back as the last instant, which has
no whole milliseconds. -/
theorem last_leap_second_not_whole :
    (Value.time ⟨8210266876799, 1500000000⟩).isWellFormed = true ∧
      (Value.time ⟨8210266876799, 1500000000⟩).outbound.inbound ≠
        .time (Time.wholeMillis ⟨8210266876799, 1500000000⟩) := by
  decide

end Value
end DocClient
