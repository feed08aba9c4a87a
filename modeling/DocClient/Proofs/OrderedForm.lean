import DocClient.Bson.Equality
import DocClient.Proofs.Conversion
import DocClient.Proofs.Time
import DocClient.Value.Equality

/-! Documents that are read in order and sent back. Main statement: `survives_in_order`, by which a document
comes back with every name at its place, and its ordered reading differs from the unordered one only in the
order of names. -/
namespace DocClient

/-- A date in milliseconds, or the end of the calendar on its side. -/
def Time.nearestDate (ms : Int64) : Int64 :=
  if ms.toInt < earliest.millis then Int64.ofInt earliest.millis
  else if latest.millis < ms.toInt then Int64.ofInt latest.millis
  else ms

theorem Time.ofInt_millis_ofMillisClamped (ms : Int64) :
    Int64.ofInt (ofMillisClamped ms.toInt).millis = nearestDate ms := by
  have hcalendar : inCalendar (ms.toInt / 1000) = true ↔
      ¬ ms.toInt < earliest.millis ∧ ¬ latest.millis < ms.toInt := by
    rw [inCalendar_iff]
    unfold earliest latest millis
    dsimp only
    omega
  unfold ofMillisClamped ofMillis? nearestDate
  by_cases hin : inCalendar (ms.toInt / 1000) = true
  · obtain ⟨hlow, hhigh⟩ := hcalendar.mp hin
    have hmillis : (ofMillis ms.toInt).millis = ms.toInt := by
      unfold ofMillis millis
      dsimp only
      omega
    rw [if_pos hin, if_neg hlow, if_neg hhigh]
    dsimp only
    rw [hmillis, Int64.ofInt_toInt]
  · rw [if_neg hin]
    by_cases hlow : ms.toInt < earliest.millis
    · have hneg : ms.toInt < 0 := lt_trans hlow (by decide)
      rw [if_pos hlow]
      exact congrArg (Int64.ofInt ∘ millis) (if_pos hneg)
    · have hhigh : latest.millis < ms.toInt := by
        by_contra hhigh
        exact hin (hcalendar.mpr ⟨hlow, hhigh⟩)
      have hpos : ¬ ms.toInt < 0 := by
        have : (0 : Int) ≤ latest.millis := by decide
        omega
      rw [if_neg hlow, if_pos hhigh]
      exact congrArg (Int64.ofInt ∘ millis) (if_neg hpos)

namespace Bson

mutual

/-- What a server value is after it was read and sent back. Plain bytes of the retired subtype have the generic
one, and a date beyond the calendar is the end of it. Code is carried with its scope as it is. -/
def kept : Bson → Bson
  | .dateTime ms => .dateTime (Time.nearestDate ms)
  | .binary subtype bytes => .binary (if subtype = oldSubtype then genericSubtype else subtype) bytes
  | .array items => .array (keptItems items)
  | .document fields => .document (keptFields fields)
  | b => b

def keptItems : List Bson → List Bson
  | [] => []
  | b :: rest => kept b :: keptItems rest

def keptFields : List (String × Bson) → List (String × Bson)
  | [] => []
  | (k, b) :: rest => (k, kept b) :: keptFields rest

end

/-- Whether a node is no bytes of the retired subtype and no date beyond the calendar. -/
def isRetainedNode : Bson → Bool
  | .dateTime ms => Time.nearestDate ms = ms
  | .binary subtype _ => subtype ≠ oldSubtype
  | _ => true

/-- Whether a node is no document of more than one field. -/
def isOrderlessNode : Bson → Bool
  | .document fields => fields.length ≤ 1
  | _ => true

end Bson

def Document.kept (doc : Document) : Document := ⟨Bson.keptFields doc.fields⟩

namespace Value

mutual

/-- The value with every ordered document replaced by the unordered one of its pairs. -/
def withoutOrder : Value → Value
  | .array items => .array (itemsWithoutOrder items)
  | .unordered fields => .unordered (fieldsWithoutOrder fields)
  | .ordered pairs => .unordered (Fields.byName (fieldsWithoutOrder pairs))
  | v => v

def itemsWithoutOrder : List Value → List Value
  | [] => []
  | v :: rest => withoutOrder v :: itemsWithoutOrder rest

def fieldsWithoutOrder : List (String × Value) → List (String × Value)
  | [] => []
  | (k, v) :: rest => (k, withoutOrder v) :: fieldsWithoutOrder rest

end

end Value

namespace Bson

/-- Fields of distinct names are read into an unordered document as they are, but sorted. -/
theorem collectSorted_inboundFields {fields : Fields Bson} (h : Fields.distinct fields = true) :
    Fields.collectSorted (inboundFields fields) = Fields.byName (inboundFields fields) := by
  have hnodup : (Fields.names (inboundFields fields)).Nodup := by
    rw [names_inboundFields]
    exact Fields.distinct_iff.mp h
  rw [Fields.collectSorted_eq_byName_latest, Fields.latest_of_nodup hnodup]

mutual

/-- A value that is read in order and sent back is kept. -/
theorem outbound_inboundOrdered {b : Bson} (h : b.isWellFormed = true) :
    b.inboundOrdered.outbound = b.kept := by
  cases b with
  | objectId id => simp [inboundOrdered, Value.outbound, kept]
  | dateTime ms => exact congrArg Bson.dateTime (Time.ofInt_millis_ofMillisClamped ms)
  | binary subtype bytes =>
    rw [inboundOrdered, kept]
    by_cases hplain : subtype = genericSubtype ∨ subtype = oldSubtype
    · rw [if_pos hplain]
      rcases hplain with rfl | rfl <;> rfl
    · rw [if_neg hplain, if_neg (not_or.mp hplain).2]
      rfl
  | array items =>
    rw [isWellFormed] at h
    rw [inboundOrdered, Value.outbound, kept, outboundItems_inboundOrderedItems h]
  | document fields =>
    rw [isWellFormed, Bool.and_eq_true] at h
    have hnodup : (Fields.names (Value.outboundFields (inboundOrderedFields fields))).Nodup := by
      rw [Value.names_outboundFields, names_inboundOrderedFields]
      exact Fields.distinct_iff.mp h.1
    rw [inboundOrdered, Value.outbound, kept, Fields.collect_of_nodup hnodup,
      outboundFields_inboundOrderedFields h.2]
  | _ => rfl

theorem outboundItems_inboundOrderedItems {items : List Bson} (h : areWellFormed items = true) :
    Value.outboundItems (inboundOrderedItems items) = keptItems items := by
  match items with
  | [] => rfl
  | b :: rest =>
    rw [areWellFormed, Bool.and_eq_true] at h
    rw [inboundOrderedItems, Value.outboundItems, keptItems, outbound_inboundOrdered h.1,
      outboundItems_inboundOrderedItems h.2]

theorem outboundFields_inboundOrderedFields {fields : List (String × Bson)}
    (h : fieldsWellFormed fields = true) :
    Value.outboundFields (inboundOrderedFields fields) = keptFields fields := by
  match fields with
  | [] => rfl
  | (k, b) :: rest =>
    rw [fieldsWellFormed, Bool.and_eq_true] at h
    rw [inboundOrderedFields, Value.outboundFields, keptFields, outbound_inboundOrdered h.1,
      outboundFields_inboundOrderedFields h.2]

end

mutual

/-- The unordered reading of a value is its ordered reading without the order. -/
theorem withoutOrder_inboundOrdered {b : Bson} (h : b.isWellFormed = true) :
    b.inboundOrdered.withoutOrder = b.inbound := by
  cases b with
  | binary subtype bytes =>
    rw [inboundOrdered, inbound]
    split <;> rfl
  | array items =>
    rw [isWellFormed] at h
    rw [inboundOrdered, Value.withoutOrder, inbound, itemsWithoutOrder_inboundOrderedItems h]
  | document fields =>
    rw [isWellFormed, Bool.and_eq_true] at h
    rw [inboundOrdered, Value.withoutOrder, inbound, fieldsWithoutOrder_inboundOrderedFields h.2,
      collectSorted_inboundFields h.1]
  | _ => rfl

theorem itemsWithoutOrder_inboundOrderedItems {items : List Bson} (h : areWellFormed items = true) :
    Value.itemsWithoutOrder (inboundOrderedItems items) = inboundItems items := by
  match items with
  | [] => rfl
  | b :: rest =>
    rw [areWellFormed, Bool.and_eq_true] at h
    rw [inboundOrderedItems, Value.itemsWithoutOrder, inboundItems, withoutOrder_inboundOrdered h.1,
      itemsWithoutOrder_inboundOrderedItems h.2]

theorem fieldsWithoutOrder_inboundOrderedFields {fields : List (String × Bson)}
    (h : fieldsWellFormed fields = true) :
    Value.fieldsWithoutOrder (inboundOrderedFields fields) = inboundFields fields := by
  match fields with
  | [] => rfl
  | (k, b) :: rest =>
    rw [fieldsWellFormed, Bool.and_eq_true] at h
    rw [inboundOrderedFields, Value.fieldsWithoutOrder, inboundFields, withoutOrder_inboundOrdered h.1,
      fieldsWithoutOrder_inboundOrderedFields h.2]

end

end Bson

/-- A document that is read in order and sent back keeps its names, their order and its values; read without
order it is the same value, but for the order. -/
theorem Document.survives_in_order {doc : Document} (h : doc.isWellFormed = true) :
    (Value.ofDocumentOrdered doc).outbound = Bson.ofDocument doc.kept ∧
      (Bson.ofDocument doc).inbound = (Value.ofDocumentOrdered doc).withoutOrder :=
  ⟨Bson.outbound_inboundOrdered h, (Bson.withoutOrder_inboundOrdered h).symm⟩

/-- Names out of order in a list, a retired subtype, a date beyond the calendar, and code with a scope. -/
theorem Document.survives_in_order_nested :
    let doc : Document := ⟨[("z", .array [.document [("y", .int32 1), ("x", .binary 2 [7])]]),
      ("a", .dateTime 9000000000000000), ("f", .codeWithScope "g()" [("b", .binary 2 [7])])]⟩
    doc.isWellFormed = true ∧
      (Value.ofDocumentOrdered doc).outbound =
        .document [("z", .array [.document [("y", .int32 1), ("x", .binary 0 [7])]]),
          ("a", .dateTime 8210266876799999), ("f", .codeWithScope "g()" [("b", .binary 2 [7])])] :=
  ⟨by decide, (survives_in_order (by decide)).1.trans (by decide)⟩

end DocClient
