import DocClient.Proofs.Blob.Removing
import DocClient.Proofs.Codec.OrderedFields

/-! Server values that are read, converted and put into a filter. Main statement: `echoedBy_eq_self_iff`, by which a
value is sent as it came, for every order of unordered documents, exactly if it is steady. -/
namespace DocClient

namespace Time

/-- The nearest date in the calendar is in the calendar. -/
theorem nearestDate_nearestDate (ms : Int64) : nearestDate (nearestDate ms) = nearestDate ms := by
  have hearliest : (Int64.ofInt earliest.millis).toInt = earliest.millis := by decide
  have hlatest : (Int64.ofInt latest.millis).toInt = latest.millis := by decide
  have horder : earliest.millis ≤ latest.millis := by decide
  unfold nearestDate
  split_ifs <;> first | rfl | omega

end Time

namespace Bson

/-- An identifier as it is sent after it came in a document, by an order of unordered documents. -/
def echoedBy (it : Iteration) (b : Bson) : Bson := (b.passed it).resent

theorem echoedBy_ascending (b : Bson) : b.echoedBy .ascending = b.echoed := by
  unfold echoedBy passed
  rw [Value.outboundBy_ascending]
  rfl

/-- Whether a node is no bytes of the retired subtype, no date beyond the calendar, and no document of more than one
field. -/
def isSteadyNode (b : Bson) : Bool := b.isRetainedNode && b.isOrderlessNode

/-- Whether a value has no bytes of the retired subtype, no date beyond the calendar, and no document of more than
one field. The scope of code is not looked into. -/
def isSteady (b : Bson) : Bool := b.everyNode false isSteadyNode

/-! ### Values without parts -/

theorem echoedBy_objectId (it : Iteration) (id : Oid) : (Bson.objectId id).echoedBy it = .objectId id := by
  simp [echoedBy, passed, resent, inbound, inboundOrdered, Value.outboundBy, Value.outbound, written]

theorem echoedBy_dateTime (it : Iteration) (ms : Int64) :
    (Bson.dateTime ms).echoedBy it = .dateTime (Time.nearestDate ms) := by
  have hpassed : (Bson.dateTime ms).passed it = .dateTime (Time.nearestDate ms) :=
    congrArg Bson.dateTime (Time.ofInt_millis_ofMillisClamped ms)
  have hresent : (Bson.dateTime (Time.nearestDate ms)).resent = .dateTime (Time.nearestDate (Time.nearestDate ms)) :=
    congrArg Bson.dateTime (Time.ofInt_millis_ofMillisClamped (Time.nearestDate ms))
  rw [echoedBy, hpassed, hresent, Time.nearestDate_nearestDate]

theorem echoedBy_binary (it : Iteration) (subtype : UInt8) (bytes : Bytes) :
    (Bson.binary subtype bytes).echoedBy it =
      .binary (if subtype = oldSubtype then genericSubtype else subtype) bytes := by
  by_cases hplain : subtype = genericSubtype ∨ subtype = oldSubtype
  · rcases hplain with rfl | rfl <;> rfl
  · have hpassed : (Bson.binary subtype bytes).passed it = .binary subtype bytes := by
      unfold passed
      rw [inbound, if_neg hplain]
      rfl
    have hresent : (Bson.binary subtype bytes).resent = .binary subtype bytes := by
      unfold resent
      rw [inboundOrdered, if_neg hplain]
      rfl
    rw [echoedBy, hpassed, hresent, if_neg (not_or.mp hplain).2]

/-! ### Lists and documents -/

variable {it : Iteration} {items : List Bson} {fields : Fields Bson}

theorem echoedBy_array (it : Iteration) (items : List Bson) :
    (Bson.array items).echoedBy it = .array (items.map (echoedBy it)) := by
  have hitems : writtenItems (Value.outboundItems (inboundOrderedItems
      (Value.outboundItemsBy it (inboundItems items)))) = items.map (echoedBy it) := by
    induction items with
    | nil => rfl
    | cons b rest ih => exact congrArg _ ih
  exact congrArg Bson.array hitems

/-- A document with distinct names is sent with its values sent one by one. -/
theorem resent_document (h : (Fields.names fields).Nodup) :
    (Bson.document fields).resent = .document (Fields.mapValues resent fields) := by
  have houtbound : (Fields.names (Value.outboundFields (inboundOrderedFields fields))).Nodup := by
    rwa [Value.names_outboundFields, names_inboundOrderedFields]
  unfold resent
  rw [inboundOrdered, Value.outbound, Fields.collect_of_nodup houtbound, written]
  clear h houtbound
  induction fields with
  | nil => rfl
  | cons p rest ih => exact congrArg (fun fields => Bson.document (_ :: fields)) (Bson.document.inj ih)

theorem echoedBy_document (h : (Fields.names fields).Nodup) (it : Iteration) :
    (Bson.document fields).echoedBy it = .document (Fields.mapValues resent (passedFields it fields)) :=
  resent_document ((names_passedFields h it).symm.nodup h)

/-- A document comes back for every order exactly if it has one field at most, and its values come back. -/
theorem document_echoedBy_iff (h : (Fields.names fields).Nodup) :
    (∀ it, (Bson.document fields).echoedBy it = .document fields) ↔
      fields.length ≤ 1 ∧ ∀ it, Fields.mapValues (echoedBy it) fields = fields := by
  simp only [echoedBy_document h, Bson.document.injEq]
  have hvalues (hlength : fields.length ≤ 1) (it : Iteration) :
      Fields.mapValues resent (passedFields it fields) = Fields.mapValues (echoedBy it) fields := by
    rw [passedFields_of_length_le_one hlength, Fields.mapValues, Fields.mapValues, List.map_map]
    rfl
  constructor
  · intro hsame
    -- What comes back as it is has its names in their order, which two fields do not keep.
    have hlength : fields.length ≤ 1 := by
      apply (order_passed_iff h).mp
      intro it
      rw [← Fields.names_mapValues resent, hsame]
    exact ⟨hlength, fun it => (hvalues hlength it).symm.trans (hsame it)⟩
  · rintro ⟨hlength, hsame⟩ it
    exact (hvalues hlength it).trans (hsame it)

mutual

/-- A value is sent as it came, whatever the order of unordered documents is, exactly if it is steady. The options
of regular expressions have to be in order as well. -/
theorem echoedBy_eq_self_iff {b : Bson} (h : b.isWellFormed = true) :
    (∀ it, b.echoedBy it = b) ↔ b.written = b ∧ b.isSteady = true := by
  cases b with
  | objectId id => exact ⟨fun _ => ⟨rfl, rfl⟩, fun _ it => echoedBy_objectId it id⟩
  | dateTime ms =>
    simp only [echoedBy_dateTime, Bson.dateTime.injEq, forall_const, written, isSteady, everyNode,
      isSteadyNode, isRetainedNode, isOrderlessNode, Bool.and_true, true_and, decide_eq_true_eq]
  | binary subtype bytes =>
    have hgeneric : genericSubtype ≠ oldSubtype := by decide
    simp only [echoedBy_binary, Bson.binary.injEq, and_true, forall_const, written, isSteady, everyNode, isSteadyNode,
      isRetainedNode, isOrderlessNode, Bool.and_true, true_and, decide_eq_true_eq]
    by_cases hold : subtype = oldSubtype
    · simp [hold, hgeneric]
    · simp [hold]
  | array items =>
    rw [isWellFormed] at h
    simp only [echoedBy_array, Bson.array.injEq, written, isSteady, everyNode, isSteadyNode, isRetainedNode,
      isOrderlessNode, Bool.true_and]
    exact items_echoedBy_iff h
  | document fields =>
    rw [isWellFormed, Bool.and_eq_true] at h
    have hnode : isSteadyNode (.document fields) = decide (fields.length ≤ 1) := rfl
    rw [document_echoedBy_iff (Fields.distinct_iff.mp h.1), fields_echoedBy_iff h.2, written, isSteady, everyNode,
      hnode, Bson.document.injEq, Bool.and_eq_true, decide_eq_true_eq]
    exact and_left_comm
  | _ => exact ⟨fun hsame => ⟨hsame .ascending, rfl⟩, fun hwritten _ => hwritten.1⟩

theorem items_echoedBy_iff {items : List Bson} (h : areWellFormed items = true) :
    (∀ it, items.map (echoedBy it) = items) ↔
      writtenItems items = items ∧ everyItem false isSteadyNode items = true := by
  match items with
  | [] => exact ⟨fun _ => ⟨rfl, rfl⟩, fun _ _ => rfl⟩
  | b :: rest =>
    rw [areWellFormed, Bool.and_eq_true] at h
    simp only [List.map_cons, List.cons.injEq, forall_and, writtenItems, everyItem, Bool.and_eq_true]
    rw [echoedBy_eq_self_iff h.1, isSteady, items_echoedBy_iff h.2]
    exact and_and_and_comm

theorem fields_echoedBy_iff {fields : List (String × Bson)} (h : fieldsWellFormed fields = true) :
    (∀ it, Fields.mapValues (echoedBy it) fields = fields) ↔
      writtenFields fields = fields ∧ everyField false isSteadyNode fields = true := by
  match fields with
  | [] => exact ⟨fun _ => ⟨rfl, rfl⟩, fun _ _ => rfl⟩
  | (k, b) :: rest =>
    rw [fieldsWellFormed, Bool.and_eq_true] at h
    have hcons : ∀ it, Fields.mapValues (echoedBy it) ((k, b) :: rest) =
        (k, b.echoedBy it) :: Fields.mapValues (echoedBy it) rest := fun _ => rfl
    simp only [hcons, List.cons.injEq, Prod.mk.injEq, true_and, forall_and, writtenFields, everyField,
      Bool.and_eq_true]
    rw [echoedBy_eq_self_iff h.1, isSteady, fields_echoedBy_iff h.2]
    exact and_and_and_comm

end

end Bson

end DocClient
