import DocClient.Proofs.Codec.Lists
import DocClient.Proofs.Codec.Marked
import DocClient.Proofs.NormalForm
import DocClient.Proofs.OrderedForm

/-! Places that are assigned directly, and what the codec reads for them. Main statement: `assigned_as_read_iff`,
by which a value that the codec reads is assigned with the same normal form exactly if it is in one of the forms
that the place takes. For all but a server document these are forms of the caller's own. -/
namespace DocClient

/-! ### Values that were read before -/

namespace Bson

def isInCalendarNode : Bson → Bool
  | .dateTime ms => Time.nearestDate ms = ms
  | _ => true

/-- Whether every date of the tree lies in the calendar. The scope of code is not looked into. -/
def isInCalendar (b : Bson) : Bool := b.everyNode false isInCalendarNode

/-- The unordered document of some pairs is sent and read back pair by pair. -/
theorem inbound_outbound_collectSorted (pairs : Fields Value) :
    (Value.unordered (Fields.collectSorted pairs)).outbound.inbound =
      .unordered (Fields.collectSorted (inboundFields (Value.outboundFields pairs))) := by
  rw [Value.outbound, inbound, Value.outboundFields_eq_mapValues, Value.outboundFields_eq_mapValues,
    inboundFields_eq_mapValues, inboundFields_eq_mapValues, ← Fields.collectSorted_mapValues,
    ← Fields.collectSorted_mapValues, Fields.collectSorted_of_pairwise (Fields.pairwise_collectSorted _)]

mutual

/-- A value that was read is read again as it is, after it was sent. -/
theorem inbound_outbound_inbound {b : Bson} (h : b.isInCalendar = true) :
    b.inbound.outbound.inbound = b.inbound := by
  cases b with
  | objectId id => simp [inbound, Value.outbound]
  | dateTime ms =>
    simp only [isInCalendar, everyNode, isInCalendarNode, decide_eq_true_eq] at h
    rw [inbound, Value.outbound, inbound, Time.ofInt_millis_ofMillisClamped, h]
  | binary subtype bytes =>
    rw [inbound]
    by_cases hplain : subtype = genericSubtype ∨ subtype = oldSubtype
    · rw [if_pos hplain]
      rfl
    · rw [if_neg hplain, Value.outbound, inbound, if_neg hplain]
  | array items =>
    simp only [isInCalendar, everyNode, isInCalendarNode, Bool.true_and] at h
    rw [inbound, Value.outbound, inbound, inboundItems_outboundItems_inboundItems h]
  | document fields =>
    simp only [isInCalendar, everyNode, isInCalendarNode, Bool.true_and] at h
    rw [inbound, inbound_outbound_collectSorted, inboundFields_outboundFields_inboundFields h]
  | _ => rfl

theorem inboundItems_outboundItems_inboundItems {items : List Bson}
    (h : everyItem false isInCalendarNode items = true) :
    inboundItems (Value.outboundItems (inboundItems items)) = inboundItems items := by
  match items with
  | [] => rfl
  | b :: rest =>
    rw [everyItem, Bool.and_eq_true] at h
    rw [inboundItems, Value.outboundItems, inboundItems, inbound_outbound_inbound h.1,
      inboundItems_outboundItems_inboundItems h.2]

theorem inboundFields_outboundFields_inboundFields {fields : List (String × Bson)}
    (h : everyField false isInCalendarNode fields = true) :
    inboundFields (Value.outboundFields (inboundFields fields)) = inboundFields fields := by
  match fields with
  | [] => rfl
  | (k, b) :: rest =>
    rw [everyField, Bool.and_eq_true] at h
    rw [inboundFields, Value.outboundFields, inboundFields, inbound_outbound_inbound h.1,
      inboundFields_outboundFields_inboundFields h.2]

end

end Bson

/-! ### The forms that are assigned -/

namespace Value

/-- A document that a caller built, of either kind. -/
def isOwnDocument : Value → Bool
  | .unordered _ | .ordered _ => true
  | _ => false

/-- A value with a form of its own. -/
def isOwn : Value → Bool
  | .other _ => false
  | _ => true

variable {v : Value}

theorem exists_toUnorderedDoc_iff : (∃ m, v.toUnorderedDoc = .ok m) ↔ v.isOwnDocument = true := by
  unfold toUnorderedDoc isOwnDocument
  split <;> simp [notAs]

/-- A document is assigned with the normal form that it has. -/
theorem normal_of_toUnorderedDoc {m : UnorderedDoc} (h : v.toUnorderedDoc = .ok m) :
    (Value.unordered m.fields).outbound.inbound = v.outbound.inbound := by
  cases v with
  | unordered fields =>
    obtain rfl := Except.ok.inj h
    rfl
  | ordered pairs =>
    obtain rfl := Except.ok.inj h
    rw [UnorderedDoc.ofPairs, Bson.inbound_outbound_collectSorted, outbound, Bson.inbound_collect,
      ← Fields.collectSorted_eq_byName_latest]
  | _ => cases h

end Value

/-! ### Each form that the codec reads -/

namespace Value

variable {v : Value}

/-- A value that is sent as a document is made into that document. -/
theorem toDocument_of_outbound {fields : Fields Bson} (h : v.outbound = .document fields) :
    v.toDocument = .ok ⟨fields⟩ := by
  cases v with
  | unordered => rw [outbound, Bson.document.injEq] at h; subst h; rfl
  | ordered => rw [outbound, Bson.document.injEq] at h; subst h; rfl
  | other b => obtain rfl : b = .document fields := h; rfl
  | objectId id =>
    rw [outbound] at h
    split at h <;> cases h
  | _ => cases h

/-- An identifier of any length is read as it was. -/
theorem toObjectId_outbound_objectId (id : ObjectId) : (Value.objectId id).outbound.toObjectId = .ok id := by
  rw [outbound]
  unfold ObjectId.toOid? Oid.ofBytes?
  by_cases h : id.bytes.length = 12
  · rw [dif_pos h]
    rfl
  · rw [dif_neg h]
    rfl

theorem toObjectId_outbound_string (s : String) :
    (Value.string s).outbound.toObjectId = (ObjectId.ofHex s).mapError (.badHex s) := by
  have hread : (Value.string s).outbound.toObjectId = (Bson.string s).toObjectId := rfl
  rw [hread]
  unfold Bson.toObjectId
  cases h : ObjectId.ofHex s <;> simp only [h] <;> rfl

theorem toObjectId_string (s : String) :
    (Value.string s).toObjectId = (ObjectId.ofHex s).mapError fun fault => .decode (.badHex s fault) := by
  unfold toObjectId
  cases h : ObjectId.ofHex s <;> simp only [h] <;> rfl

/-- An identifier is assigned as it is read from a form of its own other than null. -/
theorem toObjectId_of_outbound {id : ObjectId} (hown : v.isOwn = true) (hnull : v.isNull = false)
    (h : v.outbound.toObjectId = .ok id) : v.toObjectId = .ok id := by
  cases v with
  | null => cases hnull
  | other => cases hown
  | binary => exact congrArg Except.ok (Except.ok.inj h)
  | string s =>
    rw [toObjectId_outbound_string, mapError_eq_ok_iff] at h
    rw [toObjectId_string, mapError_eq_ok_iff]
    exact h
  | objectId held =>
    rw [toObjectId_outbound_objectId] at h
    exact congrArg Except.ok (Except.ok.inj h)
  | _ => cases h

theorem own_of_toObjectId {id : ObjectId} (h : v.toObjectId = .ok id) : v.isOwn = true ∧ v.isNull = false := by
  cases v with
  | null => cases h
  | other => cases h
  | _ => exact ⟨rfl, rfl⟩

end Value

/-! ### Places -/

/-- The types of places that are assigned directly, apart from ordered documents and times. -/
inductive Place
  | unordered
  | document
  | objectId
  | values
  | unordereds
  | objectIds

namespace Place

def Held : Place → Type
  | unordered => UnorderedDoc
  | document => Document
  | objectId => ObjectId
  | values => List Value
  | unordereds => List UnorderedDoc
  | objectIds => List ObjectId

instance (p : Place) : Destination p.Held :=
  match p with
  | unordered => inferInstanceAs (Destination UnorderedDoc)
  | document => inferInstanceAs (Destination Document)
  | objectId => inferInstanceAs (Destination ObjectId)
  | values => inferInstanceAs (Destination (List Value))
  | unordereds => inferInstanceAs (Destination (List UnorderedDoc))
  | objectIds => inferInstanceAs (Destination (List ObjectId))

def readUnordered (see : Bson → Except DecodeCause Bson) (b : Bson) : Except DecodeCause UnorderedDoc :=
  (decodeShown see b).map fun fields => .ofDocument ⟨fields⟩

def readObjectId (see : Bson → Except DecodeCause Bson) (b : Bson) : Except DecodeCause ObjectId :=
  see b >>= Bson.toObjectId

/-- How a codec reads for a place, from what it makes of server values. -/
def readBy (see : Bson → Except DecodeCause Bson) : (p : Place) → Bson → Except DecodeCause p.Held
  | unordered => readUnordered see
  | document => fun b => see b >>= Bson.toDocument
  | objectId => readObjectId see
  | values => decodeList fun b => (see b).map Bson.inbound
  | unordereds => decodeList (readUnordered see)
  | objectIds => decodeList (readObjectId see)

/-- The codec reads for a place from what it makes of server values. -/
theorem decodeBson_eq_readBy (p : Place) (b : Bson) :
    (decodeBson b : Except DecodeCause p.Held) = p.readBy Bson.visited b := by
  cases p <;> rfl

/-- What a place holds, as a value. -/
def toValue : (p : Place) → p.Held → Value
  | unordered, m => .unordered (UnorderedDoc.fields m)
  | document, doc => .other (.document (Document.fields doc))
  | objectId, id => .objectId id
  | values, vs => .array vs
  | unordereds, ms => .array (List.map (fun m => .unordered (UnorderedDoc.fields m)) ms)
  | objectIds, ids => .array (List.map .objectId ids)

/-- What a place holds, after it was sent and read back. -/
def normal (p : Place) (held : p.Held) : Value := (p.toValue held).outbound.inbound

/-- The forms that are assigned, among those that the codec reads for the place. -/
def Takes (v : Value) : Place → Prop
  | unordered => v.isOwnDocument = true
  | document => True
  | objectId => v.isOwn = true ∧ v.isNull = false
  | values => ∃ items, v = .array items
  | unordereds => ∃ items, v = .array items ∧ ∀ item ∈ items, item.isOwnDocument = true
  | objectIds => ∃ items, v = .array items ∧ ∀ item ∈ items, item.isOwn = true ∧ item.isNull = false

/-- Whether the codec takes every node of a tree as it is. -/
def keeps (see : Bson → Except DecodeCause Bson) (b : Bson) : Bool :=
  b.everyNode false fun node => (see node).toOption = some node

theorem keeps_ok (b : Bson) : keeps .ok b = true :=
  Bson.everyNode_of_hereditary (P := fun _ => True) (fun _ _ _ _ => trivial) (fun _ _ _ _ => trivial)
    (fun _ _ => decide_eq_true rfl) trivial

/-- The codec takes every node of a tree without marked names as it is. -/
theorem keeps_visited {b : Bson} (h : b.isUnmarked = true) : keeps Bson.visited b = true := by
  refine Bson.everyNode_of_hereditary (P := fun b => b.isUnmarked = true) ?_ ?_ ?_ h
  · exact fun items hitems => Bson.isUnmarked_array_iff.mp hitems
  · exact fun fields hfields p hp => (Bson.isUnmarked_document_iff.mp hfields p hp).2
  · intro b hb
    rw [Bson.visited_of_isUnmarked hb]
    exact decide_eq_true rfl

section AsRead

variable {see : Bson → Except DecodeCause Bson} {v : Value}

theorem eq_ok_of_keeps {b : Bson} (h : keeps see b = true) : see b = .ok b := by
  have hnode := Bson.test_of_everyNode h
  rw [decide_eq_true_eq] at hnode
  cases hsee : see b with
  | error cause =>
    rw [hsee] at hnode
    cases hnode
  | ok node =>
    rw [hsee] at hnode
    exact congrArg Except.ok (Option.some.inj hnode)

/-- A document that the codec takes as it is is read in its normal form. -/
theorem unordered_of_readUnordered {x : UnorderedDoc} (hown : v.isOwnDocument = true)
    (hkeeps : keeps see v.outbound = true) (hx : readUnordered see v.outbound = .ok x) : .unordered x.fields = v.outbound.inbound := by
  have hdocument : ∃ fields, v.outbound = .document fields := by
    unfold Value.isOwnDocument at hown
    split at hown
    · exact ⟨_, rfl⟩
    · exact ⟨_, rfl⟩
    · cases hown
  obtain ⟨fields, hfields⟩ := hdocument
  rw [hfields] at hkeeps hx ⊢
  have hentries : decodeEntries see fields = .ok fields := by
    rw [keeps, Bson.everyNode, Bool.and_eq_true] at hkeeps
    have heach := Bson.everyField_iff.mp hkeeps.2
    clear hx hkeeps hfields
    induction fields with
    | nil => rfl
    | cons p rest ih =>
      obtain ⟨hfirst, hrest⟩ := List.forall_mem_cons.mp heach
      rw [decodeEntries, eq_ok_of_keeps hfirst, ih hrest]
      rfl
  have hread : readUnordered see (.document fields) =
      (decodeEntries see fields).map fun fields => UnorderedDoc.ofDocument ⟨fields⟩ := rfl
  rw [hread, hentries] at hx
  obtain rfl := Except.ok.inj hx
  rfl

theorem unordered_as_read_iff {x : UnorderedDoc} (hdates : v.outbound.isInCalendar = true)
    (hkeeps : keeps see v.outbound = true) (hx : readUnordered see v.outbound = .ok x) :
    (∃ y, v.toUnorderedDoc = .ok y ∧ unordered.normal y = unordered.normal x) ↔ v.isOwnDocument = true := by
  constructor
  · rintro ⟨y, hy, -⟩
    exact Value.exists_toUnorderedDoc_iff.mp ⟨y, hy⟩
  · intro hown
    obtain ⟨y, hy⟩ := Value.exists_toUnorderedDoc_iff.mpr hown
    refine ⟨y, hy, ?_⟩
    calc
      unordered.normal y = v.outbound.inbound := Value.normal_of_toUnorderedDoc hy
      _ = v.outbound.inbound.outbound.inbound := (Bson.inbound_outbound_inbound hdates).symm
      _ = unordered.normal x := by rw [← unordered_of_readUnordered hown hkeeps hx]; rfl

theorem document_as_read {x : Document} (hkeeps : keeps see v.outbound = true)
    (hx : readBy see document v.outbound = .ok x) : v.toDocument = .ok x := by
  have hread : (see v.outbound >>= Bson.toDocument) = .ok x := hx
  rw [eq_ok_of_keeps hkeeps] at hread
  exact Value.toDocument_of_outbound (Bson.eq_document_of_toDocument hread)

theorem objectId_as_read_iff {x : ObjectId} (hkeeps : keeps see v.outbound = true)
    (hx : readObjectId see v.outbound = .ok x) :
    (∃ y, v.toObjectId = .ok y ∧ objectId.normal y = objectId.normal x) ↔ v.isOwn = true ∧ v.isNull = false := by
  have hread : (see v.outbound >>= Bson.toObjectId) = .ok x := hx
  rw [eq_ok_of_keeps hkeeps] at hread
  constructor
  · rintro ⟨y, hy, -⟩
    exact Value.own_of_toObjectId hy
  · rintro ⟨hown, hnull⟩
    exact ⟨x, Value.toObjectId_of_outbound hown hnull hread, rfl⟩

/-- What the codec reads a list from is a list of the caller's, or one of the server's. -/
theorem array_of_decodeList {α : Type} {read : Bson → Except DecodeCause α} {xs : List α}
    (h : decodeList read v.outbound = .ok xs) :
    (∃ items, v = .array items ∧ eachItem (fun item : Value => read item.outbound) items = .ok xs) ∨
      ∃ items, v = .other (.array items) := by
  cases v with
  | array items =>
    refine .inl ⟨items, rfl, ?_⟩
    have hread : decodeItems read (Value.outboundItems items) = .ok xs := h
    rw [← hread]
    clear h hread
    induction items with
    | nil => rfl
    | cons item rest ih => rw [eachItem, ih, Value.outboundItems, decodeItems]
  | other b =>
    cases b with
    | array items => exact .inr ⟨items, rfl⟩
    | _ => cases h
  | objectId id =>
    rw [Value.outbound] at h
    split at h <;> cases h
  | _ => cases h

theorem inbound_outbound_array {α : Type} (form : α → Value) (xs : List α) :
    (Value.array (xs.map form)).outbound.inbound = .array (xs.map fun x => (form x).outbound.inbound) := by
  rw [Value.outbound, Bson.inbound, Value.outboundItems_eq_map, Bson.inboundItems_eq_map, List.map_map, List.map_map]
  rfl

/-- A list is assigned as the codec reads it exactly if it is the caller's, and every item is assigned as the codec
reads it. -/
theorem list_as_read_iff {α : Type} {read : Bson → Except DecodeCause α} {assign : Value → Except Error α}
    {form : α → Value} {takes : Value → Prop} {xs : List α} (hdates : v.outbound.isInCalendar = true)
    (hkeeps : keeps see v.outbound = true)
    (h : ∀ item x, item.outbound.isInCalendar = true → keeps see item.outbound = true → read item.outbound = .ok x →
      ((∃ y, assign item = .ok y ∧ (form y).outbound.inbound = (form x).outbound.inbound) ↔ takes item))
    (hx : decodeList read v.outbound = .ok xs) :
    (∃ ys, v.toList assign = .ok ys ∧
      (Value.array (ys.map form)).outbound.inbound = (Value.array (xs.map form)).outbound.inbound) ↔
      ∃ items, v = .array items ∧ ∀ item ∈ items, takes item := by
  simp only [inbound_outbound_array, Value.array.injEq]
  rcases array_of_decodeList hx with ⟨items, rfl, hitems⟩ | ⟨items, rfl⟩
  · simp only [Value.array.injEq, exists_eq_left']
    refine eachItem_alike_iff ?_ hitems
    intro item hmem
    have hsent : item.outbound ∈ Value.outboundItems items := by
      rw [Value.outboundItems_eq_map]
      exact List.mem_map_of_mem hmem
    rw [Value.outbound, Bson.isInCalendar, Bson.everyNode, Bool.and_eq_true] at hdates
    rw [Value.outbound, keeps, Bson.everyNode, Bool.and_eq_true] at hkeeps
    exact fun x => h item x (Bson.everyItem_iff.mp hdates.2 _ hsent) (Bson.everyItem_iff.mp hkeeps.2 _ hsent)
  · exact iff_of_false (fun ⟨_, hy, _⟩ => nomatch hy) (fun ⟨_, hv, _⟩ => nomatch hv)

/-- Each value of a list is assigned as it is, and the codec reads its normal form. -/
theorem values_as_read_iff {xs : List Value} (hdates : v.outbound.isInCalendar = true)
    (hkeeps : keeps see v.outbound = true) (hx : readBy see values v.outbound = .ok xs) :
    (∃ ys, v.toList .ok = .ok ys ∧ values.normal ys = values.normal xs) ↔ ∃ items, v = .array items := by
  have hlist : (∃ ys, v.toList .ok = .ok ys ∧
      (Value.array (ys.map id)).outbound.inbound = (Value.array (xs.map id)).outbound.inbound) ↔
      ∃ items, v = .array items ∧ ∀ item ∈ items, True := by
    refine list_as_read_iff hdates hkeeps ?_ hx
    intro item x hitem hkept hread
    rw [eq_ok_of_keeps hkept] at hread
    obtain rfl := Except.ok.inj hread
    exact iff_of_true ⟨item, rfl, (Bson.inbound_outbound_inbound hitem).symm⟩ trivial
  simp only [List.map_id, implies_true, and_true] at hlist
  exact hlist

end AsRead

end Place

/-- A value that a codec reads for a place, one that takes the value's nodes as they are, is assigned to the place
with the same normal form exactly if it is in one of the forms that the place takes. -/
theorem assigned_as_read_iff (p : Place) {see : Bson → Except DecodeCause Bson} {v : Value} (hnull : v.isNull = false)
    (hdates : v.outbound.isInCalendar = true) (hkeeps : Place.keeps see v.outbound = true) {x : p.Held}
    (hx : p.readBy see v.outbound = .ok x) :
    (∃ y, decode v = .ok y ∧ p.normal y = p.normal x) ↔ p.Takes v := by
  have hfresh : (decode v : Except Error p.Held) = decodeFresh v := by
    unfold decode
    rw [hnull]
    rfl
  rw [hfresh]
  cases p with
  | unordered => exact Place.unordered_as_read_iff hdates hkeeps hx
  | document => exact iff_of_true ⟨x, Place.document_as_read hkeeps hx, rfl⟩ trivial
  | objectId => exact Place.objectId_as_read_iff hkeeps hx
  | values => exact Place.values_as_read_iff hdates hkeeps hx
  | unordereds => exact Place.list_as_read_iff hdates hkeeps (fun _ _ => Place.unordered_as_read_iff) hx
  | objectIds => exact Place.list_as_read_iff hdates hkeeps (fun _ _ _ => Place.objectId_as_read_iff) hx

/-- An ordered document with a repeated name is assigned to an unordered one as the codec reads it. -/
theorem assigned_as_read_repeated :
    let v : Value := .ordered [("b", .int32 1), ("a", .objectId ⟨[7]⟩), ("b", .null)]
    let x : UnorderedDoc := ⟨[("a", .binary [7]), ("b", .null)]⟩
    v.isNull = false ∧ v.outbound.isInCalendar = true ∧ v.outbound.isUnmarked = true ∧ decodeBson v.outbound = .ok x ∧
      ∃ y, (decode v : Except Error UnorderedDoc) = .ok y ∧ Place.unordered.normal y = Place.unordered.normal x := by
  intro v x
  have hunmarked : v.outbound.isUnmarked = true := by decide
  refine ⟨rfl, rfl, hunmarked, rfl, ?_⟩
  exact (assigned_as_read_iff .unordered rfl rfl (Place.keeps_visited hunmarked) rfl).mpr rfl

/-- Bytes of another subtype, and null in a list, are identifiers to the codec, and are not assigned to one. A
document of the server's is read without order by the codec, and not assigned to an unordered one. -/
theorem server_value_refused :
    (decodeBson (Value.other (.binary 4 [7])).outbound = .ok (⟨[7]⟩ : ObjectId) ∧
        (decode (.other (.binary 4 [7])) : Except Error ObjectId).toOption = none) ∧
      (decodeBson (Value.array [.null]).outbound = .ok [ObjectId.empty] ∧
        (decode (.array [.null]) : Except Error (List ObjectId)).toOption = none) ∧
      (decodeBson (Value.other (.document [("a", .null)])).outbound = .ok (⟨[("a", .null)]⟩ : UnorderedDoc) ∧
        (decode (.other (.document [("a", .null)])) : Except Error UnorderedDoc).toOption = none) :=
  ⟨⟨rfl, rfl⟩, ⟨rfl, rfl⟩, rfl, rfl⟩

end DocClient
