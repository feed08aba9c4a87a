import DocClient.Proofs.Session.CommandOrder
import DocClient.Update

/-! Server values that are given as arguments: selectors, identifiers and the stages of pipelines. Main statement:
`Bson.lifted_in_order_iff`, by which documents and lists of documents are taken in their order at every level, and
of other server values those without a document in a list. -/
namespace DocClient

/-! ### Ordered documents are sent in their order -/

namespace Value

mutual

/-- How unordered documents are sent is no matter where there are none. -/
theorem outboundBy_of_isOrdered {v : Value} (h : v.isOrdered = true) (it : Iteration) :
    v.outboundBy it = v.outbound := by
  cases v with
  | array items =>
    rw [isOrdered] at h
    rw [outboundBy, outbound, outboundItemsBy_of_areOrdered h it]
  | unordered fields => simp [isOrdered] at h
  | ordered pairs =>
    rw [isOrdered] at h
    rw [outboundBy, outbound, outboundFieldsBy_of_pairsOrdered h it]
  | _ => rfl

theorem outboundItemsBy_of_areOrdered {items : List Value} (h : areOrdered items = true) (it : Iteration) :
    outboundItemsBy it items = outboundItems items := by
  match items with
  | [] => rfl
  | v :: rest =>
    rw [areOrdered, Bool.and_eq_true] at h
    rw [outboundItemsBy, outboundItems, outboundBy_of_isOrdered h.1 it, outboundItemsBy_of_areOrdered h.2 it]

theorem outboundFieldsBy_of_pairsOrdered {pairs : List (String × Value)} (h : pairsOrdered pairs = true)
    (it : Iteration) : outboundFieldsBy it pairs = outboundFields pairs := by
  match pairs with
  | [] => rfl
  | (k, v) :: rest =>
    rw [pairsOrdered, Bool.and_eq_true] at h
    rw [outboundFieldsBy, outboundFields, outboundBy_of_isOrdered h.1 it, outboundFieldsBy_of_pairsOrdered h.2 it]

end

end Value

namespace Bson

mutual

theorem isOrdered_inboundOrdered (b : Bson) : b.inboundOrdered.isOrdered = true := by
  cases b with
  | array items =>
    rw [inboundOrdered, Value.isOrdered]
    exact areOrdered_inboundOrderedItems items
  | document fields =>
    rw [inboundOrdered, Value.isOrdered]
    exact pairsOrdered_inboundOrderedFields fields
  | binary subtype bytes =>
    rw [inboundOrdered]
    split <;> rfl
  | _ => rfl

theorem areOrdered_inboundOrderedItems (items : List Bson) :
    Value.areOrdered (inboundOrderedItems items) = true := by
  match items with
  | [] => rfl
  | b :: rest =>
    rw [inboundOrderedItems, Value.areOrdered, isOrdered_inboundOrdered b, areOrdered_inboundOrderedItems rest]
    rfl

theorem pairsOrdered_inboundOrderedFields (fields : List (String × Bson)) :
    Value.pairsOrdered (inboundOrderedFields fields) = true := by
  match fields with
  | [] => rfl
  | (k, b) :: rest =>
    rw [inboundOrderedFields, Value.pairsOrdered, isOrdered_inboundOrdered b, pairsOrdered_inboundOrderedFields rest]
    rfl

end

/-- A value that is read in order and sent back is kept by every order of unordered documents. -/
theorem outboundBy_inboundOrdered {b : Bson} (h : b.isWellFormed = true) (it : Iteration) :
    b.inboundOrdered.outboundBy it = b.kept := by
  rw [Value.outboundBy_of_isOrdered b.isOrdered_inboundOrdered it, outbound_inboundOrdered h]

/-! ### Documents in lists -/

mutual

/-- Whether a value is a document, or a list that holds one, however deep in lists. -/
def holdsDocument : Bson → Bool
  | .array items => itemsHoldDocument items
  | .document _ => true
  | _ => false

def itemsHoldDocument : List Bson → Bool
  | [] => false
  | b :: rest => holdsDocument b || itemsHoldDocument rest

end

/-- Whether no document in a value has an order, for it has one field at most. The scope of code is not looked
into. -/
def isOrderless (b : Bson) : Bool := b.everyNode false isOrderlessNode

def areOrderless (items : List Bson) : Bool := everyItem false isOrderlessNode items

theorem readAs_array_iff {read : Bson → Value} {items : List Bson} {vs : List Value} :
    (Bson.array items).ReadAs read (.array vs) ↔ List.Forall₂ (ReadAs read) items vs := by
  constructor
  · intro h
    generalize hv : Value.array vs = v at h
    cases h with
    | leaf hleaf => cases hleaf
    | array hitems =>
      obtain rfl := Value.array.inj hv
      exact hitems
  · exact .array

mutual

/-- The unordered reading keeps the order at every level exactly if there is no document. -/
theorem readAs_inbound_iff (b : Bson) : b.ReadAs inboundOrdered b.inbound ↔ b.holdsDocument = false := by
  cases b with
  | array items =>
    rw [inbound, inboundItems_eq_map, holdsDocument, readAs_array_iff]
    exact forall₂_readAs_inbound_iff items
  | document fields =>
    rw [inbound, holdsDocument]
    exact iff_of_false nofun nofun
  | _ => exact iff_of_true (.leaf rfl) rfl

theorem forall₂_readAs_inbound_iff (items : List Bson) :
    List.Forall₂ (ReadAs inboundOrdered) items (items.map inbound) ↔ itemsHoldDocument items = false := by
  match items with
  | [] => exact iff_of_true .nil rfl
  | b :: rest =>
    rw [List.map_cons, List.forall₂_cons, readAs_inbound_iff b, forall₂_readAs_inbound_iff rest, itemsHoldDocument,
      Bool.or_eq_false_iff]

end

/-- What has no parts is sent as it came, by either reading. -/
theorem passed_of_isLeaf {b : Bson} (h : b.isWellFormed = true) (hleaf : b.isLeaf = true) (it : Iteration) :
    b.passed it = b.kept := by
  have hsame : b.inbound = b.inboundOrdered := by
    cases b with
    | array => cases hleaf
    | document => cases hleaf
    | _ => rfl
  rw [passed, hsame, outboundBy_inboundOrdered h]

theorem passed_array (it : Iteration) (items : List Bson) :
    (Bson.array items).passed it = .array (items.map (passed it)) := by
  have hitems : Value.outboundItemsBy it (inboundItems items) = items.map (passed it) := by
    induction items with
    | nil => rfl
    | cons b rest ih => exact congrArg _ ih
  exact congrArg Bson.array hitems

mutual

/-- A value that was read without order is sent as one that was read in order, whatever the order of unordered
documents is, exactly if no document in it has an order. -/
theorem passed_eq_kept_iff {b : Bson} (h : b.isWellFormed = true) :
    (∀ it, b.passed it = b.kept) ↔ b.isOrderless = true := by
  cases b with
  | array items =>
    rw [isWellFormed] at h
    simp only [passed_array, kept, Bson.array.injEq, isOrderless, everyNode, isOrderlessNode, Bool.true_and]
    exact items_passed_iff h
  | document fields =>
    rw [isWellFormed, Bool.and_eq_true] at h
    rw [isOrderless, everyNode, isOrderlessNode, Bool.and_eq_true, decide_eq_true_eq, ← fields_passed_iff h.2]
    have hpassed : ∀ it, (Bson.document fields).passed it = .document (passedFields it fields) := fun _ => rfl
    simp only [hpassed, kept, Bson.document.injEq]
    constructor
    · intro hsame
      -- What is kept has its names in their order, which two fields do not keep.
      have hlength : fields.length ≤ 1 := by
        apply (order_passed_iff (Fields.distinct_iff.mp h.1)).mp
        intro it
        rw [hsame, keptFields_eq_mapValues, Fields.names_mapValues]
      exact ⟨hlength, fun it => (passedFields_of_length_le_one hlength it).symm.trans (hsame it)⟩
    · rintro ⟨hlength, hsame⟩ it
      exact (passedFields_of_length_le_one hlength it).trans (hsame it)
  | _ => exact iff_of_true (passed_of_isLeaf h rfl) rfl

theorem items_passed_iff {items : List Bson} (h : areWellFormed items = true) :
    (∀ it, items.map (passed it) = keptItems items) ↔ areOrderless items = true := by
  match items with
  | [] => exact iff_of_true (fun _ => rfl) rfl
  | b :: rest =>
    rw [areWellFormed, Bool.and_eq_true] at h
    simp only [List.map_cons, keptItems, List.cons.injEq, forall_and, areOrderless, everyItem, Bool.and_eq_true]
    rw [passed_eq_kept_iff h.1, items_passed_iff h.2]
    rfl

theorem fields_passed_iff {fields : List (String × Bson)} (h : fieldsWellFormed fields = true) :
    (∀ it, Fields.mapValues (passed it) fields = keptFields fields) ↔
      everyField false isOrderlessNode fields = true := by
  match fields with
  | [] => exact iff_of_true (fun _ => rfl) rfl
  | (k, b) :: rest =>
    rw [fieldsWellFormed, Bool.and_eq_true] at h
    have hcons : ∀ it, Fields.mapValues (passed it) ((k, b) :: rest) =
        (k, b.passed it) :: Fields.mapValues (passed it) rest := fun _ => rfl
    simp only [hcons, keptFields, List.cons.injEq, Prod.mk.injEq, true_and, forall_and, everyField,
      Bool.and_eq_true]
    rw [passed_eq_kept_iff h.1, isOrderless, fields_passed_iff h.2]

end

end Bson

/-! ### What arguments are sent as -/

/-- The filter of an identifier, by an order of unordered documents. -/
def idFilterBy {α : Type} [Argument α] (it : Iteration) (id : α) : Except Error Document := do
  let v ← lift id
  .ok (.ofPairs [("_id", v.outboundBy it)])

/-- The stages of an aggregation, by an order of unordered documents. -/
def liftPipelineBy {α : Type} [Argument α] (it : Iteration) (pipeline : α) : Except Error (List Document) := do
  match ← lift pipeline with
  | .array stages => stages.mapM (Value.toDocumentBy it)
  | .null => .ok []
  | stage => do
    let doc ← stage.toDocumentBy it
    .ok [doc]

theorem idFilterBy_ascending {α : Type} [Argument α] (id : α) : idFilterBy .ascending id = idFilter id := by
  unfold idFilterBy idFilter
  simp only [Value.outboundBy_ascending]

theorem liftPipelineBy_ascending {α : Type} [Argument α] (pipeline : α) :
    liftPipelineBy .ascending pipeline = liftPipeline pipeline := by
  unfold liftPipelineBy liftPipeline
  refine congrArg (lift pipeline >>= ·) (funext fun v => ?_)
  cases v with
  | array stages => exact congrArg (stages.mapM ·) (funext Value.toDocumentBy_ascending)
  | null => rfl
  | _ => exact congrArg (· >>= fun doc => Except.ok [doc]) (Value.toDocumentBy_ascending _)

namespace Document

variable {doc : Document} {docs : List Document}

/-- A server document is made from its value as it was, by every order. -/
theorem toDocumentBy_ofDocumentOrdered (h : doc.isWellFormed = true) (it : Iteration) :
    (Value.ofDocumentOrdered doc).toDocumentBy it = .ok doc.kept := by
  have hkept : (Value.ofDocumentOrdered doc).outboundBy it = .ofDocument doc.kept :=
    Bson.outboundBy_inboundOrdered h it
  have hnull : (Value.ofDocumentOrdered doc).isNull = false := rfl
  unfold Value.toDocumentBy
  rw [hkept, hnull]
  rfl

theorem liftPipelineBy_documents (h : ∀ doc ∈ docs, doc.isWellFormed = true) (it : Iteration) :
    liftPipelineBy it docs = .ok (docs.map kept) := by
  change (docs.map Value.ofDocumentOrdered).mapM (Value.toDocumentBy it) = _
  rw [List.mapM_map]
  exact mapM_eq_ok fun doc hdoc => toDocumentBy_ofDocumentOrdered (h doc hdoc) it

/-- The stages in a list that is given as one server value pass through unordered documents. -/
theorem liftPipelineBy_array (docs : List Document) (it : Iteration) :
    liftPipelineBy it (Bson.array (docs.map .ofDocument)) =
      .ok (docs.map fun doc => ⟨Bson.passedFields it doc.fields⟩) := by
  change (Bson.inboundItems (docs.map .ofDocument)).mapM (Value.toDocumentBy it) = _
  rw [Bson.inboundItems_eq_map, List.map_map, List.mapM_map]
  exact mapM_eq_ok fun doc _ => rfl

end Document

namespace Bson

/-- A server value is lifted with its order at every level exactly if it is no list with a document in it. -/
theorem exists_lift_readAs_iff (b : Bson) : (∃ v, lift b = .ok v ∧ b.ReadAs inboundOrdered v) ↔
    ∀ items, b = .array items → itemsHoldDocument items = false := by
  have hlift : lift b = .ok (.ofBson b) := rfl
  simp only [hlift, Except.ok.injEq, exists_eq_left']
  cases b with
  | array items =>
    have hread : Value.ofBson (.array items) = (Bson.array items).inbound := rfl
    rw [hread, readAs_inbound_iff, holdsDocument]
    simp only [Bson.array.injEq, forall_eq']
  | document fields => exact iff_of_true (readAs_of_descends descends_inboundOrdered _) nofun
  | _ => exact iff_of_true (.leaf rfl) nofun

/-- An identifier is sent with its order at every level exactly if it is no list with an ordered document in it. -/
theorem idFilterBy_eq_kept_iff {b : Bson} (h : b.isWellFormed = true) :
    (∀ it, idFilterBy it b = .ok ⟨[("_id", b.kept)]⟩) ↔ ∀ items, b = .array items → areOrderless items = true := by
  have hfilter : ∀ it, idFilterBy it b = .ok ⟨[("_id", (Value.ofBson b).outboundBy it)]⟩ := fun _ => rfl
  simp only [hfilter, Except.ok.injEq, Document.mk.injEq, List.cons.injEq, Prod.mk.injEq, true_and, and_true]
  cases b with
  | array items =>
    change (∀ it, (Bson.array items).passed it = _) ↔ _
    rw [passed_eq_kept_iff h]
    simp only [Bson.array.injEq, forall_eq']
    rfl
  | document fields => exact iff_of_true (outboundBy_inboundOrdered h) nofun
  | _ => exact iff_of_true (passed_of_isLeaf h rfl) nofun

/-- The stages in a list that is given as one server value are sent in their order exactly if they have none. -/
theorem liftPipelineBy_eq_kept_iff {docs : List Document} (h : ∀ doc ∈ docs, doc.isWellFormed = true) :
    (∀ it, liftPipelineBy it (Bson.array (docs.map .ofDocument)) = .ok (docs.map Document.kept)) ↔
      ∀ doc ∈ docs, (Bson.ofDocument doc).isOrderless = true := by
  simp only [Document.liftPipelineBy_array, Except.ok.injEq, List.map_inj_left]
  constructor
  · intro hsame doc hdoc
    apply (passed_eq_kept_iff (h doc hdoc)).mp
    exact fun it => congrArg Bson.ofDocument (hsame it doc hdoc)
  · intro horderless it doc hdoc
    have hpassed := (passed_eq_kept_iff (h doc hdoc)).mpr (horderless doc hdoc) it
    exact congrArg Document.mk (Bson.document.inj hpassed)

/-- Documents, lists of documents and server values that are documents are lifted with their order at every level,
and sent with it as selectors, identifiers and stages, whatever the order of unordered documents is. Another server
value is lifted so exactly if it is no list with a document in it, and sent so exactly if no document in the list
has an order. -/
theorem lifted_in_order_iff {doc : Document} {docs : List Document} {b : Bson} (hdoc : doc.isWellFormed = true)
    (hdocs : ∀ doc ∈ docs, doc.isWellFormed = true) (hb : b.isWellFormed = true) :
    ((∃ v, lift doc = .ok v ∧ (Bson.ofDocument doc).ReadAs inboundOrdered v) ∧
      (∃ v, lift docs = .ok v ∧ (Bson.array (docs.map .ofDocument)).ReadAs inboundOrdered v) ∧
      ∀ it, liftDocumentBy it doc = .ok doc.kept ∧ liftDocumentBy it (Bson.ofDocument doc) = .ok doc.kept ∧
        idFilterBy it doc = .ok ⟨[("_id", .ofDocument doc.kept)]⟩ ∧
        liftPipelineBy it docs = .ok (docs.map Document.kept)) ∧
      ((∃ v, lift b = .ok v ∧ b.ReadAs inboundOrdered v) ↔
        ∀ items, b = .array items → itemsHoldDocument items = false) ∧
      ((∀ it, idFilterBy it b = .ok ⟨[("_id", b.kept)]⟩) ↔ ∀ items, b = .array items → areOrderless items = true) ∧
      ((∀ it, liftPipelineBy it (Bson.array (docs.map .ofDocument)) = .ok (docs.map Document.kept)) ↔
        ∀ doc ∈ docs, (Bson.ofDocument doc).isOrderless = true) := by
  refine ⟨⟨?document, ?documents, ?sent⟩, b.exists_lift_readAs_iff, idFilterBy_eq_kept_iff hb,
    liftPipelineBy_eq_kept_iff hdocs⟩
  case document => exact ⟨_, rfl, readAs_of_descends descends_inboundOrdered (.ofDocument doc)⟩
  case documents =>
    have hread := readAs_of_descends descends_inboundOrdered (.array (docs.map .ofDocument))
    rw [descends_inboundOrdered.array, List.map_map] at hread
    exact ⟨_, rfl, hread⟩
  case sent =>
    intro it
    have hid : (Value.ofDocumentOrdered doc).outboundBy it = .ofDocument doc.kept := outboundBy_inboundOrdered hdoc it
    refine ⟨Document.toDocumentBy_ofDocumentOrdered hdoc it, Document.toDocumentBy_ofDocumentOrdered hdoc it, ?_,
      Document.liftPipelineBy_documents hdocs it⟩
    exact congrArg (fun id => Except.ok (Document.ofPairs [("_id", id)])) hid

/-- A document of two fields, a list of it, and one value that is such a list: only the last is out of order. -/
theorem lifted_in_order_stage :
    let doc : Document := ⟨[("$sort", .document [("z", .int32 1), ("a", .int32 (-1))])]⟩
    doc.isWellFormed = true ∧
      (∃ v, lift [doc] = .ok v ∧ (Bson.array [.ofDocument doc]).ReadAs inboundOrdered v) ∧
      (∀ it, liftPipelineBy it [doc] = .ok [doc]) ∧
      (∃ v, lift (Bson.array [.int32 1]) = .ok v ∧ (Bson.array [.int32 1]).ReadAs inboundOrdered v) ∧
      ¬ ∀ it, liftPipelineBy it (Bson.array [.ofDocument doc]) = .ok [doc] := by
  intro doc
  have hdoc : doc.isWellFormed = true := by decide
  have hkept : [doc].map Document.kept = [doc] := by decide
  obtain ⟨⟨-, hlist, hsent⟩, hlift, -, hstages⟩ :=
    lifted_in_order_iff (b := .array [.int32 1]) hdoc (List.forall_mem_singleton.mpr hdoc) rfl
  rw [hkept] at hsent hstages
  refine ⟨hdoc, hlist, fun it => (hsent it).2.2.2, hlift.mpr ?_, ?_⟩
  · rintro items ⟨⟩
    rfl
  · exact fun h => absurd (hstages.mp h doc (List.mem_singleton_self doc)) (by decide)

/-- A document in a list is lifted without its order. -/
theorem listed_document_unordered :
    let b : Bson := .array [.document [("z", .int32 1), ("a", .int32 2)]]
    let v : Value := .array [.unordered [("a", .int32 2), ("z", .int32 1)]]
    lift b = .ok v ∧ ¬ b.ReadAs inboundOrdered v := by
  refine ⟨rfl, ?_⟩
  intro h
  obtain ⟨hitem, -⟩ := List.forall₂_cons.mp (readAs_array_iff.mp h)
  cases hitem

end Bson

end DocClient
