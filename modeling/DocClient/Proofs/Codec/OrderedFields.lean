import DocClient.Example.Records
import DocClient.Proofs.Codec.Marked
import DocClient.Proofs.Codec.Records
import DocClient.Proofs.OrderedForm

/-! Ordered documents in fields of records that are declared to be stored as documents. Records go through
unordered documents on their way out and in, which are sent in an order of their own. Main statement:
`order_kept_iff`, by which the order of the field is kept whatever that order is exactly if there is no order. -/
namespace DocClient

/-! ### Unordered documents in whatever order -/

/-- An order in which the fields of unordered documents are sent. -/
structure Iteration where
  arrange : Fields Bson → Fields Bson
  perm : ∀ fields, (arrange fields).Perm fields

namespace Iteration

/-- The order in which unordered documents are held. -/
def ascending : Iteration := ⟨id, fun _ => .rfl⟩

def descending : Iteration := ⟨List.reverse, List.reverse_perm⟩

instance : Inhabited Iteration := ⟨ascending⟩

end Iteration

namespace Value

mutual

/-- The server's form of a value when unordered documents are sent in an order. -/
def outboundBy (it : Iteration) : Value → Bson
  | .array items => .array (outboundItemsBy it items)
  | .unordered fields => .document (it.arrange (outboundFieldsBy it fields))
  | .ordered pairs => .document (Fields.collect (outboundFieldsBy it pairs))
  | v => v.outbound

def outboundItemsBy (it : Iteration) : List Value → List Bson
  | [] => []
  | v :: rest => outboundBy it v :: outboundItemsBy it rest

def outboundFieldsBy (it : Iteration) : List (String × Value) → List (String × Bson)
  | [] => []
  | (k, v) :: rest => (k, outboundBy it v) :: outboundFieldsBy it rest

end

mutual

/-- In the order in which they are held, unordered documents are sent as they are. -/
theorem outboundBy_ascending (v : Value) : v.outboundBy .ascending = v.outbound := by
  cases v with
  | array items => rw [outboundBy, outbound, outboundItemsBy_ascending items]
  | unordered fields => exact congrArg Bson.document (outboundFieldsBy_ascending fields)
  | ordered pairs => rw [outboundBy, outbound, outboundFieldsBy_ascending pairs]
  | _ => rfl

theorem outboundItemsBy_ascending (items : List Value) :
    outboundItemsBy .ascending items = outboundItems items := by
  match items with
  | [] => rfl
  | v :: rest => rw [outboundItemsBy, outboundItems, outboundBy_ascending v, outboundItemsBy_ascending rest]

theorem outboundFieldsBy_ascending (fields : List (String × Value)) :
    outboundFieldsBy .ascending fields = outboundFields fields := by
  match fields with
  | [] => rfl
  | (k, v) :: rest =>
    rw [outboundFieldsBy, outboundFields, outboundBy_ascending v, outboundFieldsBy_ascending rest]

end

theorem names_outboundFieldsBy (it : Iteration) (fields : Fields Value) :
    Fields.names (outboundFieldsBy it fields) = Fields.names fields := by
  induction fields with
  | nil => rfl
  | cons p rest ih => exact congrArg (p.1 :: ·) ih

theorem get?_outboundFieldsBy (it : Iteration) (fields : Fields Value) (name : String) :
    Fields.get? (outboundFieldsBy it fields) name = (Fields.get? fields name).map (outboundBy it) := by
  induction fields with
  | nil => rfl
  | cons p rest ih =>
    obtain ⟨k, v⟩ := p
    by_cases h : k = name <;> simp [outboundFieldsBy, h, ih]

/-- The document that a value is sent as, by an order of unordered documents. -/
def toDocumentBy (it : Iteration) (v : Value) : Except Error Document :=
  if v.isNull then .ok .empty
  else
    match v.outboundBy it with
    | .document fields => .ok ⟨fields⟩
    | _ => .error (.invalidArgument (.notDocument v))

theorem toDocumentBy_ascending (v : Value) : v.toDocumentBy .ascending = v.toDocument := by
  unfold toDocumentBy
  rw [outboundBy_ascending]
  cases v with
  | objectId id =>
    unfold toDocument Value.outbound
    cases id.toOid? <;> rfl
  | other b => cases b <;> rfl
  | _ => rfl

end Value

/-- The document of an argument, by an order of unordered documents. -/
def liftDocumentBy {α : Type} [Argument α] (it : Iteration) (a : α) : Except Error Document := do
  let v ← lift a
  v.toDocumentBy it

/-- What a value is decoded to, by an order of unordered documents. Queries and iterators decode the value of every
document that they give. -/
def decodeBy {α : Type} [Destination α] (it : Iteration) (v : Value) : Except Error α :=
  if v.isNull then .error .notFound
  else
    match Destination.assign (α := α) with
    | some f => f v
    | none => (decodeBson (v.outboundBy it).written).mapError .decode

theorem liftDocumentBy_ascending {α : Type} [Argument α] (a : α) : liftDocumentBy .ascending a = liftDocument a := by
  unfold liftDocumentBy liftDocument
  cases lift a with
  | error e => rfl
  | ok v => exact v.toDocumentBy_ascending

theorem decodeBy_ascending {α : Type} [Destination α] (v : Value) :
    (decodeBy .ascending v : Except Error α) = decode v := by
  unfold decodeBy decode decodeFresh readBack
  cases Destination.assign (α := α) with
  | some f => rfl
  | none => rw [Value.outboundBy_ascending]

/-! ### Documents that pass through unordered ones -/

namespace Bson

/-- Only documents are written out as documents. -/
theorem exists_of_written {b : Bson} {fields : Fields Bson} (h : b.written = .document fields) :
    ∃ out, b = .document out ∧ writtenFields out = fields := by
  cases b with
  | document out => exact ⟨out, rfl, Bson.document.inj h⟩
  | _ => cases h

/-- A server value that was read without order and is sent again. -/
def passed (it : Iteration) (b : Bson) : Bson := b.inbound.outboundBy it

theorem exists_of_passed {it : Iteration} {b : Bson} {fields : Fields Bson} (h : b.passed it = .document fields) :
    ∃ out, b = .document out := by
  cases b with
  | document out => exact ⟨out, rfl⟩
  | objectId id =>
    have hobject : (Value.objectId (.ofOid id)).outbound = .document fields := h
    rw [Value.outbound, ObjectId.toOid?_ofOid] at hobject
    cases hobject
  | binary subtype bytes =>
    unfold passed inbound at h
    split at h <;> cases h
  | _ => cases h

section Passing

variable {fields : Fields Bson}

/-- The fields of a document that is sent again. -/
def passedFields (it : Iteration) (fields : Fields Bson) : Fields Bson :=
  it.arrange (Value.outboundFieldsBy it (Fields.collectSorted (inboundFields fields)))

theorem names_collectSorted_inboundFields (h : (Fields.names fields).Nodup) :
    (Fields.names (Fields.collectSorted (inboundFields fields))).Perm (Fields.names fields) := by
  rw [collectSorted_inboundFields (Fields.distinct_iff.mpr h)]
  have hperm : (Fields.names (Fields.byName (inboundFields fields))).Perm (Fields.names (inboundFields fields)) :=
    (List.mergeSort_perm _ _).map Prod.fst
  rwa [names_inboundFields] at hperm

theorem names_passedFields (h : (Fields.names fields).Nodup) (it : Iteration) :
    (Fields.names (passedFields it fields)).Perm (Fields.names fields) := by
  refine ((it.perm _).map Prod.fst).trans ?_
  have hnames := Value.names_outboundFieldsBy it (Fields.collectSorted (inboundFields fields))
  unfold Fields.names at hnames ⊢
  rw [hnames]
  exact names_collectSorted_inboundFields h

theorem get?_passedFields (h : (Fields.names fields).Nodup) (it : Iteration) (name : String) :
    Fields.get? (passedFields it fields) name = (Fields.get? fields name).map (passed it) := by
  have hnames : (Fields.names (passedFields it fields)).Nodup := (names_passedFields h it).symm.nodup h
  have hinbound : (Fields.names (inboundFields fields)).Nodup := by rwa [names_inboundFields]
  rw [Fields.get?_eq_of_perm hnames (it.perm _), Value.get?_outboundFieldsBy, Fields.get?_collectSorted hinbound,
    get?_inboundFields, Option.map_map]
  rfl

/-- Two orders turn the names of a document round. -/
theorem names_passedFields_descending (fields : Fields Bson) :
    Fields.names (passedFields .descending fields) = (Fields.names (passedFields .ascending fields)).reverse := by
  have hnames : ∀ it, (Value.outboundFieldsBy it (Fields.collectSorted (inboundFields fields))).map Prod.fst =
      Fields.names (Fields.collectSorted (inboundFields fields)) :=
    fun it => Value.names_outboundFieldsBy it _
  unfold passedFields Iteration.descending Iteration.ascending Fields.names
  dsimp only [id]
  rw [List.map_reverse, hnames, hnames]

theorem length_le_one_of_reverse {α : Type} {as : List α} (h : as.Nodup) (hreverse : as.reverse = as) :
    as.length ≤ 1 := by
  match as with
  | [] => exact Nat.zero_le 1
  | [a] => exact le_refl 1
  | a :: b :: rest =>
    have hlast : (b :: rest).getLast? = some a := by
      rw [← List.getLast?_cons_cons (a := a), ← List.head?_reverse, hreverse]
      rfl
    exact absurd (List.mem_of_getLast? hlast) (List.nodup_cons.mp h).1

/-- The order of a document is kept by every order of unordered ones exactly if it has one field at most. -/
theorem order_passed_iff (h : (Fields.names fields).Nodup) :
    (∀ it, Fields.names (passedFields it fields) = Fields.names fields) ↔ fields.length ≤ 1 := by
  constructor
  · intro hkept
    have hreverse := names_passedFields_descending fields
    rw [hkept, hkept] at hreverse
    simpa [Fields.names] using length_le_one_of_reverse h hreverse.symm
  · intro hlength it
    have hperm := names_passedFields h it
    rcases Nat.le_one_iff_eq_zero_or_eq_one.mp hlength with hnone | hone
    · obtain rfl := List.length_eq_zero_iff.mp hnone
      exact List.perm_nil.mp hperm
    · obtain ⟨p, rfl⟩ := List.length_eq_one_iff.mp hone
      exact List.perm_singleton.mp hperm

theorem passedFields_of_length_le_one (h : fields.length ≤ 1) (it : Iteration) :
    passedFields it fields = Fields.mapValues (passed it) fields := by
  match fields with
  | [] => exact List.perm_nil.mp (it.perm _)
  | [(k, b)] => exact List.perm_singleton.mp (it.perm _)

end Passing

end Bson

/-! ### Records -/

/-- A type of records that hold an ordered document in a field which is declared to be stored as a document. -/
structure HoldsOrdered (ρ : Type) [Argument ρ] [Destination ρ] (name : String) (held : ρ → OrderedDoc) : Prop where
  coded : Argument.recognised (α := ρ) = none
  decoded : Destination.assign (α := ρ) = none
  writes : ∀ {r : ρ} {b : Bson}, encode r = .ok b → ∃ fields, b = .document fields ∧
    (Fields.names fields).Nodup ∧ Fields.get? fields name = some (OrderedField.write (held r))
  reads : ∀ {fields : Fields Bson} {b : Bson} {r : ρ}, decodeBson (.document fields) = .ok r →
    (Fields.names fields).Nodup → Fields.get? fields name = some b → OrderedField.read b = .ok (held r)

/-- Whether the field of an ordered document is written as a document, and not as the node whose extended form the
document is. -/
def OrderedDoc.isStored (d : OrderedDoc) : Bool := (OrderedField.write d).asDocument?.isSome

namespace RecordField

/-- A field that is declared to be stored as a document. -/
def ordered {ρ : Type} (name : String) (set : OrderedDoc → ρ → ρ) (required : Bool) : RecordField ρ :=
  ⟨name, fun b r => (OrderedField.read b).map (set · r), required⟩

end RecordField

/-! ### The order of the field -/

section Order

variable {ρ : Type} [Argument ρ] [Destination ρ] {name : String} {held : ρ → OrderedDoc} {r : ρ}

/-- By an order of unordered documents, a record is sent with some names in a document under a name. -/
def Stores (it : Iteration) (name : String) (r : ρ) (names : List String) : Prop :=
  ∃ doc fields, liftDocumentBy it r = .ok doc ∧ doc.get? name = some (.document fields) ∧ Fields.names fields = names

/-- By an order of unordered documents, a document is read as a record that holds an ordered document of some
names. -/
def Fetches (it : Iteration) (held : ρ → OrderedDoc) (doc : Document) (names : List String) : Prop :=
  ∃ r : ρ, decodeBy it (Value.ofDocument doc) = .ok r ∧ Fields.names (held r).pairs = names

/-- The field of a record is written as a document of the names that the record holds, or as no document. -/
theorem names_of_written_orderedField {d : OrderedDoc} (h : (Fields.names d.pairs).Nodup) {fields : Fields Bson}
    (hwritten : (OrderedField.write d).written = .document fields) : Fields.names fields = Fields.names d.pairs := by
  have houtbound : (Fields.names (Value.outboundFields d.pairs)).Nodup := by rwa [Value.names_outboundFields]
  obtain ⟨out, hout, rfl⟩ := Bson.exists_of_written hwritten
  rw [Bson.names_writtenFields, ← Bson.eq_of_ofFields hout, Bson.names_serializedFields]
  unfold OrderedDoc.toDocument Document.ofPairs
  rw [Fields.collect_of_nodup houtbound, Value.names_outboundFields]

omit [Destination ρ] in
/-- The document of a record is what the codec writes, passed through an unordered document. -/
theorem liftDocumentBy_of_encode (hcoded : Argument.recognised (α := ρ) = none) {fields : Fields Bson}
    (hr : encode r = .ok (.document fields)) (it : Iteration) :
    liftDocumentBy it r = .ok ⟨Bson.passedFields it (Bson.writtenFields fields)⟩ := by
  have hlift : lift r = .ok (Bson.document fields).written.inbound := by
    unfold lift
    rw [hcoded, hr]
  unfold liftDocumentBy
  rw [hlift]
  rfl

/-- A record is sent with the document of its field passed through an unordered one, if its field is written as a
document. -/
theorem stores_iff (h : HoldsOrdered ρ name held) {b : Bson} (hb : encode r = .ok b) (it : Iteration)
    (names : List String) : Stores it name r names ↔ ∃ fields,
      (OrderedField.write (held r)).written = .document fields ∧ Fields.names (Bson.passedFields it fields) = names := by
  obtain ⟨all, rfl, hnodup, hget⟩ := h.writes hb
  have hlift := liftDocumentBy_of_encode h.coded hb it
  have hwritten : (Fields.names (Bson.writtenFields all)).Nodup := by rwa [Bson.names_writtenFields]
  have hsent : Fields.get? (Bson.passedFields it (Bson.writtenFields all)) name =
      some ((OrderedField.write (held r)).written.passed it) := by
    rw [Bson.get?_passedFields hwritten, Bson.get?_writtenFields, hget, Option.map_some, Option.map_some]
  constructor
  · rintro ⟨doc, sub, hdoc, hsub, rfl⟩
    obtain rfl := Except.ok.inj (hlift.symm.trans hdoc)
    have hpassed := Option.some.inj (hsent.symm.trans hsub)
    obtain ⟨fields, hfields⟩ := Bson.exists_of_passed hpassed
    rw [hfields] at hpassed
    exact ⟨fields, hfields, by rw [← Bson.document.inj hpassed]; rfl⟩
  · rintro ⟨fields, hfields, rfl⟩
    rw [hfields] at hsent
    exact ⟨_, _, hlift, hsent, rfl⟩

/-- A document is read with the one in a field passed through an unordered one. -/
theorem names_of_decodeBy (h : HoldsOrdered ρ name held) {doc : Document} (hdoc : doc.names.Nodup)
    {fields : Fields Bson} (hget : doc.get? name = some (.document fields)) {it : Iteration}
    (hread : decodeBy it (Value.ofDocument doc) = .ok r) :
    Fields.names (held r).pairs = Fields.names (Bson.passedFields it fields) := by
  have hdecode : decodeBson (.document (Bson.writtenFields (Bson.passedFields it doc.fields))) = .ok r := by
    have hmapped : (decodeBson (.document (Bson.writtenFields (Bson.passedFields it doc.fields)))).mapError
        Error.decode = .ok r := by
      unfold decodeBy at hread
      rw [h.decoded] at hread
      exact hread
    cases hdone : decodeBson (α := ρ) (.document (Bson.writtenFields (Bson.passedFields it doc.fields))) with
    | error cause => simp [hdone, Except.mapError] at hmapped
    | ok r' => simpa [hdone, Except.mapError] using hmapped
  have hpassed := Bson.names_passedFields hdoc it
  have hwritten : (Fields.names (Bson.writtenFields (Bson.passedFields it doc.fields))).Nodup := by
    rw [Bson.names_writtenFields]
    exact hpassed.symm.nodup hdoc
  have hfield : Fields.get? (Bson.writtenFields (Bson.passedFields it doc.fields)) name =
      some (.document (Bson.writtenFields (Bson.passedFields it fields))) := by
    have hdocument : Fields.get? doc.fields name = some (.document fields) := hget
    rw [Bson.get?_writtenFields, Bson.get?_passedFields hdoc, hdocument]
    rfl
  obtain ⟨out, hout, hheld⟩ := Bson.exists_of_read_orderedField (h.reads hdecode hwritten hfield)
  rw [hheld]
  exact (Bson.names_inboundOrderedFields out).trans (hout.names.trans (Bson.names_writtenFields _))

theorem fetches_iff (h : HoldsOrdered ρ name held) {doc : Document} (hdoc : doc.names.Nodup)
    {fields : Fields Bson} (hget : doc.get? name = some (.document fields)) {it : Iteration}
    (hread : ∃ r : ρ, decodeBy it (Value.ofDocument doc) = .ok r) (names : List String) :
    Fetches it held doc names ↔ Fields.names (Bson.passedFields it fields) = names := by
  constructor
  · rintro ⟨r, hr, rfl⟩
    exact (names_of_decodeBy h hdoc hget hr).symm
  · rintro rfl
    obtain ⟨r, hr⟩ := hread
    exact ⟨r, hr, names_of_decodeBy h hdoc hget hr⟩

theorem isStored_iff {d : OrderedDoc} :
    d.isStored = true ↔ ∃ fields, (OrderedField.write d).written = .document fields := by
  unfold OrderedDoc.isStored
  cases OrderedField.write d with
  | document out => exact iff_of_true rfl ⟨_, rfl⟩
  | _ => exact iff_of_false nofun fun ⟨_, h⟩ => nomatch h

/-- The names of the field are kept if it is written as a document, but their order is kept by every order of
unordered documents only if there is one name at most; and so are the names of a stored document in the record that
is read from it. -/
theorem order_kept_iff (h : HoldsOrdered ρ name held) {b : Bson} (hb : encode r = .ok b)
    (hheld : (Fields.names (held r).pairs).Nodup) {doc : Document} (hdoc : doc.names.Nodup) {fields : Fields Bson}
    (hget : doc.get? name = some (.document fields)) (hfields : (Fields.names fields).Nodup)
    (hread : ∀ it, ∃ r : ρ, decodeBy it (Value.ofDocument doc) = .ok r) :
    ((∀ it, ∃ names, Stores it name r names ∧ names.Perm (Fields.names (held r).pairs)) ↔
        (held r).isStored = true) ∧
      ((∀ it, Stores it name r (Fields.names (held r).pairs)) ↔
        (held r).isStored = true ∧ (held r).pairs.length ≤ 1) ∧
      (∀ it, ∃ names, Fetches it held doc names ∧ names.Perm (Fields.names fields)) ∧
      ((∀ it, Fetches it held doc (Fields.names fields)) ↔ fields.length ≤ 1) := by
  have hlength {fields : Fields Bson} (hnames : Fields.names fields = Fields.names (held r).pairs) :
      fields.length = (held r).pairs.length := by
    simpa [Fields.names] using congrArg List.length hnames
  simp only [stores_iff h hb, fetches_iff h hdoc hget (hread _), isStored_iff]
  refine ⟨⟨?stored, ?names⟩, ⟨?ordered, ?order⟩, fun it => ⟨_, rfl, Bson.names_passedFields hfields it⟩,
    Bson.order_passed_iff hfields⟩
  case stored =>
    intro hstores
    obtain ⟨-, ⟨written, hwritten, -⟩, -⟩ := hstores .ascending
    exact ⟨written, hwritten⟩
  case names =>
    rintro ⟨written, hwritten⟩ it
    have hnames := names_of_written_orderedField hheld hwritten
    refine ⟨_, ⟨written, hwritten, rfl⟩, ?_⟩
    rw [← hnames] at hheld ⊢
    exact Bson.names_passedFields hheld it
  case ordered =>
    intro hstores
    obtain ⟨written, hwritten, -⟩ := hstores .ascending
    have hnames := names_of_written_orderedField hheld hwritten
    refine ⟨⟨written, hwritten⟩, ?_⟩
    rw [← hlength hnames]
    rw [← hnames] at hheld hstores
    apply (Bson.order_passed_iff hheld).mp
    intro it
    obtain ⟨same, hsame, horder⟩ := hstores it
    obtain rfl := Bson.document.inj (hwritten.symm.trans hsame)
    exact horder
  case order =>
    rintro ⟨⟨written, hwritten⟩, hshort⟩ it
    have hnames := names_of_written_orderedField hheld hwritten
    rw [← hnames] at hheld ⊢
    exact ⟨written, hwritten, (Bson.order_passed_iff hheld).mpr (hlength hnames ▸ hshort) it⟩

end Order

namespace Example

/-- The other fields of a report leave its order of fields alone. -/
theorem Report.frame_sort : ∀ f ∈ Report.fields, f.name ≠ "sort" →
    ∀ b r r', f.set b r = .ok r' → r'.sort = r.sort := by
  intro f hf hne
  simp only [Report.fields, List.mem_cons, List.not_mem_nil, or_false] at hf
  rcases hf with rfl | rfl | rfl
  · exact absurd rfl hne
  · exact RecordField.frame_optional fun _ _ => rfl
  · exact RecordField.frame_optional fun _ _ => rfl

theorem Report.holdsOrdered_sort : HoldsOrdered Report "sort" Report.sort := by
  constructor
  case coded => rfl
  case decoded => rfl
  case writes =>
    intro r b hb
    change (encode r.pairs >>= fun pairs => encodeRecord
      [("sort", OrderedField.write r.sort), ("pairs", pairs), ("extra", r.extra.outbound.serialized)]) = .ok b at hb
    obtain ⟨pairs, -, hrecord⟩ := bind_eq_ok_iff.mp hb
    have hnames : (Fields.names [("sort", OrderedField.write r.sort), ("pairs", pairs),
        ("extra", r.extra.outbound.serialized)]).Nodup :=
      show ["sort", "pairs", "extra"].Nodup by decide
    refine ⟨_, (Except.ok.inj hrecord).symm.trans (congrArg Bson.ofFields (Fields.collect_of_nodup hnames)), hnames,
      rfl⟩
  case reads =>
    intro fields b r hread hnodup hget
    exact reads_of_decodeRecord rfl (fun _ _ => rfl) frame_sort hread hnodup hget

/-- A report whose order of fields is not that of their names. -/
def Report.backwards : Report := ⟨⟨[("z", .int32 1), ("a", .int32 (-1))]⟩, ⟨[]⟩, .null⟩

/-- A stored document with such an order. -/
def storedBackwards : Document := ⟨[("sort", .document [("z", .int32 1), ("a", .int32 (-1))])]⟩

theorem exists_decodeBy_storedBackwards (it : Iteration) :
    ∃ r : Report, decodeBy it (Value.ofDocument storedBackwards) = .ok r := by
  let passed := Bson.passedFields it [("z", .int32 1), ("a", .int32 (-1))]
  let sort := Bson.writtenFields passed
  have hunmarked : (Bson.document sort).isUnmarked = true := by
    have hperm : passed.Perm [("a", .int32 (-1)), ("z", .int32 1)] := it.perm _
    have hpassed : (Bson.document passed).isUnmarked = true := by
      rw [Bson.isUnmarked_document_iff]
      intro p hp
      exact Bson.isUnmarked_document_iff.mp (by decide) p (hperm.subset hp)
    exact (Bson.isUnmarked_written (.document passed)).trans hpassed
  have hread : OrderedField.read (.document sort) = .ok (.ofDocument ⟨sort⟩) := by
    unfold OrderedField.read
    rw [Bson.visited_of_isUnmarked hunmarked]
    rfl
  have hstored : Bson.passedFields it storedBackwards.fields =
      [("sort", .document (Bson.passedFields it [("z", .int32 1), ("a", .int32 (-1))]))] :=
    List.perm_singleton.mp (it.perm _)
  have hdecode : (decodeBy it (Value.ofDocument storedBackwards) : Except Error Report) =
      (decodeRecord Report.default Report.fields
        (.document (Bson.writtenFields (Bson.passedFields it storedBackwards.fields)))).mapError .decode := rfl
  obtain ⟨r, hr⟩ : ∃ r, decodeRecord Report.default Report.fields (.document [("sort", .document sort)]) = .ok r := by
    refine exists_decodeRecord ?_ (show ∀ f ∈ Report.fields, f.required = true → f.name ∈ ["sort"] by decide)
    simp only [List.forall_mem_singleton]
    rintro f hfind r
    obtain rfl := Option.some.inj hfind
    exact ⟨_, map_eq_ok_iff.mpr ⟨_, hread, rfl⟩⟩
  rw [hdecode, hstored]
  exact ⟨r, mapError_eq_ok_iff.mpr hr⟩

/-- Two names in an order of their own are enough to lose it, both ways. -/
theorem Report.order_not_kept :
    (¬ ∀ it, Stores it "sort" backwards ["z", "a"]) ∧ ¬ ∀ it, Fetches it Report.sort storedBackwards ["z", "a"] := by
  have hdoc : storedBackwards.names.Nodup := by decide
  obtain ⟨-, hstores, -, hfetches⟩ := order_kept_iff holdsOrdered_sort (r := backwards) rfl (by decide) hdoc rfl
    (by decide) exists_decodeBy_storedBackwards
  exact ⟨mt hstores.mp (by decide), mt hfetches.mp (by decide)⟩

/-- An unordered document in ascending order turns the order of the field round on both ways. -/
theorem Report.order_lost :
    (∃ doc, liftDocument backwards = .ok doc ∧
      doc.get? "sort" = some (.document [("a", .int32 (-1)), ("z", .int32 1)])) ∧
    ∃ r : Report, decode (Value.ofDocument storedBackwards) = .ok r ∧
      r.sort.pairs = [("a", .int32 (-1)), ("z", .int32 1)] := by
  refine ⟨⟨_, rfl, ?_⟩, ⟨_, rfl, ?_⟩⟩
  · decide
  · decide

end Example

end DocClient
