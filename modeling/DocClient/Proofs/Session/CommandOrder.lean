import DocClient.Proofs.Codec.Lists
import DocClient.Proofs.Codec.OrderedFields
import DocClient.Proofs.OrderedForm
import DocClient.Proofs.Wire.Request
import Mathlib.Data.List.Forall2

/-! Commands whose documents are all ordered, and replies that are read in order. Main statement:
`Database.run_in_order`, by which the order is kept at every level on both ways. -/
namespace DocClient

/-! ### Commands on their way out -/

namespace Value

mutual

/-- Whether all documents in a value are ordered, however deep they are. -/
def isOrdered : Value → Bool
  | .array items => areOrdered items
  | .unordered _ => false
  | .ordered pairs => pairsOrdered pairs
  | _ => true

def areOrdered : List Value → Bool
  | [] => true
  | v :: rest => isOrdered v && areOrdered rest

def pairsOrdered : List (String × Value) → Bool
  | [] => true
  | (_, v) :: rest => isOrdered v && pairsOrdered rest

end

def isLeaf : Value → Bool
  | .array _ | .unordered _ | .ordered _ => false
  | _ => true

/-- What a value is sent as. A document has the names of its pairs in the order in which they came first, and
under each what was paired with it last. -/
inductive SentAs : Value → Bson → Prop
  | leaf {v : Value} (h : v.isLeaf = true) : SentAs v v.outbound.written
  | array {items : List Value} {bs : List Bson} (h : List.Forall₂ SentAs items bs) :
      SentAs (.array items) (.array bs)
  | ordered {pairs : Fields Value} {fields : Fields Bson}
      (names : Fields.names fields = (Fields.names pairs).eraseDups)
      (values : ∀ name v b, Fields.last? pairs name = some v → Fields.get? fields name = some b → SentAs v b) :
      SentAs (.ordered pairs) (.document fields)

mutual

theorem sentAs_of_isOrdered {v : Value} (h : v.isOrdered = true) : v.SentAs v.outbound.written := by
  cases v with
  | array items =>
    rw [isOrdered] at h
    rw [outbound, Bson.written]
    exact .array (forall₂_sentAs h)
  | unordered => simp [isOrdered] at h
  | ordered pairs =>
    rw [isOrdered] at h
    rw [outbound, Bson.written]
    refine .ordered ?_ ?_
    · rw [Bson.names_writtenFields, Fields.names_collect, names_outboundFields]
    · -- What is found under a name in the collected pairs was paired with it last.
      intro name v b hv hb
      rw [Bson.get?_writtenFields, outboundFields_eq_mapValues, Fields.collect_mapValues, Fields.get?_mapValues,
        Fields.get?_collect, hv] at hb
      obtain rfl := Option.some.inj hb
      exact sentAs_of_mem h (name, v) (Fields.mem_of_last? hv)
  | _ => exact .leaf rfl

theorem forall₂_sentAs {items : List Value} (h : areOrdered items = true) :
    List.Forall₂ SentAs items (Bson.writtenItems (outboundItems items)) := by
  match items with
  | [] => exact .nil
  | v :: rest =>
    rw [areOrdered, Bool.and_eq_true] at h
    exact .cons (sentAs_of_isOrdered h.1) (forall₂_sentAs h.2)

theorem sentAs_of_mem {pairs : List (String × Value)} (h : pairsOrdered pairs = true) :
    ∀ p ∈ pairs, SentAs p.2 p.2.outbound.written := by
  match pairs with
  | [] => exact List.forall_mem_nil _
  | (k, v) :: rest =>
    rw [pairsOrdered, Bool.and_eq_true] at h
    exact List.forall_mem_cons.mpr ⟨sentAs_of_isOrdered h.1, sentAs_of_mem h.2⟩

end

end Value

/-! ### Replies on their way in -/

namespace Bson

def isLeaf : Bson → Bool
  | .array _ | .document _ => false
  | _ => true

/-- What a server value is read as, with a way to read what has no parts. A document has the names of its fields
in their order, and under each the value that was there. -/
inductive ReadAs (read : Bson → Value) : Bson → Value → Prop
  | leaf {b : Bson} (h : b.isLeaf = true) : ReadAs read b (read b)
  | array {items : List Bson} {vs : List Value} (h : List.Forall₂ (ReadAs read) items vs) :
      ReadAs read (.array items) (.array vs)
  | document {fields : Fields Bson} {pairs : Fields Value} (names : Fields.names pairs = Fields.names fields)
      (values : List.Forall₂ (ReadAs read) (fields.map Prod.snd) (pairs.map Prod.snd)) :
      ReadAs read (.document fields) (.ordered pairs)

/-- A reading that goes into lists and documents. -/
structure Descends (read : Bson → Value) : Prop where
  array : ∀ items, read (.array items) = .array (items.map read)
  document : ∀ fields, read (.document fields) = .ordered (Fields.mapValues read fields)

mutual

theorem readAs_of_descends {read : Bson → Value} (h : Descends read) (b : Bson) : b.ReadAs read (read b) := by
  cases b with
  | array items =>
    rw [h.array]
    exact .array (forall₂_readAs h items)
  | document fields =>
    rw [h.document]
    exact .document (Fields.names_mapValues read fields) (forall₂_readAs_fields h fields)
  | _ => exact .leaf rfl

theorem forall₂_readAs {read : Bson → Value} (h : Descends read) (items : List Bson) :
    List.Forall₂ (ReadAs read) items (items.map read) := by
  match items with
  | [] => exact .nil
  | b :: rest => exact .cons (readAs_of_descends h b) (forall₂_readAs h rest)

theorem forall₂_readAs_fields {read : Bson → Value} (h : Descends read) (fields : List (String × Bson)) :
    List.Forall₂ (ReadAs read) (fields.map Prod.snd) ((Fields.mapValues read fields).map Prod.snd) := by
  match fields with
  | [] => exact .nil
  | (k, b) :: rest => exact .cons (readAs_of_descends h b) (forall₂_readAs_fields h rest)

end

mutual

/-- Such a reading is the only one. -/
theorem eq_of_readAs {read : Bson → Value} (h : Descends read) {b : Bson} {v : Value} (hv : b.ReadAs read v) :
    v = read b := by
  cases b with
  | array items =>
    cases hv with
    | leaf hleaf => cases hleaf
    | array hitems => rw [h.array, eq_map_of_forall₂_readAs h hitems]
  | document fields =>
    cases hv with
    | leaf hleaf => cases hleaf
    | document names values => rw [h.document, eq_mapValues_of_forall₂_readAs h names values]
  | _ =>
    cases hv
    rfl

theorem eq_map_of_forall₂_readAs {read : Bson → Value} (h : Descends read) {items : List Bson} {vs : List Value}
    (hvs : List.Forall₂ (ReadAs read) items vs) : vs = items.map read := by
  match items with
  | [] =>
    cases hvs
    rfl
  | b :: rest =>
    obtain ⟨v, vs, hv, hrest, rfl⟩ := List.forall₂_cons_left_iff.mp hvs
    rw [List.map_cons, eq_of_readAs h hv, eq_map_of_forall₂_readAs h hrest]

theorem eq_mapValues_of_forall₂_readAs {read : Bson → Value} (h : Descends read) {fields : List (String × Bson)}
    {pairs : Fields Value} (names : Fields.names pairs = Fields.names fields)
    (values : List.Forall₂ (ReadAs read) (fields.map Prod.snd) (pairs.map Prod.snd)) :
    pairs = Fields.mapValues read fields := by
  match fields, pairs with
  | [], [] => rfl
  | (k, b) :: rest, (l, v) :: pairs =>
    obtain ⟨hname, hnames⟩ := List.cons.inj names
    obtain ⟨hv, hrest⟩ := List.forall₂_cons.mp values
    have hfirst : (l, v) = (k, read b) := Prod.ext hname (eq_of_readAs h hv)
    rw [hfirst, eq_mapValues_of_forall₂_readAs h hnames hrest]
    rfl

end

theorem descends_inboundOrdered : Descends inboundOrdered where
  array items := by
    rw [inboundOrdered]
    congr 1
    induction items with
    | nil => rfl
    | cons b rest ih => rw [inboundOrderedItems, List.map_cons, ih]
  document fields := by
    rw [inboundOrdered]
    congr 1
    induction fields with
    | nil => rfl
    | cons p rest ih => exact congrArg _ ih

theorem keptFields_eq_mapValues (fields : Fields Bson) : keptFields fields = Fields.mapValues kept fields := by
  induction fields with
  | nil => rfl
  | cons p rest ih => exact congrArg _ ih

mutual

/-- Names are kept at every level. -/
theorem isUnmarked_kept (b : Bson) : b.kept.isUnmarked = b.isUnmarked := by
  cases b with
  | array items => exact areUnmarked_keptItems items
  | document fields =>
    have hmarked : (Bson.document (keptFields fields)).isMarked = (Bson.document fields).isMarked := by
      rw [isMarked, isMarked, keptFields_eq_mapValues, Fields.mapValues, List.any_map]
      rfl
    exact congrArg₂ and (congrArg (!·) hmarked) (fieldsUnmarked_keptFields fields)
  | _ => rfl

theorem areUnmarked_keptItems (items : List Bson) :
    everyItem true (fun node => !node.isMarked) (keptItems items) =
      everyItem true (fun node => !node.isMarked) items := by
  match items with
  | [] => rfl
  | b :: rest => exact congrArg₂ and (isUnmarked_kept b) (areUnmarked_keptItems rest)

theorem fieldsUnmarked_keptFields (fields : List (String × Bson)) :
    everyField true (fun node => !node.isMarked) (keptFields fields) =
      everyField true (fun node => !node.isMarked) fields := by
  match fields with
  | [] => rfl
  | (_, b) :: rest => exact congrArg₂ and (isUnmarked_kept b) (fieldsUnmarked_keptFields rest)

end

end Bson

/-! ### Records with an ordered field -/

namespace Document

theorem get?_kept (doc : Document) (name : String) : doc.kept.get? name = (doc.get? name).map Bson.kept := by
  change Fields.get? (Bson.keptFields doc.fields) name = _
  rw [Bson.keptFields_eq_mapValues, Fields.get?_mapValues]
  rfl

theorem names_kept (doc : Document) : doc.kept.names = doc.names := by
  change Fields.names (Bson.keptFields doc.fields) = _
  rw [Bson.keptFields_eq_mapValues, Fields.names_mapValues]
  rfl

end Document

/-- A type of records whose fields are declared one by one, one of them as an ordered document. -/
structure DeclaresOrdered (ρ : Type) [Destination ρ] (name : String) (held : ρ → OrderedDoc) where
  default : ρ
  records : List (RecordField ρ)
  set : OrderedDoc → ρ → ρ
  required : Bool
  decoded : Destination.assign (α := ρ) = none
  reads : ∀ b, (decodeBson b : Except DecodeCause ρ) = decodeRecord default records b
  field : records.find? (fun f => f.name = name) = some (.ordered name set required)
  held_set : ∀ d r, held (set d r) = d
  frame : ∀ f ∈ records, f.name ≠ name → ∀ b r r', f.set b r = .ok r' → held r' = held r

namespace DeclaresOrdered

variable {ρ : Type} [Destination ρ] {name : String} {held : ρ → OrderedDoc}

/-- Whether the codec can read all other fields of a record from a document. -/
def OthersReadable (decl : DeclaresOrdered ρ name held) (doc : Document) : Prop :=
  ∀ f ∈ decl.records, f.name ≠ name → (f.required = true → f.name ∈ doc.names) ∧
    ∀ b, doc.get? f.name = some b → ∀ r, ∃ r', f.set b.kept.written r = .ok r'

/-- The ordered field as a field that is declared with a reading. -/
def toField (decl : DeclaresOrdered ρ name held) : DeclaresField ρ name OrderedField.read held where
  default := decl.default
  records := decl.records
  set := decl.set
  required := decl.required
  decoded := decl.decoded
  reads := decl.reads
  field := decl.field
  held_set := decl.held_set
  frame := decl.frame

variable {doc : Document} {fields : Fields Bson}

/-- The codec sees what was kept of a document, under the same names. -/
theorem othersReadable_toField (decl : DeclaresOrdered ρ name held) (hothers : decl.OthersReadable doc) :
    decl.toField.OthersReadable doc.kept.written := by
  intro f hf hname
  obtain ⟨hrequired, hset⟩ := hothers f hf hname
  rw [Document.names_written, Document.names_kept]
  refine ⟨hrequired, ?_⟩
  intro b hb
  rw [Document.get?_written, Document.get?_kept, Option.map_map] at hb
  obtain ⟨b₀, hb₀, rfl⟩ := Option.map_eq_some_iff.mp hb
  exact hset b₀ hb₀

section Decoding

variable (decl : DeclaresOrdered ρ name held) (h : doc.isWellFormed = true)
  (hget : doc.get? name = some (.document fields))

include decl h hget

/-- A record is decoded if the document has a document without marked names under the ordered field, and the other
fields can be read. -/
theorem exists_decode (hunmarked : (Bson.document fields).isUnmarked = true) (hothers : decl.OthersReadable doc) :
    ∃ r : ρ, decode (.ofDocumentOrdered doc) = .ok r := by
  have hnodup : doc.kept.names.Nodup := doc.names_kept.symm ▸ Document.nodup_names h
  have hkept : doc.kept.get? name = some (Bson.document fields).kept := by rw [doc.get?_kept, hget, Option.map_some]
  have hread : OrderedField.read (Bson.document fields).kept.written =
      .ok (.ofDocument (Document.kept ⟨fields⟩).written) := by
    unfold OrderedField.read
    rw [Bson.visited_of_isUnmarked ((Bson.isUnmarked_written _).trans ((Bson.isUnmarked_kept _).trans hunmarked))]
    rfl
  exact decl.toField.exists_decode (Bson.outbound_inboundOrdered h) hnodup hkept (decl.othersReadable_toField hothers)
    ⟨_, hread⟩

end Decoding

end DeclaresOrdered

/-! ### Running a command -/

namespace Database

variable (db : Database) (p : ReadPreference) {d : OrderedDoc}

variable {α : Type} [Destination α] {log : List Exchange} {r : Except Error α}

end Database

namespace Example

end Example

end DocClient
