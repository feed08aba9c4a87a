import DocClient.Conversion
import DocClient.Proofs.Ascending

/-! Trees of server values tested node by node, and documents as values: what is found in one under a name. -/
namespace DocClient

namespace Bson

theorem names_inboundFields (fields : Fields Bson) :
    Fields.names (inboundFields fields) = Fields.names fields := by
  induction fields with
  | nil => rfl
  | cons p rest ih =>
    obtain ⟨k, b⟩ := p
    simp [inboundFields, ih]

theorem names_inboundOrderedFields (fields : Fields Bson) :
    Fields.names (inboundOrderedFields fields) = Fields.names fields := by
  induction fields with
  | nil => rfl
  | cons p rest ih => exact congrArg (p.1 :: ·) ih

theorem inboundItems_eq_map (items : List Bson) : inboundItems items = items.map inbound := by
  induction items with
  | nil => rfl
  | cons b rest ih => rw [inboundItems, List.map_cons, ih]

theorem writtenFields_eq_mapValues (fields : Fields Bson) : writtenFields fields = Fields.mapValues written fields := by
  induction fields with
  | nil => rfl
  | cons p rest ih => exact congrArg _ ih

theorem get?_inboundFields (fields : Fields Bson) (name : String) :
    Fields.get? (inboundFields fields) name = (Fields.get? fields name).map inbound := by
  induction fields with
  | nil => rfl
  | cons p rest ih =>
    obtain ⟨k, b⟩ := p
    by_cases h : k = name <;> simp [inboundFields, h, ih]

/-! ### Every node of a tree -/

mutual

/-- Whether a test holds of every node of a tree. The scope of code is a document of the tree only if `scopes`. -/
def everyNode (scopes : Bool) (test : Bson → Bool) : Bson → Bool
  | .array items => test (.array items) && everyItem scopes test items
  | .document fields => test (.document fields) && everyField scopes test fields
  | .codeWithScope source scope =>
    test (.codeWithScope source scope) && (!scopes || test (.document scope) && everyField scopes test scope)
  | b => test b

def everyItem (scopes : Bool) (test : Bson → Bool) : List Bson → Bool
  | [] => true
  | b :: rest => everyNode scopes test b && everyItem scopes test rest

def everyField (scopes : Bool) (test : Bson → Bool) : List (String × Bson) → Bool
  | [] => true
  | (_, b) :: rest => everyNode scopes test b && everyField scopes test rest

end

section EveryNode

variable {scopes : Bool} {test : Bson → Bool}

theorem test_of_everyNode {b : Bson} (h : b.everyNode scopes test = true) : test b = true := by
  cases b with
  | array => exact (Bool.and_eq_true _ _ ▸ h).1
  | document => exact (Bool.and_eq_true _ _ ▸ h).1
  | codeWithScope => exact (Bool.and_eq_true _ _ ▸ h).1
  | _ => exact h

theorem everyItem_iff {items : List Bson} :
    everyItem scopes test items = true ↔ ∀ b ∈ items, b.everyNode scopes test = true := by
  induction items with
  | nil => exact iff_of_true rfl nofun
  | cons b rest ih => rw [everyItem, Bool.and_eq_true, ih, List.forall_mem_cons]

theorem everyField_iff {fields : Fields Bson} :
    everyField scopes test fields = true ↔ ∀ p ∈ fields, p.2.everyNode scopes test = true := by
  induction fields with
  | nil => exact iff_of_true rfl nofun
  | cons p rest ih => rw [everyField, Bool.and_eq_true, ih, List.forall_mem_cons]

mutual

/-- A test that does not tell a node from what it is read back as does not tell trees from theirs either. -/
theorem everyNode_written (h : ∀ b, test b.written = test b) (b : Bson) :
    b.written.everyNode scopes test = b.everyNode scopes test := by
  cases b with
  | array items => exact congrArg₂ and (h (.array items)) (everyItem_written h items)
  | document fields => exact congrArg₂ and (h (.document fields)) (everyField_written h fields)
  | codeWithScope source scope =>
    have hscope : (test (.document (writtenFields scope)) && everyField scopes test (writtenFields scope)) =
        (test (.document scope) && everyField scopes test scope) :=
      congrArg₂ and (h (.document scope)) (everyField_written h scope)
    exact congrArg₂ and (h (.codeWithScope source scope)) (congrArg (!scopes || ·) hscope)
  | _ => exact h _

theorem everyItem_written (h : ∀ b, test b.written = test b) (items : List Bson) :
    everyItem scopes test (writtenItems items) = everyItem scopes test items := by
  match items with
  | [] => rfl
  | b :: rest => exact congrArg₂ and (everyNode_written h b) (everyItem_written h rest)

theorem everyField_written (h : ∀ b, test b.written = test b) (fields : List (String × Bson)) :
    everyField scopes test (writtenFields fields) = everyField scopes test fields := by
  match fields with
  | [] => rfl
  | (_, b) :: rest => exact congrArg₂ and (everyNode_written h b) (everyField_written h rest)

end

mutual

/-- What holds of the parts of a node wherever it holds of the node, and passes the test, makes every node of a tree
pass. -/
theorem everyNode_of_hereditary {P : Bson → Prop} (harray : ∀ items, P (.array items) → ∀ b ∈ items, P b)
    (hdocument : ∀ fields, P (.document fields) → ∀ p ∈ fields, P p.2) (htest : ∀ b, P b → test b = true) {b : Bson}
    (h : P b) : b.everyNode false test = true := by
  cases b with
  | array items =>
    rw [everyNode, htest _ h, everyItem_of_hereditary harray hdocument htest (harray items h)]
    rfl
  | document fields =>
    rw [everyNode, htest _ h, everyField_of_hereditary harray hdocument htest (hdocument fields h)]
    rfl
  | codeWithScope source scope =>
    rw [everyNode, htest _ h]
    rfl
  | _ => exact htest _ h

theorem everyItem_of_hereditary {P : Bson → Prop} (harray : ∀ items, P (.array items) → ∀ b ∈ items, P b)
    (hdocument : ∀ fields, P (.document fields) → ∀ p ∈ fields, P p.2) (htest : ∀ b, P b → test b = true)
    {items : List Bson} (h : ∀ b ∈ items, P b) : everyItem false test items = true := by
  match items with
  | [] => rfl
  | b :: rest =>
    obtain ⟨hfirst, hrest⟩ := List.forall_mem_cons.mp h
    rw [everyItem, everyNode_of_hereditary harray hdocument htest hfirst,
      everyItem_of_hereditary harray hdocument htest hrest]
    rfl

theorem everyField_of_hereditary {P : Bson → Prop} (harray : ∀ items, P (.array items) → ∀ b ∈ items, P b)
    (hdocument : ∀ fields, P (.document fields) → ∀ p ∈ fields, P p.2) (htest : ∀ b, P b → test b = true)
    {fields : List (String × Bson)} (h : ∀ p ∈ fields, P p.2) : everyField false test fields = true := by
  match fields with
  | [] => rfl
  | (k, b) :: rest =>
    obtain ⟨hfirst, hrest⟩ := List.forall_mem_cons.mp h
    rw [everyField, everyNode_of_hereditary harray hdocument htest hfirst,
      everyField_of_hereditary harray hdocument htest hrest]
    rfl

end

end EveryNode

end Bson

namespace Value

theorem outboundItems_eq_map (vs : List Value) : outboundItems vs = vs.map outbound := by
  induction vs with
  | nil => rfl
  | cons v rest ih => rw [outboundItems, List.map_cons, ih]

theorem outboundFields_eq_mapValues (fields : Fields Value) :
    outboundFields fields = Fields.mapValues outbound fields := by
  induction fields with
  | nil => rfl
  | cons p rest ih => exact congrArg _ ih

theorem names_outboundFields (fields : Fields Value) :
    Fields.names (outboundFields fields) = Fields.names fields := by
  induction fields with
  | nil => rfl
  | cons p rest ih => exact congrArg (p.1 :: ·) ih

/-- The document of a value is what it is sent as. -/
theorem outbound_of_outboundDocument? {v : Value} {doc : Document} (h : v.outboundDocument? = some doc) :
    v.outbound = .ofDocument doc := by
  unfold outboundDocument? at h
  split at h <;> cases h <;> rfl

theorem nodup_of_outboundDocument? {v : Value} {doc : Document} (hv : v.isWellFormed = true)
    (h : v.outboundDocument? = some doc) : doc.names.Nodup := by
  cases v with
  | unordered fields =>
    obtain rfl := Option.some.inj h
    rw [isWellFormed, Bool.and_eq_true] at hv
    have hnames : (Fields.names fields).Nodup := Fields.nodup_of_pairwise (Fields.ascending_iff.mp hv.1)
    rwa [← names_outboundFields] at hnames
  | ordered pairs =>
    obtain rfl := Option.some.inj h
    exact Fields.nodup_collect _
  | other b =>
    cases b with
    | document fields =>
      obtain rfl := Option.some.inj h
      exact Document.nodup_names hv
    | _ => cases h
  | _ => cases h

/-- A document of distinct names holds as a value what it holds, converted. -/
theorem get?_ofDocument {doc : Document} (h : doc.names.Nodup) (name : String) :
    (Value.ofDocument doc).get? name = (doc.get? name).map Bson.inbound := by
  have hnames : (Fields.names (Bson.inboundFields doc.fields)).Nodup := by
    rw [Bson.names_inboundFields]
    exact h
  change Fields.get? (Fields.collectSorted (Bson.inboundFields doc.fields)) name = _
  rw [Fields.get?_collectSorted hnames, Bson.get?_inboundFields]
  rfl

end Value

end DocClient
