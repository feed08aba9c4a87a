import DocClient.Proofs.Collection.Command

/-! Building indexes and removing documents: what is exchanged and when it succeeds. -/
namespace DocClient

/-- What the reply to the building of an index says. -/
def Reply.indexed (reply : Reply) : Except Error Unit := reply.success >>= checkConcern

/-- What the reply to a removal says: how many documents were removed, unless something is wrong. -/
def Reply.removed (reply : Reply) : Except Error Nat := do
  let doc ← reply.success
  let (n, trouble) ← readReply readWrite doc
  trouble.single.map fun _ => n

/-- A command that removes every document with one of some identifiers from a collection. -/
def Command.RemovesIds (k : Command) (c : Collection) (ids : List Bson) : Prop :=
  k.IsFor "delete" c ∧
    k.body.get? "deletes" = some (.array [.document [
      ("q", .document [("_id", .document [("$in", .array ids)])]), ("limit", .int32 0)]])

theorem Command.RemovesIds.unique {k : Command} {c d : Collection} {ids ids' : List Bson}
    (h : k.RemovesIds c ids) (h' : k.RemovesIds d ids') : ids = ids' := by
  have := h.2.symm.trans h'.2
  simpa using this

namespace Collection

/-- The command that builds an index, if the index can be stated. -/
def indexCommand (c : Collection) (index : Index) : Except Error Command := do
  let model ← index.toModel
  Database.checkWritable [model.withName.toDocument]
  c.writeCommand "createIndexes" [("indexes", .array [.ofDocument model.withName.toDocument])]

theorem ensureIndex_eq_ask (c : Collection) (index : Index) :
    c.ensureIndex index = Call.ask (c.indexCommand index) .long Reply.indexed := by
  unfold ensureIndex indexCommand
  cases index.toModel with
  | error e => rfl
  | ok model =>
    simp only [Call.settled_ok_bind, Database.concernedCommand_eq_ask, Call.ask_bind_settled]
    exact Call.settled_bind_ask _ _ _ _

theorem isFor_of_indexCommand {c : Collection} {index : Index} {k : Command}
    (h : c.indexCommand index = .ok k) : k.IsFor "createIndexes" c := by
  unfold indexCommand at h
  obtain ⟨model, -, hchecked⟩ := bind_eq_ok_iff.mp h
  obtain ⟨-, -, hsent⟩ := bind_eq_ok_iff.mp hchecked
  refine isFor_of_writeCommand ?_ hsent
  change ["writeConcern", "createIndexes", "indexes"].Nodup
  decide

def deleteFields (filter : Document) (multi : Bool) : Fields Bson :=
  [("deletes", .array [.document [
      ("q", .ofDocument filter), ("limit", .int32 (if multi then 0 else 1))]]),
    ("ordered", .boolean true)]

theorem deleteMatches_eq_ask (c : Collection) (filter : Document) (multi : Bool) :
    c.deleteMatches filter multi =
      Call.ask (c.writeCommand "delete" (deleteFields filter multi)) .short Reply.removed := by
  have hread : (fun (r : Nat × WriteTrouble) => Call.settled r.2.single >>= fun _ => (pure r.1 : Call Nat)) =
      fun r => Call.settled (r.2.single.map fun _ => r.1) := by
    funext r
    cases r.2.single <;> rfl
  change (c.write .short (c.body "delete" (deleteFields filter multi)) readWrite >>= fun r =>
    Call.settled r.2.single >>= fun _ => (pure r.1 : Call Nat)) = _
  rw [hread, write_eq_ask, Call.ask_bind_settled]
  refine congrArg _ (funext fun reply => ?_)
  unfold Reply.removed
  cases reply.success <;> rfl

/-- The filter of the documents that have one of some identifiers. -/
def idsFilter (ids : List Oid) : Document :=
  .ofPairs [("_id", .document [("$in", .array (ids.map .objectId))])]

theorem removesIds_of_writeCommand {c : Collection} {ids : List Oid} {k : Command}
    (hk : c.writeCommand "delete" (deleteFields (idsFilter ids) true) = .ok k) :
    k.RemovesIds c (ids.map .objectId) := by
  have hnames : ("writeConcern" :: "delete" :: Fields.names (deleteFields (idsFilter ids) true)).Nodup := by
    change ["writeConcern", "delete", "deletes", "ordered"].Nodup
    decide
  refine ⟨isFor_of_writeCommand hnames hk, ?_⟩
  rw [get?_of_writeCommand hnames hk rfl]
  simp [Bson.written, Bson.writtenItems, Bson.writtenFields, Bson.ofDocument, idsFilter,
    Document.ofPairs, Fields.collect, Bson.writtenItems_eq_map, Function.comp_def]

theorem liftDocument_idsFilter (ids : List Oid) : liftDocument (idsFilter ids) = .ok (idsFilter ids) := by
  have hitems : Value.outboundItems (Bson.inboundOrderedItems (ids.map .objectId)) = ids.map .objectId := by
    induction ids with
    | nil => rfl
    | cons id rest ih =>
      simp [Bson.inboundOrderedItems, Bson.inboundOrdered, Value.outboundItems, Value.outbound, ih]
  change (Value.ofDocumentOrdered (idsFilter ids)).toDocument = _
  simp [Value.ofDocumentOrdered, OrderedDoc.ofDocument, idsFilter, Document.ofPairs, Fields.collect,
    Bson.inboundOrderedFields, Bson.inboundOrdered, Value.toDocument, Value.isNull,
    Value.outboundDocument?, OrderedDoc.toDocument, Value.outboundFields, Value.outbound, hitems]

/-- Removing by identifiers is refused unsent, or sends one command that names them. -/
theorem removeAll_idsFilter_eq_ask (c : Collection) (ids : List Oid) :
    c.removeAll (idsFilter ids) =
      Call.ask (c.writeCommand "delete" (deleteFields (idsFilter ids) true)) .short
        fun reply => reply.removed.map fun n => { removed := n, matched := n } := by
  unfold removeAll
  rw [liftDocument_idsFilter, Call.settled_ok_bind, deleteMatches_eq_ask]
  exact Call.ask_bind_pure _ _ _ _

end Collection
end DocClient
