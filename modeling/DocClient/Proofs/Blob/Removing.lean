import DocClient.Blob.Store
import DocClient.Proofs.Conversion
import DocClient.Proofs.Collection.Upkeep
import DocClient.Proofs.Query.Listing
import DocClient.Proofs.Query.Search

/-! The removal of the files of a name: their identifiers are listed, and then two commands remove what has one of
them, the descriptions first and the chunks afterwards. Main statement: `Store.removing_of_plays`, which takes a
removal apart into these commands. -/
namespace DocClient

/-- A command that lists the identifiers of the documents that a filter selects. -/
structure Command.ListsIds (k : Command) (c : Collection) (filter : Document) : Prop where
  isFor : k.IsFor "find" c
  filter : k.body.get? "filter" = some (.ofDocument filter)
  projection : k.body.get? "projection" = some (.document [("_id", .int32 1)])
  whole : k.body.get? "limit" = none ∧ k.body.get? "skip" = none

theorem Command.ListsIds.not_isFor_delete {k : Command} {c d : Collection} {filter : Document}
    (h : k.ListsIds c filter) : ¬ k.IsFor "delete" d :=
  fun hdelete => absurd (h.isFor.unique hdelete).1 (by decide)

/-- A command that removes every document of a collection in which a field has one of some values. -/
structure Command.RemovesIn (k : Command) (c : Collection) (field : String) (values : List Bson) : Prop where
  isFor : k.IsFor "delete" c
  deletes : k.body.get? "deletes" = some (.array [.document [
    ("q", .document [(field, .document [("$in", .array values)])]), ("limit", .int32 0)]])

theorem Command.RemovesIn.unique {k : Command} {c d : Collection} {field other : String} {values values' : List Bson}
    (h : k.RemovesIn c field values) (h' : k.RemovesIn d other values') : field = other ∧ values = values' := by
  simpa using h.deletes.symm.trans h'.deletes

/-- A value of a filter as it is sent, after it was read and converted. -/
def Bson.resent (b : Bson) : Bson := b.inboundOrdered.outbound.written

/-- An identifier as it is sent after it came in a document. -/
def Bson.echoed (b : Bson) : Bson := b.inbound.outbound.resent

/-- Values are taken as they are. -/
theorem decodeEachInto_value (vs previous : List Value) : decodeEachInto vs previous = (.ok (), vs) := by
  have hdecoded : decodeEach vs = .ok vs := by
    induction vs with
    | nil => rfl
    | cons v rest ih =>
      change (decodeEach rest >>= fun vs => Except.ok (v :: vs)) = _
      rw [ih]
      rfl
  unfold decodeEachInto
  rw [hdecoded]
  rfl

namespace Blob.Store

/-! ### Removing what has one of some values -/

section Deleting

variable {c : Collection} {field : String} {values : List Bson}

def inFilter (field : String) (values : List Bson) : Document :=
  ⟨[(field, .document [("$in", .array (values.map fun b => b.inboundOrdered.outbound))])]⟩

theorem liftDocument_inFilter (field : String) (values : List Bson) :
    liftDocument (Document.ofPairs [(field, .document [("$in", .array values)])]) = .ok (inFilter field values) := by
  have hitems : Value.outboundItems (Bson.inboundOrderedItems values) =
      values.map fun b => b.inboundOrdered.outbound := by
    induction values with
    | nil => rfl
    | cons b rest ih => simp [Bson.inboundOrderedItems, Value.outboundItems, ih]
  rw [liftDocument_single]
  simp [inFilter, Bson.inboundOrdered, Bson.inboundOrderedFields, Value.outbound, Value.outboundFields, Fields.collect,
    hitems]

theorem removeIn_eq_ask (c : Collection) (field : String) (values : List Bson) :
    removeIn c field values =
      Call.ask (c.writeCommand "delete" (Collection.deleteFields (inFilter field values) true)) .short
        fun reply => reply.removed.map fun _ => () := by
  unfold removeIn Collection.removeAll
  rw [liftDocument_inFilter, Call.settled_ok_bind, Collection.deleteMatches_eq_ask]
  refine (congrArg (· >>= fun _ => pure ()) (Call.ask_bind_pure _ _ _ _)).trans
    ((Call.ask_bind_pure _ _ _ _).trans (congrArg _ (funext fun reply => ?_)))
  cases reply.removed <;> rfl

theorem removesIn_of_writeCommand {k : Command}
    (hk : c.writeCommand "delete" (Collection.deleteFields (inFilter field values) true) = .ok k) :
    k.RemovesIn c field (values.map Bson.resent) := by
  have hnames : ("writeConcern" :: "delete" ::
      Fields.names (Collection.deleteFields (inFilter field values) true)).Nodup := by
    change ["writeConcern", "delete", "deletes", "ordered"].Nodup
    decide
  refine ⟨Collection.isFor_of_writeCommand hnames hk, ?_⟩
  rw [Collection.get?_of_writeCommand hnames hk rfl]
  simp [Bson.written, Bson.writtenItems, Bson.writtenFields, Bson.ofDocument, inFilter,
    Bson.writtenItems_eq_map, Function.comp_def, Bson.resent]

end Deleting

/-! ### Listing the identifiers -/

section Listing

variable {s : Store} {name : String}

/-- The search for the identifiers of the files of a name. -/
def idsQuery (s : Store) (name : String) : Query :=
  (s.files.find (named name)).select (Document.ofPairs [("_id", .int32 1)])

theorem idsQuery_eq (s : Store) (name : String) :
    s.idsQuery name = { s.files.search (named name) none with projection := some ⟨[("_id", .int32 1)]⟩ } := by
  have hfilter : liftDocument (named name) = .ok (named name) := liftDocument_single "filename" (.string name)
  unfold idsQuery Collection.find
  rw [hfilter]
  rfl

theorem listsIds_of_listCommand {k : Command} (hk : (s.idsQuery name).listCommand = .ok k) :
    k.ListsIds s.files (named name) := by
  rw [idsQuery_eq] at hk
  have hsent : s.files.database.sent s.files.database.readPreference ⟨[("find", .string s.files.name),
      ("filter", .ofDocument (named name)), ("projection", .document [("_id", .int32 1)])]⟩ = .ok k := hk
  obtain rfl := Database.eq_of_sent hsent
  exact ⟨⟨rfl, rfl⟩, rfl, rfl, rfl, rfl⟩

/-- What a removal does with the identifiers that were found. -/
def removeFound (s : Store) (ids : List Bson) : Call Unit :=
  match ids with
  | [] => return ()
  | ids => do
    removeIn s.files "_id" ids
    removeIn s.chunks "files_id" ids

/-- A removal that picks the identifiers from the documents that were found. -/
def removePicked (s : Store) (name : String) (pick : Value → Option Bson) : Call Unit := do
  let (listed, found) ← ExceptT.lift ((s.idsQuery name).all ([] : List Value))
  Call.settled listed
  s.removeFound (found.filterMap pick)

theorem remove_eq_removePicked (s : Store) (name : String) :
    s.remove name = s.removePicked name fun doc => (doc.get? "_id").map Value.outbound := rfl

/-- The identifiers in the documents that a listing brought, as they are put into the commands. -/
def idsOf (docs : List Document) : List Bson :=
  (docs.map Value.ofDocument).filterMap fun doc => (doc.get? "_id").map Value.outbound

end Listing

/-! ### The course of a removal -/

/-- What follows a listing of identifiers: two commands, as long as nothing fails. -/
inductive Clears (s : Store) (ids : List Bson) : List Exchange → Except Error Unit → Prop
  | unsent (e : Error) : Clears s ids [] (.error e)
  | undescribed {x : Exchange} {e : Error} (asks : x.command.RemovesIn s.files "_id" ids)
      (failed : x.reply.removed = .error e) : Clears s ids [x] (.error e)
  | halfway {x : Exchange} {n : Nat} (asks : x.command.RemovesIn s.files "_id" ids)
      (done : x.reply.removed = .ok n) (e : Error) : Clears s ids [x] (.error e)
  | both {x y : Exchange} {n : Nat} (asks : x.command.RemovesIn s.files "_id" ids)
      (done : x.reply.removed = .ok n) (asks_chunks : y.command.RemovesIn s.chunks "files_id" ids) :
      Clears s ids [x, y] (y.reply.removed.map fun _ => ())

/-- A removal by its exchanges: the identifiers are not all to be had, or there are none, or they are listed in
batches and what has one of them is removed. -/
inductive Removing (s : Store) (name : String) : List Exchange → Except Error Unit → Prop
  | unsent (e : Error) : Removing s name [] (.error e)
  | unlisted {x : Exchange} {more : List Exchange} (asks : x.command.ListsIds s.files (named name))
      (asks_more : ∀ y ∈ more, y.command.AsksForMore) (e : Error) : Removing s name (x :: more) (.error e)
  | nothing {x : Exchange} {more : List Exchange} {docs : List Document}
      (asks : x.command.ListsIds s.files (named name)) (asks_more : ∀ y ∈ more, y.command.AsksForMore)
      (opens : x.reply.Opens (more.map Exchange.reply) docs) (empty : idsOf docs = []) :
      Removing s name (x :: more) (.ok ())
  | listed {x : Exchange} {more last : List Exchange} {docs : List Document} {outcome : Except Error Unit}
      (asks : x.command.ListsIds s.files (named name)) (asks_more : ∀ y ∈ more, y.command.AsksForMore)
      (opens : x.reply.Opens (more.map Exchange.reply) docs) (nonempty : idsOf docs ≠ [])
      (clears : Clears s ((idsOf docs).map Bson.resent) last outcome) :
      Removing s name (x :: (more ++ last)) outcome

section Removing

variable {s : Store} {name : String} {log : List Exchange} {outcome : Except Error Unit}

theorem clears_of_plays {id : Bson} {ids : List Bson}
    (h : (s.removeFound (id :: ids)).run.Plays log outcome) :
    Clears s ((id :: ids).map Bson.resent) log outcome := by
  simp only [removeFound, removeIn_eq_ask] at h
  obtain ⟨e, -, rfl, rfl⟩ | ⟨k, reply, rest, hk, rfl, hrest⟩ := Call.plays_ask_bind.mp h
  · exact .unsent e
  have hasks := removesIn_of_writeCommand hk
  cases hremoved : reply.removed with
  | error e =>
    rw [hremoved] at hrest
    obtain ⟨rfl, rfl⟩ := Program.plays_done.mp hrest
    exact .undescribed hasks hremoved
  | ok n =>
    rw [hremoved] at hrest
    obtain ⟨e, -, rfl, rfl⟩ | ⟨k', reply', hk', rfl, rfl⟩ := Call.plays_ask.mp hrest
    · exact .halfway hasks hremoved e
    · exact .both (y := ⟨k', .short, reply'⟩) hasks hremoved (removesIn_of_writeCommand hk')

/-- A removal goes on with the identifiers of all files of the name, unless these are not to be had. -/
theorem plays_removePicked {pick : Value → Option Bson} (h : (s.removePicked name pick).run.Plays log outcome) :
    (∃ e, outcome = .error e ∧ (log = [] ∨ ∃ x more, log = x :: more ∧ x.command.ListsIds s.files (named name) ∧
      ∀ y ∈ more, y.command.AsksForMore)) ∨
    ∃ x more last docs, log = x :: (more ++ last) ∧ x.command.ListsIds s.files (named name) ∧
      (∀ y ∈ more, y.command.AsksForMore) ∧ x.reply.Opens (more.map Exchange.reply) docs ∧
      (s.removeFound ((docs.map Value.ofDocument).filterMap pick)).run.Plays last outcome := by
  unfold removePicked at h
  rw [Call.run_lift_bind] at h
  obtain ⟨⟨listed, found⟩, listing, last, rfl, hlisting, hlast⟩ := Program.plays_bind.mp h
  obtain ⟨e, rfl, rfl⟩ | ⟨k, reply, more, hk, rfl, hmore, hwhole⟩ := Query.plays_all (q := s.idsQuery name) hlisting
  · obtain ⟨rfl, rfl⟩ := Program.plays_done.mp hlast
    exact .inl ⟨e, rfl, .inl rfl⟩
  have hlists : k.ListsIds s.files (named name) := listsIds_of_listCommand hk
  cases listed with
  | error e =>
    obtain ⟨rfl, rfl⟩ := Program.plays_done.mp hlast
    rw [List.append_nil]
    exact .inl ⟨e, rfl, .inr ⟨_, _, rfl, hlists, hmore⟩⟩
  | ok u =>
    obtain ⟨docs, hopens, hdecoded⟩ := hwhole rfl
    obtain rfl : docs.map Value.ofDocument = found := by
      rw [decodeEachInto_value] at hdecoded
      exact congrArg Prod.snd hdecoded
    exact .inr ⟨_, more, last, docs, rfl, hlists, hmore, hopens, hlast⟩

theorem removing_of_plays (h : (s.remove name).run.Plays log outcome) : Removing s name log outcome := by
  rw [remove_eq_removePicked] at h
  obtain ⟨e, rfl, rfl | ⟨x, more, rfl, hlists, hmore⟩⟩ | ⟨x, more, last, docs, rfl, hlists, hmore, hopens, hlast⟩ :=
    plays_removePicked h
  · exact .unsent e
  · exact .unlisted hlists hmore e
  change (s.removeFound (idsOf docs)).run.Plays last outcome at hlast
  cases hids : idsOf docs with
  | nil =>
    rw [hids] at hlast
    obtain ⟨rfl, rfl⟩ := Program.plays_done.mp hlast
    rw [List.append_nil]
    exact .nothing hlists hmore hopens hids
  | cons id ids =>
    refine .listed hlists hmore hopens (by simp [hids]) ?_
    rw [hids] at hlast ⊢
    exact clears_of_plays hlast

end Removing

end Blob.Store
end DocClient
