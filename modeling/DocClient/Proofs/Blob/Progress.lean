import DocClient.Proofs.Blob.Attempt
import DocClient.Proofs.Blob.History

/-! Closes that can send their commands: which commands those are, and that the replies alone decide what
comes of them. Main statements: `exists_plays_close` and `exists_plays_close_again`. -/
namespace DocClient

/-- What the reply to the insertion of one document says. -/
def Reply.insertedOne (reply : Reply) : Except Error Unit :=
  reply.success >>= readReply readWrite >>= fun (_, trouble) => trouble.insert

theorem Reply.insertedOne_of_inserted {reply : Reply} {n : Nat} (h : reply.inserted = .ok n) :
    reply.insertedOne = .ok () := by
  unfold insertedOne
  rw [inserted_eq_ok_iff.mp h]
  rfl

namespace Collection

/-- The index of the chunks of a file, as the server takes it. -/
def chunkIndexModel : IndexModel :=
  ⟨⟨[("files_id", .int32 1), ("n", .int32 1)]⟩, { unique := some true, background := some false, sparse := some false }⟩

theorem indexCommand_chunkIndex (c : Collection) : c.indexCommand Blob.File.chunkIndex =
    c.writeCommand "createIndexes" [("indexes", .array [.ofDocument chunkIndexModel.withName.toDocument])] := by
  have hmodel : Blob.File.chunkIndex.toModel = .ok chunkIndexModel := by rfl
  have hcheck : Database.checkWritable [chunkIndexModel.withName.toDocument] = .ok () := by rfl
  unfold indexCommand
  simp only [hmodel, hcheck, bind, Except.bind]

variable {c : Collection} {extra : Fields Bson} (hextra : c.database.concernFields = .ok extra)
include hextra

private theorem exists_insertCommand {docs : List Document} (hdocs : ∀ doc ∈ docs, doc.isWritable = true) :
    ∃ k, c.writeCommand "insert" (insertFields docs) = .ok k := by
  have hnames : ("writeConcern" :: "insert" :: Fields.names (insertFields docs)).Nodup := by
    change ["writeConcern", "insert", "documents", "ordered"].Nodup
    decide
  refine exists_writeCommand hnames hextra (by decide) ?_
  have hdocuments : Bson.isTerminable "documents" = true := by decide
  have hordered : Bson.isTerminable "ordered" = true := by decide
  simp only [insertFields, Bson.fieldsWritable, Bson.isWritable, Bson.areWritable_eq_all, List.all_map,
    hdocuments, hordered, Bool.and_true, Bool.true_and, List.all_eq_true]
  simpa using hdocs

private theorem exists_deleteCommand (ids : List Oid) :
    ∃ k, c.writeCommand "delete" (deleteFields (idsFilter ids) true) = .ok k := by
  have hnames : ("writeConcern" :: "delete" :: Fields.names (deleteFields (idsFilter ids) true)).Nodup := by
    change ["writeConcern", "delete", "deletes", "ordered"].Nodup
    decide
  refine exists_writeCommand hnames hextra (by decide) ?_
  have hids : Bson.areWritable (ids.map .objectId) = true := by
    rw [Bson.areWritable_eq_all, List.all_eq_true]
    intro b hb
    obtain ⟨id, -, rfl⟩ := List.mem_map.mp hb
    rfl
  have hterm : ∀ name ∈ ["deletes", "ordered", "q", "limit", "_id", "$in"],
      Bson.isTerminable name = true := by decide
  simp only [List.forall_mem_cons] at hterm
  simp [deleteFields, Bson.fieldsWritable, Bson.isWritable, Bson.areWritable, idsFilter,
    Document.ofPairs, Fields.collect, Bson.ofDocument, hterm, hids]

theorem exists_plays_insertOne {doc : Document} (hdoc : doc.isWritable = true) (limit : Deadline) :
    ∃ k : Command, k.Inserts c [doc.written] ∧
      ∀ reply, (c.insertOne limit doc).run.Plays [⟨k, limit, reply⟩] reply.insertedOne := by
  obtain ⟨k, hk⟩ := exists_insertCommand hextra (List.forall_mem_singleton.mpr hdoc)
  refine ⟨k, inserts_of_writeCommand hk, ?_⟩
  intro reply
  rw [insertOne_eq_ask, Call.plays_ask]
  refine .inr ⟨k, reply, ?_, rfl, rfl⟩
  have hcheck : Database.checkWritable [doc] = .ok () := by simp [Database.checkWritable, hdoc]
  rw [hcheck]
  exact hk

/-- The insertion of many documents sends a command and ends with it if the reply counts them all. -/
theorem exists_plays_insertMany {docs : List Document} (hdocs : ∀ doc ∈ docs, doc.isWritable = true)
    (hrounds : 0 < c.database.rounds) (limit : Deadline) :
    ∃ k : Command, k.Inserts c (docs.map Document.written) ∧
      ∀ reply n, reply.inserted = .ok n → docs.length ≤ n →
        (c.insertMany limit docs).run.Plays [⟨k, limit, reply⟩] (.ok ()) := by
  obtain ⟨k, hk⟩ := exists_insertCommand hextra hdocs
  refine ⟨k, inserts_of_writeCommand hk, ?_⟩
  intro reply n hreply hn
  obtain ⟨rounds, hrounds⟩ := Nat.exists_eq_succ_of_ne_zero (Nat.ne_of_gt hrounds)
  have hcheck : Database.checkWritable docs = .ok () := by simpa [Database.checkWritable] using hdocs
  unfold insertMany
  rw [hcheck, Call.settled_ok_bind, hrounds]
  unfold insertWithin insertBody
  rw [write_eq_ask]
  have hread := Reply.inserted_eq_ok_iff.mp hreply
  refine Call.plays_bind.mpr (.inr ⟨(n, ⟨none, none⟩), _, [], (List.append_nil _).symm, ?_, ?_⟩)
  · rw [Call.plays_ask]
    exact .inr ⟨k, reply, hk, rfl, hread.symm⟩
  · have hdone : WriteTrouble.many ⟨none, none⟩ = .ok () := rfl
    dsimp only
    rw [hdone, Call.settled_ok_bind, if_pos hn]
    exact .done _

theorem exists_plays_ensureIndex :
    ∃ k : Command, k.IsFor "createIndexes" c ∧
      ∀ reply, (c.ensureIndex Blob.File.chunkIndex).run.Plays [⟨k, .long, reply⟩] reply.indexed := by
  have hnames : ["writeConcern", "createIndexes", "indexes"].Nodup := by decide
  have hfields :
      Bson.fieldsWritable [("indexes", .array [.ofDocument chunkIndexModel.withName.toDocument])] = true := by
    rfl
  obtain ⟨k, hk⟩ := exists_writeCommand hnames hextra (by decide) hfields
  have hcommand : c.indexCommand Blob.File.chunkIndex = .ok k := c.indexCommand_chunkIndex.trans hk
  refine ⟨k, isFor_of_indexCommand hcommand, ?_⟩
  intro reply
  rw [ensureIndex_eq_ask, hcommand]
  exact .send reply (.done _)

end Collection

namespace Blob

/-- Only text and trees that were given can keep a description from being written. -/
theorem isWritable_description (f : File) {id : Bson} (hid : id.isWritable = true)
    (hmetadata : ∀ v ∈ f.metadata, v.outbound.isWritable = true) :
    (f.description id).isWritable = true := by
  have hnames : ∀ name ∈ ["_id", "filename", "contentType", "length", "chunkSize", "uploadDate", "md5"],
      Bson.isTerminable name = true := by decide
  simp only [List.forall_mem_cons] at hnames
  refine Document.isWritable_putSome ?_ (by decide) ?_
  · simp [Document.isWritable, Document.ofPairs, Fields.collect, Fields.put, Bson.fieldsWritable,
      Bson.isWritable, hid, hnames]
  · intro b hb
    obtain ⟨v, hv, rfl⟩ := Option.map_eq_some_iff.mp hb
    exact hmetadata v hv

namespace File

/-- A file whose commands can be sent. -/
structure Sendable (f : File) : Prop where
  chunks : ∃ extra, f.store.chunks.database.concernFields = .ok extra
  files : ∃ extra, f.store.files.database.concernFields = .ok extra
  rounds : 0 < f.store.chunks.database.rounds
  id : f.id.outbound.isWritable = true
  metadata : ∀ v ∈ f.metadata, v.outbound.isWritable = true

variable {f : File}

/-- The close of a file whose chunks are stored sends a command, whatever the reply. -/
theorem exists_plays_describe (h : f.Sendable) :
    ∃ k : Command, k.Inserts f.store.files [f.sentDescription] ∧
      ∀ reply, f.describe.Plays [⟨k, .long, reply⟩] (reply.insertedOne, f) := by
  obtain ⟨extra, hextra⟩ := h.files
  have hw := isWritable_description f h.id h.metadata
  obtain ⟨k, hk, hplays⟩ := Collection.exists_plays_insertOne hextra hw .long
  refine ⟨k, hk, ?_⟩
  intro reply
  exact Program.plays_bind.mpr ⟨_, _, [], rfl, hplays reply, .done _⟩

private theorem exists_plays_removeLeftovers (h : f.Sendable) :
    ∃ k : Command, k.RemovesIds f.store.chunks (f.chunkIds.map .objectId) ∧
      ∀ reply, f.removeLeftovers.run.Plays [⟨k, .short, reply⟩] (reply.removed.map fun _ => ()) := by
  obtain ⟨extra, hextra⟩ := h.chunks
  obtain ⟨k, hk⟩ := Collection.exists_deleteCommand hextra f.chunkIds
  refine ⟨k, Collection.removesIds_of_writeCommand hk, ?_⟩
  intro reply
  rw [removeLeftovers_eq_ask, Call.plays_ask]
  exact .inr ⟨k, reply, hk, rfl, rfl⟩

/-- The storing of chunks sends its commands one after the other as long as the replies are good. -/
private theorem exists_plays_storeChunks (h : f.Sendable) (retry : Bool) :
    ∃ index clear insert : Command, index.IsFor "createIndexes" f.store.chunks ∧
      clear.RemovesIds f.store.chunks (f.chunkIds.map .objectId) ∧
      insert.Inserts f.store.chunks f.chunkDocs ∧
      (∀ r₁ e, r₁.indexed = .error e →
        (f.storeChunks f.id.outbound retry).run.Plays [⟨index, .long, r₁⟩] (.error e)) ∧
      ∀ r₁ r₂ r₃ m n, r₁.indexed = .ok () → r₂.removed = .ok m → r₃.inserted = .ok n →
        f.chunkDocs.length ≤ n →
        (f.storeChunks f.id.outbound retry).run.Plays
          (⟨index, .long, r₁⟩ :: (if retry then [⟨clear, .short, r₂⟩] else []) ++ [⟨insert, .long, r₃⟩])
          (.ok ()) := by
  obtain ⟨extra, hextra⟩ := h.chunks
  obtain ⟨index, hindex, hplaysIndex⟩ := Collection.exists_plays_ensureIndex hextra
  obtain ⟨clear, hclear, hplaysClear⟩ := exists_plays_removeLeftovers h
  have hw : ∀ doc ∈ chunkDocuments f.id.outbound f.chunkIds f.chunks, doc.isWritable = true := by
    intro doc hdoc
    obtain ⟨n, id, -, data, -, rfl⟩ := exists_of_mem_documentsFrom hdoc
    exact isWritable_chunkDocument h.id
  obtain ⟨insert, hinsert, hplaysInsert⟩ := Collection.exists_plays_insertMany hextra hw h.rounds .long
  have hwritten : (chunkDocuments f.id.outbound f.chunkIds f.chunks).map Document.written = f.chunkDocs :=
    written_documentsFrom
  rw [hwritten] at hinsert
  refine ⟨index, clear, insert, hindex, hclear, hinsert, ?_, ?_⟩
  · intro r₁ e hr
    rw [storeChunks_eq]
    have := hplaysIndex r₁
    rw [hr] at this
    exact Call.plays_bind.mpr (.inl ⟨e, this, rfl⟩)
  · intro r₁ r₂ r₃ m n hr hr' hr'' hn
    have hfirst := hplaysIndex r₁
    rw [hr] at hfirst
    have hlast := hplaysInsert r₃ n hr'' (by rwa [← List.length_map (f := Document.written), hwritten])
    have hmiddle : (if retry then f.removeLeftovers else pure () : Call Unit).run.Plays
        (if retry then [⟨clear, .short, r₂⟩] else []) (.ok ()) := by
      cases retry with
      | false => exact .done _
      | true =>
        have := hplaysClear r₂
        rw [hr'] at this
        exact this
    rw [storeChunks_eq]
    refine Call.plays_bind.mpr (.inr ⟨(), _, _, (List.append_assoc [_] _ _), hfirst, ?_⟩)
    exact Call.plays_bind.mpr (.inr ⟨(), _, _, rfl, hmiddle, hlast⟩)

theorem Sendable.prepared (h : f.Sendable) (fresh : Nat → Oid) : (f.prepared fresh).Sendable := by
  obtain ⟨md5, ids, hprepared⟩ := prepared_eq f fresh
  rw [hprepared]
  exact ⟨h.chunks, h.files, h.rounds, h.id, h.metadata⟩

variable {fresh : Nat → Oid}

private theorem plays_close {log : List Exchange} {r : Except Error Unit} {g : File} (hpending : f.Pending)
    (h : (f.persist fresh).Plays log (r, g)) : (f.close fresh).Plays log (r, g.settle r) := by
  rw [close_of_pending hpending]
  refine Program.plays_bind.mpr ⟨(r, g), log, [], (List.append_nil _).symm, h, ?_⟩
  obtain e | ⟨⟩ := r <;> exact .done _

/-- A close that stores the chunks builds their index, removes leftovers in a retry, and inserts the chunks
and the description, as long as the replies are good. -/
theorem exists_plays_close (hpending : f.Pending) (hunstored : f.chunksStored = false) (h : f.Sendable)
    (fresh : Nat → Oid) :
    ∃ index clear insert describe : Command, index.IsFor "createIndexes" f.store.chunks ∧
      clear.RemovesIds f.store.chunks ((f.prepared fresh).chunkIds.map .objectId) ∧
      insert.Inserts f.store.chunks (f.prepared fresh).chunkDocs ∧
      describe.Inserts f.store.files [(f.prepared fresh).sentDescription] ∧
      (∀ r₁ e, r₁.indexed = .error e →
        (f.close fresh).Plays [⟨index, .long, r₁⟩] (.error e, f.prepared fresh)) ∧
      ∀ r₁ r₂ r₃ r₄ m n, r₁.indexed = .ok () → r₂.removed = .ok m → r₃.inserted = .ok n →
        (f.prepared fresh).chunkDocs.length ≤ n →
        (f.close fresh).Plays
          (⟨index, .long, r₁⟩ :: (if f.isRetry then [⟨clear, .short, r₂⟩] else []) ++
            [⟨insert, .long, r₃⟩, ⟨describe, .long, r₄⟩])
          (r₄.insertedOne, (f.prepared fresh).marked.settle r₄.insertedOne) := by
  have hprepared := h.prepared fresh
  have hstore : (f.prepared fresh).store = f.store := prepared_store
  obtain ⟨index, clear, insert, hindex, hclear, hinsert, hfails, hsucceeds⟩ :=
    exists_plays_storeChunks hprepared f.isRetry
  have hmarked : (f.prepared fresh).marked.Sendable :=
    ⟨hprepared.chunks, hprepared.files, hprepared.rounds, hprepared.id, hprepared.metadata⟩
  obtain ⟨describe, hdescribe, hplays⟩ := exists_plays_describe hmarked
  rw [hstore] at hindex hclear hinsert
  rw [prepared_id] at hfails hsucceeds
  have hfiles : describe.Inserts f.store.files [(f.prepared fresh).sentDescription] := hstore ▸ hdescribe
  refine ⟨index, clear, insert, describe, hindex, hclear, hinsert, hfiles, ?_, ?_⟩
  · intro r₁ e hr
    refine plays_close hpending ?_
    rw [persist_of_unstored hunstored]
    exact Program.plays_bind.mpr ⟨_, _, [], rfl, hfails r₁ e hr, .done _⟩
  · intro r₁ r₂ r₃ r₄ m n hr hr' hr'' hn
    refine plays_close hpending ?_
    rw [persist_of_unstored hunstored]
    have hstoring := hsucceeds r₁ r₂ r₃ m n hr hr' hr'' hn
    have hlast : (⟨index, .long, r₁⟩ :: (if f.isRetry then [⟨clear, .short, r₂⟩] else []) ++
        [⟨insert, .long, r₃⟩, ⟨describe, .long, r₄⟩] : List Exchange) =
        (⟨index, .long, r₁⟩ :: (if f.isRetry then [⟨clear, .short, r₂⟩] else []) ++
          [⟨insert, .long, r₃⟩]) ++ [⟨describe, .long, r₄⟩] := by simp
    exact Program.plays_bind.mpr ⟨_, _, _, hlast, hstoring, hplays r₄⟩

/-- A close under a write concern that has no form sends nothing, and fails. -/
theorem close_of_concernFields {e : Error} (hpending : f.Pending) (hunstored : f.chunksStored = false)
    (hconcern : f.store.chunks.database.concernFields = .error e) (fresh : Nat → Oid) :
    f.close fresh = .done (.error e, f.prepared fresh) := by
  have hnames : ["writeConcern", "createIndexes", "indexes"].Nodup := by decide
  have hindex : f.store.chunks.indexCommand chunkIndex = .error e :=
    (Collection.indexCommand_chunkIndex _).trans (Collection.writeCommand_of_concernFields hnames hconcern)
  have hstore : (f.prepared fresh).storeChunks f.id.outbound f.isRetry = Call.settled (.error e) := by
    unfold storeChunks
    rw [prepared_store, Collection.ensureIndex_eq_ask, hindex]
    rfl
  rw [close_of_pending hpending, persist_of_unstored hunstored, hstore]
  rfl

/-- A close after the chunks were stored inserts the description. -/
theorem exists_plays_close_again (hpending : f.Pending) (hstored : f.chunksStored = true) (h : f.Sendable) :
    ∃ describe : Command, describe.Inserts f.store.files [f.sentDescription] ∧
      ∀ r, (f.close fresh).Plays [⟨describe, .long, r⟩] (r.insertedOne, f.settle r.insertedOne) := by
  obtain ⟨describe, hdescribe, hplays⟩ := exists_plays_describe h
  refine ⟨describe, hdescribe, ?_⟩
  intro r
  refine plays_close hpending ?_
  rw [persist_of_stored hstored]
  exact hplays r

end File

namespace Sample

/-- A database without a write concern. -/
def database : Database := ⟨"test", .primary, none, 1⟩

def fresh (i : Nat) : Oid := ⟨List.replicate 11 0 ++ [UInt8.ofNat i], by simp⟩

def file : File := .create (database.blobs "fs") (fresh 0) .epoch "a"

def done : Reply := .document ⟨[("ok", .int32 1)]⟩

def counted : Reply := .document ⟨[("ok", .int32 1), ("n", .int32 1)]⟩

theorem indexed_done : done.indexed = .ok () := by rfl

theorem inserted_counted : counted.inserted = .ok 1 := by rfl

theorem removed_counted : counted.removed = .ok 1 := by rfl

section Closing

variable {f : File} (hpending : f.Pending) (hunstored : f.chunksStored = false) (h : f.Sendable)
include hpending hunstored h

theorem exists_close_dropped :
    ∃ log, f.Does (.close log (.error (.transport .io))) (f.prepared fresh) := by
  obtain ⟨index, -, -, -, -, -, -, -, hfails, -⟩ := File.exists_plays_close hpending hunstored h fresh
  exact ⟨_, fresh, hfails .dropped (.transport .io) rfl⟩

theorem exists_close_done (hone : (f.prepared fresh).chunkDocs.length ≤ 1) :
    ∃ log, f.Does (.close log (.ok ())) (f.prepared fresh).marked.shut := by
  obtain ⟨index, clear, insert, describe, -, -, -, -, -, hsucceeds⟩ :=
    File.exists_plays_close hpending hunstored h fresh
  exact ⟨_, fresh, hsucceeds _ _ _ counted 1 1 indexed_done removed_counted inserted_counted hone⟩

end Closing

end Sample
end Blob
end DocClient
