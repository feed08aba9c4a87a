import DocClient.Proofs.Blob.Echoes
import DocClient.Proofs.Blob.Truncation

/-! Identifiers of stored files on their way back to the server: in the search for the chunks of a file that is read,
and in the commands that remove it. Main statement: `sent_back_iff`, by which both carry the identifier as it is
stored, for every order of unordered documents, exactly if it is steady. -/
namespace DocClient

/-! ### Reading a file -/

theorem Command.Searches.filter_unique {k : Command} {c : Collection} {filter filter' : Document}
    {order : Option Document} (h : k.Searches c filter order) (h' : k.Searches c filter' order) : filter = filter' := by
  have hsame : Bson.ofDocument filter = Bson.ofDocument filter' := Option.some.inj (h.filter.symm.trans h'.filter)
  cases filter
  cases filter'
  exact congrArg Document.mk (Bson.document.inj hsame)

theorem Collection.listCommand_search {c : Collection} {filter : Document} {order : Option Document}
    (horder : ∀ o ∈ order, o.isWritable = true) : (c.search filter order).listCommand =
      c.database.sent c.database.readPreference ⟨c.searchFields filter order []⟩ := by
  unfold Query.listCommand
  rw [allBody_search horder]
  rfl

namespace Blob.File

variable {it : Iteration} {f : File}

/-- The query for the chunks of a file, when unordered documents are sent in an order. -/
def chunksQuery (it : Iteration) (f : File) : Query :=
  (f.store.chunks.find (Document.ofPairs [("files_id", f.id.outboundBy it)])).sort ["n"]

def loadChunksBy (it : Iteration) (f : File) : Call (List Bytes) := do
  let cursor ← ExceptT.lift (f.chunksQuery it).iter
  loadFrom f.store.chunks.database.rounds cursor

/-- The first read of a file, by an order of unordered documents. -/
def firstReadBy (it : Iteration) (f : File) (room : Nat) : Program (Except Error Bytes × File) :=
  (f.loadChunksBy it).run.bind fun
    | .error e => .done (.error e, f)
    | .ok chunks => { f with chunks, loaded := true }.read room

theorem firstReadBy_ascending (h : f.Unread) (room : Nat) : f.firstReadBy .ascending room = f.read room := by
  have hload : f.loadChunksBy .ascending = f.loadChunks := by
    unfold loadChunksBy chunksQuery
    rw [Value.outboundBy_ascending]
    rfl
  rw [read_of_unread h, ← hload]
  rfl

/-- By an order, the first read of a file begins with the search for the chunks of an identifier. -/
def AsksBy (it : Iteration) (f : File) (id : Bson) : Prop :=
  ∀ room, ∃ k next, f.firstReadBy it room = .send k .short next ∧
    k.Searches f.store.chunks ⟨[("files_id", id)]⟩ (some ⟨[("n", .int32 1)]⟩)

/-- The identifier of the file after it was converted twice. -/
def chunksFilter (it : Iteration) (f : File) : Document :=
  ⟨[("files_id", (f.id.outboundBy it).inboundOrdered.outbound)]⟩

theorem chunksQuery_eq (it : Iteration) (f : File) :
    f.chunksQuery it = f.store.chunks.search (f.chunksFilter it) (some ⟨[("n", .int32 1)]⟩) := by
  unfold chunksQuery Collection.find
  rw [liftDocument_single]
  rfl

theorem listCommand_chunksQuery (it : Iteration) (f : File) : (f.chunksQuery it).listCommand =
    f.store.chunks.database.sent f.store.chunks.database.readPreference
      ⟨f.store.chunks.searchFields (f.chunksFilter it) (some ⟨[("n", .int32 1)]⟩) []⟩ := by
  rw [chunksQuery_eq, Collection.listCommand_search (by decide)]

/-- The search for chunks carries the identifier of the file as it is sent back. -/
theorem searches_of_listCommand {k : Command} (hk : (f.chunksQuery it).listCommand = .ok k) :
    k.Searches f.store.chunks ⟨[("files_id", (f.id.outboundBy it).resent)]⟩ (some ⟨[("n", .int32 1)]⟩) := by
  rw [listCommand_chunksQuery] at hk
  obtain rfl := Database.eq_of_sent hk
  exact ⟨⟨rfl, rfl⟩, rfl, rfl⟩

theorem exists_listCommand (h : (f.id.outboundBy it).resent.isWritable = true) :
    ∃ k, (f.chunksQuery it).listCommand = .ok k := by
  have hfilter : (f.chunksFilter it).isWritable = true := by
    have hid : (f.id.outboundBy it).inboundOrdered.outbound.isWritable = true :=
      (Bson.isWritable_written _).symm.trans h
    have hname : Bson.isTerminable "files_id" = true := by decide
    simp [chunksFilter, Document.isWritable, Bson.fieldsWritable, hid, hname]
  have horder : ∀ o ∈ some (⟨[("n", .int32 1)]⟩ : Document), o.isWritable = true := by decide
  obtain ⟨k, hk, -⟩ := Collection.exists_searchCommand (c := f.store.chunks) [] hfilter horder rfl (by decide)
    f.store.chunks.database.readPreference
  exact ⟨k, (listCommand_chunksQuery it f).trans hk⟩

theorem firstReadBy_eq_send {k : Command} (hk : (f.chunksQuery it).listCommand = .ok k) (room : Nat) :
    ∃ next, f.firstReadBy it room = .send k .short next := by
  unfold firstReadBy loadChunksBy Query.iter
  rw [Call.run_lift_bind, Query.openCursor_eq_ask, hk]
  exact ⟨_, rfl⟩

/-- Nothing is asked for if the search cannot be sent. -/
theorem firstReadBy_ne_send {e : Error} (he : (f.chunksQuery it).listCommand = .error e) (room : Nat) (k : Command)
    (limit : Deadline) (next : Reply → Program (Except Error Bytes × File)) :
    f.firstReadBy it room ≠ .send k limit next := by
  have hload : (f.loadChunksBy it).run = (loadFrom f.store.chunks.database.rounds (.failed e)).run := by
    unfold loadChunksBy Query.iter
    rw [Call.run_lift_bind, Query.openCursor_eq_ask, he]
    rfl
  unfold firstReadBy
  rw [hload]
  cases f.store.chunks.database.rounds <;> nofun

theorem asksBy_iff {id : Bson} : f.AsksBy it id ↔
    (∃ k, (f.chunksQuery it).listCommand = .ok k) ∧ (f.id.outboundBy it).resent = id := by
  constructor
  · intro h
    obtain ⟨k, next, hsend, hsearches⟩ := h 0
    cases hk : (f.chunksQuery it).listCommand with
    | error e => exact absurd hsend (firstReadBy_ne_send hk 0 k .short next)
    | ok k' =>
      obtain ⟨next', hsend'⟩ := firstReadBy_eq_send hk 0
      obtain rfl : k' = k := (Program.send.inj (hsend'.symm.trans hsend)).1
      have hfilter := (searches_of_listCommand hk).filter_unique hsearches
      exact ⟨⟨k', rfl⟩, by simpa using hfilter⟩
  · rintro ⟨⟨k, hk⟩, rfl⟩ room
    obtain ⟨next, hsend⟩ := firstReadBy_eq_send hk room
    exact ⟨k, next, hsend, searches_of_listCommand hk⟩

end Blob.File

/-! ### Removing files -/

namespace Blob.Store

variable {s : Store} {name : String} {it : Iteration} {doc : Document} {id : Bson}

/-- A removal, by an order of unordered documents. -/
def removeBy (it : Iteration) (s : Store) (name : String) : Call Unit :=
  s.removePicked name fun doc => (doc.get? "_id").map (Value.outboundBy it)

theorem removeBy_ascending (s : Store) (name : String) : s.removeBy .ascending name = s.remove name := by
  have hsame : Value.outboundBy .ascending = Value.outbound := funext Value.outboundBy_ascending
  rw [remove_eq_removePicked, removeBy, hsame]

/-- The commands that remove something in a removal remove what has one of some identifiers. If the removal succeeds,
they are two, one for the descriptions and one for the chunks. -/
structure ClearsAs (s : Store) (ids : List Bson) (log last : List Exchange) (outcome : Except Error Unit) : Prop where
  each : ∀ y ∈ log, ∀ c, y.command.IsFor "delete" c →
    y.command.RemovesIn s.files "_id" ids ∨ y.command.RemovesIn s.chunks "files_id" ids
  both : outcome = .ok () → ∃ y z, last = [y, z] ∧
    y.command.RemovesIn s.files "_id" ids ∧ z.command.RemovesIn s.chunks "files_id" ids

/-- By an order, a removal that listed a document names an identifier in its place. -/
def RemovesBy (it : Iteration) (s : Store) (doc : Document) (id : Bson) : Prop :=
  ∀ name log outcome, (s.removeBy it name).run.Plays log outcome →
    ∀ x more last before after, log = x :: (more ++ last) →
      x.reply.Opens (more.map Exchange.reply) (before ++ doc :: after) →
      ∃ front back, front.length = (idsOf before).length ∧ back.length = (idsOf after).length ∧
        s.ClearsAs (front ++ id :: back) log last outcome

/-- The identifiers that a removal puts into its commands, by an order. -/
def idsBy (it : Iteration) (docs : List Document) : List Bson :=
  (docs.map Value.ofDocument).filterMap fun doc => (doc.get? "_id").map (Value.outboundBy it)

theorem length_idsBy (it : Iteration) (docs : List Document) : (idsBy it docs).length = (idsOf docs).length := by
  unfold idsBy idsOf
  rw [List.length_filterMap_eq_countP, List.length_filterMap_eq_countP]
  simp only [Option.isSome_map]

theorem idsBy_insert (hdoc : doc.names.Nodup) (hid : doc.get? "_id" = some id) (it : Iteration)
    (before after : List Document) :
    idsBy it (before ++ doc :: after) = idsBy it before ++ id.passed it :: idsBy it after := by
  have hpicked : ((Value.ofDocument doc).get? "_id").map (Value.outboundBy it) = some (id.passed it) := by
    rw [Value.get?_ofDocument hdoc, hid]
    rfl
  unfold idsBy
  rw [List.map_append, List.map_cons, List.filterMap_append]
  exact congrArg _ (List.filterMap_cons_some hpicked)

theorem Clears.removesIn_of_mem {ids : List Bson} {last : List Exchange} {outcome : Except Error Unit}
    (h : Clears s ids last outcome) {y : Exchange} (hy : y ∈ last) :
    y.command.RemovesIn s.files "_id" ids ∨ y.command.RemovesIn s.chunks "files_id" ids := by
  cases h with
  | unsent => cases hy
  | undescribed asks failed =>
    obtain rfl := List.mem_singleton.mp hy
    exact .inl asks
  | halfway asks done =>
    obtain rfl := List.mem_singleton.mp hy
    exact .inl asks
  | both asks done asks_chunks =>
    rcases List.mem_cons.mp hy with rfl | hy
    · exact .inl asks
    · obtain rfl := List.mem_singleton.mp hy
      exact .inr asks_chunks

theorem clearsAs_of_clears {ids : List Bson} {x : Exchange} {more last : List Exchange} {outcome : Except Error Unit}
    {filter : Document} (hlists : x.command.ListsIds s.files filter) (hmore : ∀ y ∈ more, y.command.AsksForMore)
    (h : Clears s ids last outcome) : s.ClearsAs ids (x :: (more ++ last)) last outcome := by
  constructor
  case each =>
    intro y hy c hdelete
    rcases List.mem_cons.mp hy with rfl | hy
    · exact absurd hdelete hlists.not_isFor_delete
    rcases List.mem_append.mp hy with hy | hy
    · exact absurd hdelete ((hmore y hy).not_isFor "delete" c)
    · exact h.removesIn_of_mem hy
  case both =>
    rintro rfl
    generalize hok : (Except.ok () : Except Error Unit) = outcome at h
    cases h with
    | unsent => cases hok
    | undescribed => cases hok
    | halfway => cases hok
    | both asks done asks_chunks => exact ⟨_, _, rfl, asks, asks_chunks⟩

/-- Nothing is removed before the listing is complete. -/
theorem clearsAs_of_unlisted {ids : List Bson} {log last : List Exchange} {e : Error}
    (h : log = [] ∨ ∃ x more, log = x :: more ∧ x.command.ListsIds s.files (named name) ∧
      ∀ y ∈ more, y.command.AsksForMore) : s.ClearsAs ids log last (.error e) := by
  constructor
  case each =>
    intro y hy c hdelete
    obtain rfl | ⟨x, more, rfl, hlists, hmore⟩ := h
    · cases hy
    rcases List.mem_cons.mp hy with rfl | hy
    · exact absurd hdelete hlists.not_isFor_delete
    · exact absurd hdelete ((hmore y hy).not_isFor "delete" c)
  case both => nofun

/-- The identifier of a document that is listed is sent back in its place. -/
theorem removesBy_echoedBy (hdoc : doc.names.Nodup) (hid : doc.get? "_id" = some id) (it : Iteration) :
    s.RemovesBy it doc (id.echoedBy it) := by
  intro name log outcome hplays x more last before after hlog hopens
  refine ⟨(idsBy it before).map Bson.resent, (idsBy it after).map Bson.resent, ?_, ?_, ?_⟩
  · rw [List.length_map, length_idsBy]
  · rw [List.length_map, length_idsBy]
  have hids : (idsBy it (before ++ doc :: after)).map Bson.resent =
      (idsBy it before).map Bson.resent ++ id.echoedBy it :: (idsBy it after).map Bson.resent := by
    rw [idsBy_insert hdoc hid, List.map_append, List.map_cons]
    rfl
  rw [← hids]
  obtain ⟨e, rfl, hunlisted⟩ | ⟨x', more', last', docs, rfl, hlists, hmore, hopens', hlast⟩ :=
    plays_removePicked hplays
  · exact clearsAs_of_unlisted hunlisted
  -- The replies settle where the listing ends and which documents it brought.
  obtain ⟨rfl, htail⟩ := List.cons.inj hlog
  obtain ⟨hreplies, rfl⟩ := hopens'.unique hopens (by rw [← List.map_append, htail, List.map_append])
  have hlength : more'.length = more.length := by simpa using congrArg List.length hreplies
  obtain ⟨rfl, rfl⟩ := List.append_inj htail hlength
  apply clearsAs_of_clears hlists hmore
  change (s.removeFound (idsBy it (before ++ doc :: after))).run.Plays last' outcome at hlast
  cases hfound : idsBy it (before ++ doc :: after) with
  | nil => simp [idsBy_insert hdoc hid] at hfound
  | cons id ids =>
    rw [hfound] at hlast
    exact clears_of_plays hlast

/-- The identifier of a stored file is sent back as it is, in the search for the file's chunks and in each command
that removes the file, for every order of unordered documents, exactly if it is steady. -/
theorem sent_back_iff (s : Store) (hdoc : doc.isWellFormed = true) (hid : doc.get? "_id" = some id)
    (hwritable : id.isWritable = true) :
    (∀ it, (File.ofDescription s (Value.ofDocument doc)).AsksBy it id ∧ s.RemovesBy it doc id) ↔
      id.written = id ∧ id.isSteady = true := by
  have hnames : doc.names.Nodup := Document.nodup_names hdoc
  have hfile : (File.ofDescription s (Value.ofDocument doc)).id = id.inbound := by
    change ((Value.ofDocument doc).get? "_id").getD .null = _
    rw [Value.get?_ofDocument hnames, hid]
    rfl
  have hecho (it : Iteration) :
      ((File.ofDescription s (Value.ofDocument doc)).id.outboundBy it).resent = id.echoedBy it := by
    rw [hfile]
    rfl
  rw [← Bson.echoedBy_eq_self_iff (Document.isWellFormed_of_get? hdoc hid)]
  refine forall_congr' fun it => ?_
  constructor
  · rintro ⟨hasks, -⟩
    exact (hecho it).symm.trans (File.asksBy_iff.mp hasks).2
  · intro hsame
    have hsent := (hecho it).trans hsame
    have hasks : (File.ofDescription s (Value.ofDocument doc)).AsksBy it id :=
      File.asksBy_iff.mpr ⟨File.exists_listCommand (by rw [hsent]; exact hwritable), hsent⟩
    have hremoves : s.RemovesBy it doc (id.echoedBy it) := removesBy_echoedBy hnames hid it
    rw [hsame] at hremoves
    exact ⟨hasks, hremoves⟩

/-- A document of one date is sent back as it is. -/
theorem date_sent_back :
    let id : Bson := .document [("day", .dateTime 1700000000000)]
    let doc : Document := ⟨[("_id", id), ("length", .int64 0)]⟩
    doc.isWellFormed = true ∧ id.isWritable = true ∧
      ∀ it, (File.ofDescription File.Sample.shelf (Value.ofDocument doc)).AsksBy it id ∧
        File.Sample.shelf.RemovesBy it doc id := by
  intro id doc
  have hdoc : doc.isWellFormed = true := by decide
  have hwritable : id.isWritable = true := by decide
  exact ⟨hdoc, hwritable, (sent_back_iff File.Sample.shelf hdoc rfl hwritable).mpr ⟨by decide, by decide⟩⟩

/-- Bytes of the retired subtype are asked for with the generic one, and two fields in the order of their names. -/
theorem sent_back_changed :
    (∃ k next, (File.ofDescription File.Sample.shelf (Value.ofDocument ⟨[("_id", .binary 2 [7])]⟩)).read 1 =
        .send k .short next ∧
      k.Searches File.Sample.shelf.chunks ⟨[("files_id", .binary 0 [7])]⟩ (some ⟨[("n", .int32 1)]⟩)) ∧
    ∃ k next, (File.ofDescription File.Sample.shelf
        (Value.ofDocument ⟨[("_id", .document [("z", .int32 1), ("a", .int32 2)])]⟩)).read 1 = .send k .short next ∧
      k.Searches File.Sample.shelf.chunks ⟨[("files_id", .document [("a", .int32 2), ("z", .int32 1)])]⟩
        (some ⟨[("n", .int32 1)]⟩) := by
  have hread (v : Value) {id : Bson} (h : (File.ofDescription File.Sample.shelf v).AsksBy .ascending id) :
      ∃ k next, (File.ofDescription File.Sample.shelf v).read 1 = .send k .short next ∧
        k.Searches File.Sample.shelf.chunks ⟨[("files_id", id)]⟩ (some ⟨[("n", .int32 1)]⟩) := by
    rw [← File.firstReadBy_ascending (File.unread_ofDescription File.Sample.shelf v)]
    exact h 1
  constructor
  · apply hread
    exact File.asksBy_iff.mpr ⟨File.exists_listCommand (by decide), by decide⟩
  · apply hread
    exact File.asksBy_iff.mpr ⟨File.exists_listCommand (by decide), by decide⟩

end Blob.Store

end DocClient
