import DocClient.Proofs.Blob.Opening
import DocClient.Proofs.Blob.Progress
import DocClient.Proofs.Blob.Tracking

/-! Files that are written, closed, opened again and read. Main statement: `reads_back_of_closed`. -/
namespace DocClient.Blob

/-- A server on which the building of indexes and the insertion of documents succeed. -/
structure Accepting {σ : Type} (answer : Command → Deadline → σ → Reply × σ) : Prop where
  indexes : ∀ k limit st c, k.IsFor "createIndexes" c → (answer k limit st).1.indexed = .ok ()
  inserts : ∀ k limit st c, k.IsFor "insert" c → (k.insertedInto c).length < chunkLimit →
    ∃ n, (answer k limit st).1.inserted = .ok n ∧ (k.insertedInto c).length ≤ n

/-- What a file that is opened shows of one that was written. -/
structure Restored (data : Bytes) (size : Nat) (f h : File) : Prop where
  length : h.length = data.length
  chunkSize : h.chunkSize = size
  md5 : h.md5 = Md5.hexDigest data
  name : h.name = f.name
  contentType : h.contentType = f.contentType
  uploaded : h.uploaded = f.uploaded.keptMillis

/-- A search by an identifier that brings one description opens a file. -/
def Opens (s : Store) (id : Oid) (d : Document) (h : File) : Prop :=
  ∃ k : Command, k.Searches s.files ⟨[("_id", .objectId id)]⟩ none ∧
    ∀ reply batch, reply.batch "firstBatch" = .ok batch → batch.documents = [d] →
      Program.run (Program.recorded Program.prepared) (s.openId (ObjectId.ofOid id)).run ([reply], []) =
        some (.ok h, [], [⟨k, .short, reply⟩])

/-- A search for the chunks of an identifier, in the order of their numbers, that brings some documents in
whatever batches, as many as a call follows a result for, makes the reads of a file deliver some data. -/
def ReadsOut (h : File) (id : Oid) (chunks : List Document) (data : Bytes) : Prop :=
  ∃ k : Command,
    k.Searches h.store.chunks ⟨[("files_id", .objectId id)]⟩ (some ⟨[("n", .int32 1)]⟩) ∧
    ∀ first replies rooms, first.Opens replies chunks →
      replies.length ≤ h.store.chunks.database.rounds → rooms ≠ [] →
      ∃ reads h' log,
        Program.run (Program.recorded Program.prepared) (h.readEach rooms) (first :: replies, []) =
          some ((reads.map .ok, h'), [], ⟨k, .short, first⟩ :: log) ∧
        Delivers data rooms reads

/-- A file to which nothing came yet but data and plain settings. -/
structure Filled (s : Store) (id : Oid) (data : Bytes) (size : Nat) (f : File) : Prop where
  pending : f.Pending
  unstored : f.chunksStored = false
  untried : f.chunkIds = []
  store : f.store = s
  id : f.id = .objectId (.ofOid id)
  metadata : f.metadata = none
  chunkSize : f.chunkSize = size
  positive : 0 < size
  length : f.length = data.length
  chunks : f.chunks = split size data

section Closing

variable {s : Store} {fresh : Oid} {now : Time} {name : String} {es : List Event} {f : File}

theorem metadata_of_plain (hran : (File.create s fresh now name).Ran es f)
    (hevents : ∀ e ∈ es, e.isPlain = true ∧ e.isClose = false) : f.metadata = none := by
  induction hran with
  | nil => rfl
  | snoc before last ih =>
    simp only [List.forall_mem_append, List.forall_mem_singleton] at hevents
    have htouched := File.touched_of_does last hevents.2.2
    exact (htouched.metadata hevents.2.1).trans (ih hevents.1)

theorem filled_of_ran (hran : (File.create s fresh now name).Ran es f)
    (hevents : ∀ e ∈ es, e.isPlain = true ∧ e.isClose = false) (hdata : accepted es ≠ []) :
    Filled s fresh (accepted es) (requested es) f := by
  have hplain : ∀ e ∈ es, e.isPlain = true := fun e he => (hevents e he).1
  have hopen : ∀ e ∈ es, e.isClose = false := fun e he => (hevents e he).2
  have hfinishes : ∀ e ∈ es, e.finishes = false := by
    intro e he
    have := hopen e he
    cases e <;> simp_all [Event.isClose, Event.finishes]
  obtain ⟨hopened, htrusted⟩ := opened_of_plain hran hplain hfinishes
  have htracks := tracks_of_ran hran hopened
  have hsize := chunkSize_eq_requested hran hopen
  obtain ⟨huntried, hunstored, -⟩ | htried := htracks.tried
  · exact {
      pending := htracks.pending htrusted hdata
      unstored := hunstored
      untried := huntried
      store := htracks.store
      id := by rw [htracks.id, identified_of_plain hplain]
      metadata := metadata_of_plain hran hevents
      chunkSize := hsize
      positive := hsize ▸ htracks.size
      length := htracks.length
      chunks := hsize ▸ htracks.chunks }
  · obtain ⟨e, he, hclose⟩ := htried.closed
    rw [hopen e he] at hclose
    cases hclose

end Closing

namespace Filled

variable {db : Database} {start : String} {extra : Fields Bson} {id : Oid} {data : Bytes} {size : Nat}
  {f : File}

theorem prepared_eq {s : Store} (h : Filled s id data size f) (ids : Nat → Oid) :
    f.prepared ids =
      { f with md5 := Md5.hexDigest data, chunkIds := (split size data).mapIdx fun i _ => ids i } := by
  have hretry : f.isRetry = false := by simp [File.isRetry, h.untried]
  unfold File.prepared checksum
  rw [hretry, h.chunks, flatten_split h.positive]
  rfl

theorem sendable (h : Filled (db.blobs start) id data size f) (hconcern : db.concernFields = .ok extra)
    (hrounds : 0 < db.rounds) : f.Sendable := by
  have hstore := h.store
  refine ⟨⟨extra, by rw [hstore]; exact hconcern⟩, ⟨extra, by rw [hstore]; exact hconcern⟩,
    by rw [hstore]; exact hrounds, ?_, ?_⟩
  · rw [h.id]
    simp [Value.outbound, Bson.isWritable]
  · rw [h.metadata]
    intro v hv
    cases hv

/-- On an accepting server a close succeeds at once, and the server takes the chunks and the description. -/
theorem exists_run_close {σ : Type} {answer : Command → Deadline → σ → Reply × σ}
    (haccepts : Accepting answer) (h : Filled (db.blobs start) id data size f)
    (hconcern : db.concernFields = .ok extra) (hrounds : 0 < db.rounds)
    (hfew : (split size data).length < chunkLimit) (ids : Nat → Oid) (st : σ) :
    ∃ st' log,
      Program.run (Program.recorded answer) (f.close ids) (st, []) =
        some ((.ok (), (f.prepared ids).marked.shut), st', log) ∧
      log.flatMap (·.taken (db.blobs start).files) = [(f.prepared ids).sentDescription] ∧
      log.flatMap (·.taken (db.blobs start).chunks) = (f.prepared ids).chunkDocs := by
  obtain ⟨index, clear, insert, describe, hindex, -, hinsert, hdescribe, -, hsucceeds⟩ :=
    File.exists_plays_close h.pending h.unstored (h.sendable hconcern hrounds) ids
  rw [h.store] at hindex hinsert hdescribe
  have hdocs : (f.prepared ids).chunkDocs.length = (split size data).length := by
    rw [h.prepared_eq ids]
    rw [File.length_chunkDocs, List.length_mapIdx, h.chunks, Nat.min_self]
  let first := answer index .long st
  let second := answer insert .long first.2
  let third := answer describe .long second.2
  have hfirst : first.1.indexed = .ok () := haccepts.indexes index .long st _ hindex
  obtain ⟨n, hsecond, hn⟩ := haccepts.inserts insert .long first.2 _ hinsert.1 (by rw [hinsert.2]; omega)
  obtain ⟨m, hthird, hm⟩ := haccepts.inserts describe .long second.2 _ hdescribe.1
    (by rw [hdescribe.2]; exact (by decide : 1 < chunkLimit))
  rw [hinsert.2] at hn
  rw [hdescribe.2] at hm
  have hretry : f.isRetry = false := by simp [File.isRetry, h.untried]
  have hplays := hsucceeds first.1 Sample.counted second.1 third.1 1 n hfirst Sample.removed_counted hsecond hn
  rw [hretry, Reply.insertedOne_of_inserted hthird] at hplays
  refine ⟨third.2, _, hplays.run_of_answers ⟨rfl, rfl, rfl, rfl⟩ [], ?_, ?_⟩
  -- Each of the two collections takes documents from one of the commands only.
  · have hothers : ¬ index.IsFor "insert" (db.blobs start).files ∧
        ¬ insert.IsFor "insert" (db.blobs start).files := by
      refine ⟨fun hfor => ?_, fun hfor => ?_⟩
      · exact absurd (hindex.unique hfor).1 (by decide)
      · exact blobs_names_ne db start (hfor.unique hinsert.1).2
    simp [Exchange.taken_of_not_isFor (x := ⟨index, .long, first.1⟩) hothers.1,
      Exchange.taken_of_not_isFor (x := ⟨insert, .long, second.1⟩) hothers.2,
      Exchange.taken_of_inserts (x := ⟨describe, .long, third.1⟩) hdescribe hthird hm]
  · have hothers : ¬ index.IsFor "insert" (db.blobs start).chunks ∧
        ¬ describe.IsFor "insert" (db.blobs start).chunks := by
      refine ⟨fun hfor => ?_, fun hfor => ?_⟩
      · exact absurd (hindex.unique hfor).1 (by decide)
      · exact blobs_names_ne db start (hdescribe.1.unique hfor).2
    simp [Exchange.taken_of_not_isFor (x := ⟨index, .long, first.1⟩) hothers.1,
      Exchange.taken_of_inserts (x := ⟨insert, .long, second.1⟩) hinsert hsecond hn,
      Exchange.taken_of_not_isFor (x := ⟨describe, .long, third.1⟩) hothers.2]

/-- The file that is opened on the description of a file that was closed. -/
theorem opens_reopened {s : Store} (h : Filled s id data size f) (hsize : size ≤ 0x7fffffff)
    (hfew : (split size data).length < chunkLimit) (huploaded : f.uploaded.Valid) (ids : Nat → Oid) :
    Opens s id (f.prepared ids).sentDescription ((f.prepared ids).reopened s) := by
  have hlength : data.length < 0x8000000000000000 := by
    have hle := (length_split_le_iff h.positive).mp (Nat.le_refl (split size data).length)
    have hmul := Nat.mul_le_mul hsize (Nat.le_of_lt hfew)
    have : 0x7fffffff * chunkLimit < 0x8000000000000000 := by decide
    omega
  have hprepared := h.prepared_eq ids
  have hopened : File.ofDescription s (Value.ofDocument (f.prepared ids).sentDescription) =
      (f.prepared ids).reopened s := by
    refine File.ofDescription_sentDescription (show _ = Value.objectId (.ofOid id) from ?_) ?_ ?_ ?_ ?_ ?_ s <;>
      rw [hprepared]
    · exact h.id
    · exact h.chunkSize ▸ h.positive
    · exact h.chunkSize ▸ hsize
    · exact h.length ▸ hlength
    · exact huploaded
    · exact h.metadata
  obtain ⟨k, hsearches, hplays⟩ := File.exists_plays_openId s id
  refine ⟨k, hsearches, ?_⟩
  intro reply batch hbatch hdocs
  have hopens := hplays reply batch _ [] hbatch hdocs
  rw [hopened] at hopens
  exact hopens.run_prepared []

theorem chunkDocs_eq {s : Store} (h : Filled s id data size f) (ids : Nat → Oid) :
    ∃ oids : List Oid, oids.length = (split size data).length ∧
      (f.prepared ids).chunkDocs = chunkDocuments (.objectId id) oids (split size data) := by
  refine ⟨(split size data).mapIdx fun i _ => ids i, List.length_mapIdx, ?_⟩
  rw [h.prepared_eq ids]
  unfold File.chunkDocs
  rw [h.chunks, h.id]
  simp [Value.outbound, Bson.written]

/-- The reads of the file that is opened give the data, if its chunks are brought. -/
theorem readsOut_reopened (h : Filled (db.blobs start) id data size f)
    (hrounds : (split size data).length < db.rounds) (ids : Nat → Oid) :
    ReadsOut ((f.prepared ids).reopened (db.blobs start)) id (f.prepared ids).chunkDocs data := by
  have hprepared := h.prepared_eq ids
  obtain ⟨oids, hoids, hdocs⟩ := h.chunkDocs_eq ids
  have hid : ((f.prepared ids).reopened (db.blobs start)).id = .objectId (.ofOid id) := by
    rw [hprepared]
    exact h.id
  have hlength : ((f.prepared ids).reopened (db.blobs start)).length = (split size data).flatten.length := by
    rw [hprepared, flatten_split h.positive]
    exact h.length
  have hcount : (f.prepared ids).chunkDocs.length = (split size data).length := by
    rw [hdocs, chunkDocuments, length_documentsFrom, hoids, Nat.min_self]
  have hdatas : (f.prepared ids).chunkDocs.map (fun doc => File.chunkPayload (Value.ofDocument doc)) =
      (split size data).map .ok := by
    rw [hdocs]
    exact chunkPayload_documentsFrom hoids
  obtain ⟨k, hsearches, hplays⟩ := File.exists_plays_loadChunks hid
  refine ⟨k, hsearches, ?_⟩
  intro first replies rooms hopens hreplies hrooms
  obtain ⟨log, hload, rfl⟩ := hplays first replies _ _ hopens hdatas hreplies (hcount ▸ hrounds)
  obtain ⟨g, hreads⟩ := File.exists_plays_readEach (File.unread_reopened _ _) hload hlength hrooms
  rw [flatten_split h.positive] at hreads
  refine ⟨_, g, log, ?_, delivers_pieces data rooms⟩
  have hrun := hreads.run_prepared []
  rw [List.append_nil] at hrun
  exact hrun

end Filled

variable {σ : Type} {answer : Command → Deadline → σ → Reply × σ} {db : Database} {start : String}
  {extra : Fields Bson} {fresh : Oid} {now : Time} {name : String} {es : List Event} {f : File}

/-- A file that data and plain settings came to is stored by a close on an accepting server. Opened by its
identifier on the description that the server took, it shows what it was given; and, its chunk query answered
with the documents that the server took, its reads deliver the data. -/
theorem reads_back_of_closed (haccepts : Accepting answer) (hconcern : db.concernFields = .ok extra)
    (hran : (File.create (db.blobs start) fresh now name).Ran es f)
    (hevents : ∀ e ∈ es, e.isPlain = true ∧ e.isClose = false) (hdata : accepted es ≠ [])
    (hsize : requested es ≤ 0x7fffffff)
    (hfew : (split (requested es) (accepted es)).length < chunkLimit) (huploaded : f.uploaded.Valid)
    (hrounds : (split (requested es) (accepted es)).length < db.rounds) (ids : Nat → Oid) (st : σ) :
    ∃ g st' log d docs h,
      Program.run (Program.recorded answer) (f.close ids) (st, []) = some ((.ok (), g), st', log) ∧
      log.flatMap (·.taken (db.blobs start).files) = [d] ∧
      log.flatMap (·.taken (db.blobs start).chunks) = docs ∧
      docs.map numbered? =
        (split (requested es) (accepted es)).zipIdx.map (fun p => some ((p.2 : Int), p.1)) ∧
      Opens (db.blobs start) fresh d h ∧ Restored (accepted es) (requested es) f h ∧ h.md5 = g.md5 ∧
      ReadsOut h fresh docs (accepted es) := by
  have hfilled := filled_of_ran hran hevents hdata
  obtain ⟨st', log, hrun, hfiles, hchunks⟩ :=
    hfilled.exists_run_close haccepts hconcern (Nat.zero_lt_of_lt hrounds) hfew ids st
  obtain ⟨oids, hoids, hdocs⟩ := hfilled.chunkDocs_eq ids
  refine ⟨_, st', log, _, _, (f.prepared ids).reopened (db.blobs start), hrun, hfiles, hchunks, ?_,
    hfilled.opens_reopened hsize hfew huploaded ids, ?_, rfl, hfilled.readsOut_reopened hrounds ids⟩
  · rw [hdocs, chunkDocuments, numbered?_documentsFrom (by omega), hoids, List.take_length]
  · rw [hfilled.prepared_eq ids]
    exact ⟨hfilled.length, hfilled.chunkSize, rfl, rfl, rfl, rfl⟩

namespace Sample

def counting (n : Nat) : Reply := .document ⟨[("ok", .int32 1), ("n", .int32 (Int32.ofInt n))]⟩

theorem inserted_counting {n : Nat} (h : n < chunkLimit) : (counting n).inserted = .ok n := by
  have hcount : decodeCount (.int32 (Int32.ofInt n)) = .ok n := by
    have hle : n < 0x80000000 := h
    have hbounds : (decide ((0 : Int) ≤ n) && decide ((n : Int) ≤ 0x7fffffffffffffff)) = true := by
      simp only [Bool.and_eq_true, decide_eq_true_eq]
      omega
    unfold decodeCount decodeInt
    dsimp only
    rw [toInt_int32 h, if_pos hbounds]
    rfl
  have hread : readWrite ⟨[("ok", .int32 1), ("n", .int32 (Int32.ofInt n))]⟩ = .ok (n, ⟨none, none⟩) := by
    have hn : Document.required ⟨[("ok", .int32 1), ("n", .int32 (Int32.ofInt n))]⟩ "n" decodeCount = .ok n :=
      hcount
    unfold readWrite
    rw [hn]
    rfl
  rw [Reply.inserted_eq_ok_iff]
  change readReply readWrite ⟨[("ok", .int32 1), ("n", .int32 (Int32.ofInt n))]⟩ = _
  rw [readReply, hread]
  rfl

def taking (k : Command) (_ : Deadline) (st : Unit) : Reply × Unit :=
  (counting (k.body.documentsUnder "documents").length, st)

theorem accepting_taking : Accepting taking where
  indexes k limit st c hfor := rfl
  inserts k limit st c hfor hfew := by
    have hdocs : k.insertedInto c = k.body.documentsUnder "documents" := by
      simp [Command.insertedInto, hfor]
    rw [hdocs] at hfew ⊢
    exact ⟨_, inserted_counting hfew, Nat.le_refl _⟩

/-- A database in which results are followed for some batches. -/
def patient : Database := { database with rounds := 8 }

end Sample

theorem reads_back_of_three_bytes : ∃ (es : List Event) (f : File),
    (File.create (Sample.patient.blobs "fs") (Sample.fresh 0) .epoch "a").Ran es f ∧
    accepted es = [97, 98, 99] ∧ requested es = 2 ∧
    ∃ g st' log d docs h,
      Program.run (Program.recorded Sample.taking) (f.close Sample.fresh) ((), []) =
        some ((.ok (), g), st', log) ∧
      log.flatMap (·.taken (Sample.patient.blobs "fs").files) = [d] ∧
      log.flatMap (·.taken (Sample.patient.blobs "fs").chunks) = docs ∧
      docs.map numbered? =
        (split (requested es) (accepted es)).zipIdx.map (fun p => some ((p.2 : Int), p.1)) ∧
      Opens (Sample.patient.blobs "fs") (Sample.fresh 0) d h ∧
      Restored (accepted es) (requested es) f h ∧ h.md5 = g.md5 ∧
      ReadsOut h (Sample.fresh 0) docs (accepted es) := by
  let f₀ : File := .create (Sample.patient.blobs "fs") (Sample.fresh 0) .epoch "a"
  let f₁ : File := f₀.setChunkSize 2
  let f₂ : File := (f₁.write [97, 98]).2
  let f₃ : File := (f₂.write []).2
  let f₄ : File := (f₃.write [99]).2
  have h₁ : f₀.Ran ([] ++ [.setChunkSize 2]) f₁ := .snoc .nil (show f₀.Does (.setChunkSize 2) f₁ from rfl)
  have h₂ := h₁.snoc (show f₁.Does (.write [97, 98] (.ok 2)) f₂ from rfl)
  have h₃ := h₂.snoc (show f₂.Does (.write [] (.ok 0)) f₃ from rfl)
  have h₄ := h₃.snoc (show f₃.Does (.write [99] (.ok 1)) f₄ from rfl)
  have htwo : (split 2 [97, 98, 99]).length ≤ 2 := (length_split_le_iff (by decide)).mpr (by decide)
  refine ⟨_, f₄, h₄, rfl, rfl, ?_⟩
  exact reads_back_of_closed Sample.accepting_taking rfl h₄ (by simp [Event.isPlain, Event.isClose])
    (by simp [accepted, Event.accepted]) (by decide) (Nat.lt_of_le_of_lt htwo (by decide)) (by decide)
    (Nat.lt_of_le_of_lt htwo (by decide)) Sample.fresh ()

namespace Sample

/-- A database with a write concern that has no form. -/
def stern : Database := { patient with writeConcern := some ⟨some (.servers 4294967295), none, none⟩ }

end Sample

/-- The whole milliseconds of an instant do not come back where they run past the calendar, and nothing is stored
under a write concern that has no form. -/
theorem read_back_in_part :
    (∃ (es : List Event) (f : File), (File.create (Sample.patient.blobs "fs") (Sample.fresh 0) .epoch "a").Ran es f ∧
      accepted es = [97] ∧ f.uploaded.Valid ∧
      ∃ g st' log d h,
        Program.run (Program.recorded Sample.taking) (f.close Sample.fresh) ((), []) =
          some ((.ok (), g), st', log) ∧
        log.flatMap (·.taken (Sample.patient.blobs "fs").files) = [d] ∧
        Opens (Sample.patient.blobs "fs") (Sample.fresh 0) d h ∧ h.uploaded ≠ f.uploaded.wholeMillis) ∧
    ∃ (es : List Event) (f : File), (File.create (Sample.stern.blobs "fs") (Sample.fresh 0) .epoch "a").Ran es f ∧
      accepted es = [97] ∧
      ∃ e g, Program.run (Program.recorded Sample.taking) (f.close Sample.fresh) ((), []) =
        some ((.error e, g), (), []) := by
  constructor
  · let f₀ : File := .create (Sample.patient.blobs "fs") (Sample.fresh 0) .epoch "a"
    let f₁ : File := f₀.setUploaded ⟨8210266876799, 1500000000⟩
    let f₂ : File := (f₁.write [97]).2
    have h₁ : f₀.Ran ([] ++ [.setUploaded ⟨8210266876799, 1500000000⟩]) f₁ :=
      .snoc .nil (show f₀.Does (.setUploaded ⟨8210266876799, 1500000000⟩) f₁ from rfl)
    have h₂ := h₁.snoc (show f₁.Does (.write [97] (.ok 1)) f₂ from rfl)
    have hvalid : f₂.uploaded.Valid := by decide
    have hfilled := filled_of_ran h₂ (by simp [Event.isPlain, Event.isClose]) (by simp [accepted, Event.accepted])
    have hfew : (split defaultChunkSize [97]).length < chunkLimit :=
      Nat.lt_of_le_of_lt ((length_split_le_iff (by decide)).mpr (show _ ≤ defaultChunkSize * 1 by decide)) (by decide)
    obtain ⟨st', log, hrun, hfiles, -⟩ :=
      hfilled.exists_run_close Sample.accepting_taking rfl (by decide) hfew Sample.fresh ()
    refine ⟨_, f₂, h₂, rfl, hvalid, _, st', log, _, _, hrun, hfiles,
      hfilled.opens_reopened (by decide) hfew hvalid Sample.fresh, ?_⟩
    have hshown : ((f₂.prepared Sample.fresh).reopened (Sample.patient.blobs "fs")).uploaded =
        f₂.uploaded.keptMillis := by
      rw [hfilled.prepared_eq Sample.fresh]
      rfl
    have huploaded : f₂.uploaded = ⟨8210266876799, 1500000000⟩ := rfl
    rw [hshown, huploaded]
    decide
  · let f₀ : File := .create (Sample.stern.blobs "fs") (Sample.fresh 0) .epoch "a"
    let f₁ : File := (f₀.write [97]).2
    have h₁ : f₀.Ran ([] ++ [.write [97] (.ok 1)]) f₁ := .snoc .nil (show f₀.Does (.write [97] (.ok 1)) f₁ from rfl)
    have hclose : f₁.close Sample.fresh = .done (.error (.transport .unencodable), f₁.prepared Sample.fresh) :=
      File.close_of_concernFields ⟨rfl, rfl, rfl, by decide⟩ rfl rfl Sample.fresh
    refine ⟨_, f₁, h₁, rfl, .transport .unencodable, f₁.prepared Sample.fresh, ?_⟩
    rw [hclose]
    rfl

end DocClient.Blob
