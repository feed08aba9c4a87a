import DocClient.Proofs.Blob.Documents
import DocClient.Proofs.Blob.Reading
import DocClient.Proofs.Conversion
import DocClient.Proofs.Query.Search

/-! The first read of a file, which loads its chunks. Main statement: `exists_plays_readEach`, by which the
reads of an opened file give the content of the chunks that the server brings. -/
namespace DocClient

theorem liftDocument_objectId (name : String) (id : Oid) :
    liftDocument (Document.ofPairs [(name, .objectId id)]) = .ok ⟨[(name, .objectId id)]⟩ := by
  rw [liftDocument_single]
  simp [Bson.inboundOrdered, Value.outbound]

theorem Document.isWritable_objectId {name : String} (h : Bson.isTerminable name = true) (id : Oid) :
    Document.isWritable ⟨[(name, .objectId id)]⟩ = true := by
  simp [isWritable, Bson.fieldsWritable, Bson.isWritable, h]

namespace Call

variable {α : Type}

theorem plays_lift {p : Program α} {log : List Exchange} {a : α} (h : p.Plays log a) :
    (ExceptT.lift p : Call α).run.Plays log (.ok a) :=
  Program.plays_bind.mpr ⟨a, log, [], (List.append_nil _).symm, h, .done _⟩

end Call

namespace Blob

theorem chunkPayload_chunkDocument (filesId : Bson) (n : Nat) (id : Oid) (data : Bytes) :
    File.chunkPayload (Value.ofDocument (chunkDocument filesId n id data)) = .ok data := by
  have hnames : (chunkDocument filesId n id data).names.Nodup := by
    rw [Document.names, chunkDocument_fields]
    change ["_id", "files_id", "n", "data"].Nodup
    decide
  have hdata : (chunkDocument filesId n id data).get? "data" = some (Bson.genericBinary data) := by
    simp [Document.get?, chunkDocument_fields]
  unfold File.chunkPayload
  rw [Value.get?_ofDocument hnames, hdata]
  rfl

/-- The documents of chunks that have an identifier each hold the chunks. -/
theorem chunkPayload_documentsFrom {filesId : Bson} {n : Nat} {ids : List Oid} {chunks : List Bytes}
    (h : ids.length = chunks.length) :
    (documentsFrom filesId n ids chunks).map (fun doc => File.chunkPayload (Value.ofDocument doc)) =
      chunks.map .ok := by
  induction ids generalizing n chunks with
  | nil =>
    obtain rfl : chunks = [] := List.eq_nil_of_length_eq_zero h.symm
    rfl
  | cons id ids ih =>
    cases chunks with
    | nil => cases h
    | cons data rest =>
      exact congrArg₂ List.cons (chunkPayload_chunkDocument _ _ _ _) (ih (by simpa using h))

namespace File

/-- The payloads of the documents that a cursor gives are loaded in their order, and every reply is used. -/
theorem exists_plays_loadFrom {c : Cursor} {replies : List Reply} {docs : List Document}
    {datas : List Bytes} {rounds : Nat} (h : Yields c.id c.batch replies docs)
    (hdatas : docs.map (fun doc => chunkPayload (Value.ofDocument doc)) = datas.map .ok)
    (hreplies : replies.length ≤ c.rounds) (hrounds : docs.length < rounds) :
    ∃ log, (loadFrom rounds (.ofSource c)).run.Plays log (.ok datas) ∧ log.map Exchange.reply = replies := by
  induction docs generalizing c replies datas rounds with
  | nil =>
    obtain ⟨rounds, rfl⟩ := Nat.exists_eq_succ_of_ne_zero (Nat.ne_of_gt hrounds)
    obtain rfl : datas = [] := by simpa using hdatas.symm
    obtain ⟨log, d, rest, hpull, rfl, -, -, hend⟩ := Cursor.exists_plays_pull h hreplies
    obtain rfl := hend rfl
    refine ⟨log, ?_, (List.append_nil _).symm⟩
    have hnext : (Iter.ofSource c).nextValue.Plays log (none, { Iter.ofSource d with ended := true }) :=
      Program.plays_bind.mpr ⟨_, log, [], (List.append_nil _).symm, hpull, .done _⟩
    rw [loadFrom]
    refine Call.plays_bind.mpr (.inr ⟨_, log, [], (List.append_nil _).symm, Call.plays_lift hnext, ?_⟩)
    exact .done _
  | cons doc docs ih =>
    obtain ⟨rounds, rfl⟩ := Nat.exists_eq_succ_of_ne_zero (n := rounds) (by omega)
    cases datas with
    | nil => cases hdatas
    | cons data datas =>
      obtain ⟨hdata, hdatas⟩ := List.cons.inj hdatas
      dsimp only at hdata
      obtain ⟨first, d, rest, hpull, rfl, hyields, hsame, -⟩ := Cursor.exists_plays_pull h hreplies
      have hreplies' : rest.length ≤ d.rounds := by
        rw [List.length_append] at hreplies
        omega
      obtain ⟨log, hload, hlog⟩ := ih hyields hdatas hreplies' (by simpa using hrounds)
      refine ⟨first ++ log, ?_, by rw [List.map_append, hlog]⟩
      have hnext : (Iter.ofSource c).nextValue.Plays first (some (Value.ofDocument doc), .ofSource d) :=
        Program.plays_bind.mpr ⟨_, first, [], (List.append_nil _).symm, hpull, .done _⟩
      rw [loadFrom]
      refine Call.plays_bind.mpr (.inr ⟨_, first, log, rfl, Call.plays_lift hnext, ?_⟩)
      dsimp only
      rw [hdata, Call.settled_ok_bind]
      exact Call.plays_bind.mpr (.inr ⟨datas, log, [], (List.append_nil _).symm, hload, .done _⟩)

variable {f : File} {id : Oid}

/-- The chunks of a file are searched by its identifier in the order of their numbers. -/
theorem exists_plays_loadChunks (hid : f.id = .objectId (.ofOid id)) :
    ∃ k : Command,
      k.Searches f.store.chunks ⟨[("files_id", .objectId id)]⟩ (some ⟨[("n", .int32 1)]⟩) ∧
      ∀ reply replies docs datas, reply.Opens replies docs →
        docs.map (fun doc => chunkPayload (Value.ofDocument doc)) = datas.map .ok →
        replies.length ≤ f.store.chunks.database.rounds → docs.length < f.store.chunks.database.rounds →
        ∃ log, f.loadChunks.run.Plays (⟨k, .short, reply⟩ :: log) (.ok datas) ∧
          log.map Exchange.reply = replies := by
  obtain ⟨k, hsearches, hplays⟩ := Collection.exists_plays_openCursor f.store.chunks (some ⟨[("n", .int32 1)]⟩)
    (Document.isWritable_objectId (show Bson.isTerminable "files_id" = true by decide) id) (by decide)
  have hquery : (f.store.chunks.find (Document.ofPairs [("files_id", f.id.outbound)])).sort ["n"] =
      f.store.chunks.search ⟨[("files_id", .objectId id)]⟩ (some ⟨[("n", .int32 1)]⟩) := by
    have houtbound : f.id.outbound = .objectId id := by
      rw [hid]
      simp [Value.outbound]
    rw [houtbound]
    unfold Collection.find
    rw [liftDocument_objectId]
    rfl
  refine ⟨k, hsearches, ?_⟩
  intro reply replies docs datas hopens hdatas hreplies hrounds
  obtain ⟨batch, hbatch, hyields⟩ := hopens
  obtain ⟨log, hload, hlog⟩ := exists_plays_loadFrom
    (c := .ofBatch none f.store.chunks.database.rounds batch) hyields hdatas hreplies hrounds
  refine ⟨log, ?_, hlog⟩
  unfold loadChunks
  dsimp only
  rw [hquery]
  have hiter : (f.store.chunks.search ⟨[("files_id", .objectId id)]⟩ (some ⟨[("n", .int32 1)]⟩)).iter.Plays
      [⟨k, .short, reply⟩] (.ofSource (.ofBatch none f.store.chunks.database.rounds batch)) :=
    Program.plays_bind.mpr ⟨_, _, [], (List.append_nil _).symm, hplays reply batch hbatch, .done _⟩
  exact Call.plays_bind.mpr (.inr ⟨_, [⟨k, .short, reply⟩], log, rfl, Call.plays_lift hiter, hload⟩)

/-- The first read of an open file loads the chunks, and then goes on as every other. -/
theorem read_of_unloaded (hopened : f.closed = false) (hreading : f.access = .reading) (hloaded : f.loaded = false)
    (room : Nat) :
    f.read room = f.loadChunks.run.bind fun
      | .error e => .done (.error e, f)
      | .ok chunks => { f with chunks, loaded := true }.read room := by
  unfold read
  rw [hopened, hreading, hloaded]
  rfl

/-- An opened file of which nothing was read yet. -/
structure Unread (f : File) : Prop where
  opened : f.closed = false
  reading : f.access = .reading
  loaded : f.loaded = false
  position : f.position = .start

theorem read_of_unread (h : f.Unread) (room : Nat) :
    f.read room = f.loadChunks.run.bind fun
      | .error e => .done (.error e, f)
      | .ok chunks => { f with chunks, loaded := true }.read room :=
  read_of_unloaded h.opened h.reading h.loaded room

theorem readEach_of_unread (h : f.Unread) (room : Nat) (rooms : List Nat) :
    f.readEach (room :: rooms) = f.loadChunks.run.bind fun
      | .error e => (f.readEach rooms).bind fun (outcomes, g) => .done (.error e :: outcomes, g)
      | .ok chunks => { f with chunks, loaded := true }.readEach (room :: rooms) := by
  rw [readEach, read_of_unread h, Program.bind_assoc]
  refine congrArg _ (funext fun outcome => ?_)
  cases outcome <;> rfl

/-- The reads of an opened file, of which there is one at least, load chunks that are as long as the file
is said to be, and give their content piece by piece. -/
theorem exists_plays_readEach (h : f.Unread) {log : List Exchange} {chunks : List Bytes}
    (hload : f.loadChunks.run.Plays log (.ok chunks)) (hlength : f.length = chunks.flatten.length)
    {rooms : List Nat} (hrooms : rooms ≠ []) :
    ∃ g, (f.readEach rooms).Plays log ((pieces chunks.flatten rooms).map .ok, g) := by
  cases rooms with
  | nil => exact absurd rfl hrooms
  | cons room rooms =>
    have hloaded : ({ f with chunks, loaded := true } : File).Loaded chunks.flatten := by
      refine ⟨⟨h.opened, h.reading, rfl⟩, ?_⟩
      dsimp only
      rw [h.position, hlength]
      exact Position.before_start chunks
    obtain ⟨g, hg⟩ := readEach_of_loaded hloaded (room :: rooms)
    refine ⟨g, ?_⟩
    rw [readEach_of_unread h]
    refine Program.plays_bind.mpr ⟨.ok chunks, log, [], (List.append_nil _).symm, hload, ?_⟩
    dsimp only
    rw [hg]
    exact .done _

end File
end Blob
end DocClient
