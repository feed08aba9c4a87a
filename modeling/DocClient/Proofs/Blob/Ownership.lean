import DocClient.Proofs.Blob.Progress
import DocClient.Proofs.Blob.Tracking

/-! Whose the stored chunks are. The chunks carry the identifier that a file had when they were stored, and
the description the one that it has when it is inserted itself, which may be later. Main statement:
`owned_iff_of_described`. -/
namespace DocClient.Blob

/-- Whether chunks belong to a file by the identifier in its description. -/
def Owns (description : Document) (chunks : List Document) : Prop :=
  ∀ doc ∈ chunks, doc.get? "files_id" = description.get? "_id"

variable {fresh : Oid} {now : Time} {name : String} {es before after : List Event} {g : File}
  {log : List Exchange} {r : Except Error Unit} {x : Exchange}

/-- A description that was sent belongs to a file whose chunks were stored, and states the identifier in
force at the close that sent it. -/
theorem described_of_ran (db : Database) (start : String)
    (hran : (File.create (db.blobs start) fresh now name).Ran es g)
    (hsplit : es = before ++ .close log r :: after) (hx : x ∈ log)
    (hfor : x.command.IsFor "insert" (db.blobs start).files) :
    g.chunksStored = true ∧ ∃ d, x.command.Inserts (db.blobs start).files [d] ∧
      d.get? "_id" = some (identified (.objectId (.ofOid fresh)) before).outbound.written := by
  rw [hsplit, List.append_cons] at hran
  obtain ⟨b, hfirst, hrest⟩ := File.ran_append.mp hran
  obtain ⟨a, hbefore, hdoes⟩ := File.ran_snoc.mp hfirst
  have hstore : a.store = db.blobs start := File.store_of_ran hbefore
  obtain ⟨_, _, fresh', heq, hattempt⟩ := File.attempt_of_does hdoes rfl
  cases heq
  have htracks := tracks_of_ran hbefore (hattempt.pending_of_mem hx).opened
  have names : a.store.files.name ≠ a.store.chunks.name := hstore ▸ blobs_names_ne db start
  rw [← hstore] at hfor
  obtain ⟨hinserts, hstored, -⟩ := hattempt.describes names hx hfor
  refine ⟨File.stored_of_ran hrest hstored, b.sentDescription, hstore ▸ hinserts, ?_⟩
  rw [← htracks.id, ← hattempt.kept.2.1]
  exact File.get?_sentDescription (f := b) (b := b.id.outbound) rfl

/-- A description that was sent owns the chunks that were stored exactly when the identifier in force was the
same at the close that stored the chunks and at the close that sent the description. -/
theorem owned_iff_of_described (db : Database) (start : String)
    (hran : (File.create (db.blobs start) fresh now name).Ran es g)
    (hsplit : es = before ++ .close log r :: after) (hx : x ∈ log)
    (hfor : x.command.IsFor "insert" (db.blobs start).files) :
    ∃ d chunks earlier, x.command.Inserts (db.blobs start).files [d] ∧
      (∃ log' r' later, StoredAt (db.blobs start) es earlier log' r' later ∧
        chunks = log'.flatMap (·.taken (db.blobs start).chunks)) ∧
      chunks ≠ [] ∧
      (Owns d chunks ↔
        (identified (.objectId (.ofOid fresh)) earlier).outbound.written =
          (identified (.objectId (.ofOid fresh)) before).outbound.written) := by
  obtain ⟨hstored, d, hinserts, hid⟩ := described_of_ran db start hran hsplit hx hfor
  obtain ⟨earlier, log', r', later, ids, hat, hdata, hsize, hids, -, htaken⟩ :=
    storedAt_of_ran (blobs_names_ne db start) hran hstored
  have hchunks : split g.chunkSize (accepted earlier) ≠ [] := by
    rw [Ne, split_eq_nil_iff hsize]
    exact hdata
  have hne : log'.flatMap (·.taken (db.blobs start).chunks) ≠ [] :=
    htaken ▸ documentsFrom_ne_nil hids hchunks
  have hfilesId : ∀ doc ∈ log'.flatMap (·.taken (db.blobs start).chunks), doc.get? "files_id" =
      some (identified (.objectId (.ofOid fresh)) earlier).outbound.written := by
    intro doc hdoc
    rw [htaken] at hdoc
    obtain ⟨n, id, -, data, -, rfl⟩ := exists_of_mem_documentsFrom hdoc
    exact get?_chunkDocument_filesId
  refine ⟨d, _, earlier, hinserts, ⟨log', r', later, hat, rfl⟩, hne, ?_⟩
  constructor
  · intro howns
    obtain ⟨doc, hdoc⟩ := List.exists_mem_of_ne_nil _ hne
    have hsame := howns doc hdoc
    rw [hfilesId doc hdoc, hid] at hsame
    exact Option.some.inj hsame
  · intro hsame doc hdoc
    rw [hfilesId doc hdoc, hid, hsame]

/-- A file whose description is refused once, renamed, and closed again. -/
private theorem exists_ran_renamed : ∃ (first last : List Exchange) (x : Exchange) (g h : File),
    Sample.file.Ran [.write [97] (.ok 1), .close first (.error (.transport .io)),
      .setId (Value.string "b")] g ∧
    g.Does (.close last (.ok ())) h ∧ x ∈ last ∧
    x.command.IsFor "insert" (Sample.database.blobs "fs").files ∧ x.reply.inserted = .ok 1 ∧
    ∃ doc ∈ first.flatMap (·.taken (Sample.database.blobs "fs").chunks),
      doc.get? "files_id" = some (.objectId (Sample.fresh 0)) := by
  let f : File := (Sample.file.write [97]).2
  have hwrite : Sample.file.Ran ([] ++ [.write [97] (.ok 1)]) f :=
    .snoc .nil (show Sample.file.Does (.write [97] (.ok 1)) f from rfl)
  have hdocs : (f.prepared Sample.fresh).chunkDocs.length ≤ 1 := by
    have hone : (split defaultChunkSize [97]).length ≤ 1 := (length_split_le_iff (by decide)).mpr (by decide)
    rw [File.length_chunkDocs]
    exact Nat.le_trans (Nat.min_le_right _ _) hone
  obtain ⟨index, clear, insert, describe, hindex, hclear, hinsert, hdescribe, -, hsucceeds⟩ :=
    File.exists_plays_close (f := f) ⟨rfl, rfl, rfl, by decide⟩ rfl
      ⟨⟨_, rfl⟩, ⟨_, rfl⟩, by decide, rfl, nofun⟩ Sample.fresh
  let k : File := (f.prepared Sample.fresh).marked
  have hclose := hsucceeds _ _ _ .dropped 1 1 Sample.indexed_done Sample.removed_counted
    Sample.inserted_counted hdocs
  have hfailed : f.Does (.close _ (.error (.transport .io))) k := ⟨Sample.fresh, hclose⟩
  let g : File := k.setId (Value.string "b")
  have hran := (hwrite.snoc hfailed).snoc (show k.Does (.setId (Value.string "b")) g from rfl)
  obtain ⟨describe', hdescribe', hplays⟩ :=
    File.exists_plays_close_again (f := g) ⟨rfl, rfl, rfl, by decide⟩ rfl
      ⟨⟨_, rfl⟩, ⟨_, rfl⟩, by decide, rfl, nofun⟩
  have hchunks : f.chunks ≠ [] := by
    change split defaultChunkSize [97] ≠ []
    rw [Ne, split_eq_nil_iff (by decide)]
    decide
  have hids : (f.prepared Sample.fresh).chunkIds ≠ [] := by
    change f.chunks.mapIdx (fun i _ => Sample.fresh i) ≠ []
    simpa using hchunks
  have hdocuments : (f.prepared Sample.fresh).chunkDocs ≠ [] := documentsFrom_ne_nil hids hchunks
  obtain ⟨doc, hdoc⟩ := List.exists_mem_of_ne_nil _ hdocuments
  have hfilesId : doc.get? "files_id" = some (.objectId (Sample.fresh 0)) := by
    obtain ⟨n, id, -, data, -, rfl⟩ := exists_of_mem_documentsFrom hdoc
    exact get?_chunkDocument_filesId
  rw [← (File.attempt_of_plays hclose).taken_eq (blobs_names_ne _ _) rfl rfl] at hdoc
  exact ⟨_, _, _, g, _, hran, ⟨Sample.fresh, hplays Sample.counted⟩, List.mem_singleton_self _,
    hdescribe'.1, Sample.inserted_counted, doc, hdoc, hfilesId⟩

theorem owned_iff_of_renamed : ∃ (es : List Event) (last : List Exchange) (x : Exchange) (h : File),
    Sample.file.Ran (es ++ [.close last (.ok ())]) h ∧ x ∈ last ∧ x.reply.inserted = .ok 1 ∧
    ∃ d chunks earlier, x.command.Inserts (Sample.database.blobs "fs").files [d] ∧
      (∃ log' r' later, StoredAt (Sample.database.blobs "fs") (es ++ [.close last (.ok ())]) earlier log' r'
          later ∧
        chunks = log'.flatMap (·.taken (Sample.database.blobs "fs").chunks)) ∧
      chunks ≠ [] ∧
      (Owns d chunks ↔
        (identified Sample.file.id earlier).outbound.written =
          (identified Sample.file.id es).outbound.written) := by
  obtain ⟨first, last, x, g, h, hran, hlast, hx, hfor, hreply, -⟩ := exists_ran_renamed
  exact ⟨_, last, x, h, hran.snoc hlast, hx, hreply,
    owned_iff_of_described Sample.database "fs" (hran.snoc hlast) rfl hx hfor⟩

/-- A file that is renamed after its chunks were stored is found under the new identifier, and its chunks are
not. -/
theorem renamed_file_orphans_chunks : ∃ (first last : List Exchange) (x : Exchange) (g h : File)
    (d : Document) (chunks : List Document),
    Sample.file.Ran [.write [97] (.ok 1), .close first (.error (.transport .io)),
      .setId (Value.string "b")] g ∧
    g.Does (.close last (.ok ())) h ∧ x ∈ last ∧ x.reply.inserted = .ok 1 ∧
    x.command.Inserts (Sample.database.blobs "fs").files [d] ∧
    chunks = first.flatMap (·.taken (Sample.database.blobs "fs").chunks) ∧
    d.get? "_id" = some (.string "b") ∧
    (∃ doc ∈ chunks, doc.get? "files_id" = some (.objectId (Sample.fresh 0))) ∧ ¬ Owns d chunks := by
  obtain ⟨first, last, x, g, h, hran, hlast, hx, hfor, hreply, doc, hdoc, hfilesId⟩ := exists_ran_renamed
  obtain ⟨-, d, hinserts, hid⟩ := described_of_ran Sample.database "fs" (hran.snoc hlast) rfl hx hfor
  refine ⟨first, last, x, g, h, d, _, hran, hlast, hx, hreply, hinserts, rfl, hid, ⟨doc, hdoc, hfilesId⟩, ?_⟩
  intro howns
  have := howns doc hdoc
  rw [hfilesId, hid] at this
  cases this

end DocClient.Blob
