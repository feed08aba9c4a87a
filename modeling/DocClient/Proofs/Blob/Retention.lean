import DocClient.Proofs.Blob.Progress
import DocClient.Proofs.Blob.Tracking

/-! What is kept of the data that a file accepts, when it is closed at last. A close that fails fixes how
many chunks are stored and the digest of the file, and data that is accepted later goes by neither. Main
statement: `faithful_iff_of_finished`. -/
namespace DocClient.Blob

/-- The documents of a file hold some data, and its description states its length and its digest. -/
structure Faithful (data : Bytes) (chunks : List Document) (description : Document) : Prop where
  content : contentOf chunks = data
  length : description.get? "length" = some (.int64 (Int64.ofInt data.length))
  md5 : description.get? "md5" = some (.string (Md5.hexDigest data))

variable {s : Store} {fresh : Oid} {now : Time} {name : String} {es : List Event} {g h : File}
  {last : List Exchange}

private theorem take_eq_append_iff {data more : Bytes} {n : Nat} :
    data.take n = data ++ more ↔ more = [] ∧ data.length ≤ n := by
  constructor
  · intro heq
    have hlength := congrArg List.length heq
    rw [List.length_take, List.length_append] at hlength
    refine ⟨List.eq_nil_of_length_eq_zero ?_, ?_⟩ <;> omega
  · rintro ⟨rfl, hn⟩
    rw [List.take_of_length_le hn, List.append_nil]

/-- What was kept of a history that a successful close ends: the documents of the chunks, and the
description. -/
structure Kept (s : Store) (size : Nat) (es : List Event) (last : List Exchange)
    (before after : List Event) (chunks : List Document) (description : Document) : Prop where
  stored : ∃ log r, StoredAt s (es ++ [.close last (.ok ())]) before log r after ∧
    chunks = log.flatMap (·.taken s.chunks)
  begun : accepted before ≠ []
  described : ∃ x ∈ last, x.command.Inserts s.files [description] ∧ ∃ n, x.reply.inserted = .ok n
  content : contentOf chunks = (accepted before).take (size * (split size (early es)).length)
  length : description.get? "length" = some (.int64 (Int64.ofInt (accepted es).length))
  md5 : description.get? "md5" = some (.string (Md5.hexDigest (early es)))

/-- A file that is finished with content has kept the beginning of what was accepted before its chunks were
stored: as many chunks as there were at the first close. -/
theorem exists_kept_of_finished (db : Database) (start : String)
    (hran : (File.create (db.blobs start) fresh now name).Ran es g)
    (hplain : ∀ e ∈ es, e.isPlain = true) (hfirst : ∀ e ∈ es, e.finishes = false)
    (hlast : g.Does (.close last (.ok ())) h) (hdata : accepted es ≠ [])
    (hfew : (split g.chunkSize (accepted es)).length < chunkLimit) :
    ∃ before after chunks d, Kept (db.blobs start) g.chunkSize es last before after chunks d := by
  have names := blobs_names_ne db start
  obtain ⟨hopened, htrusted⟩ := opened_of_plain hran hplain hfirst
  have htracks := tracks_of_ran hran hopened
  have hstore : g.store = db.blobs start := htracks.store
  have hpending := htracks.pending htrusted hdata
  obtain ⟨_, _, fresh', heq, hattempt⟩ := File.attempt_of_does hlast rfl
  cases heq
  obtain ⟨y, hy, hfor⟩ := hattempt.exists_describing hpending
  obtain ⟨hinserts, hstored, hreply⟩ := hattempt.describes (by rw [hstore]; exact names) hy hfor
  obtain ⟨k, hk, rfl⟩ := htracks.attempt hpending hattempt
  obtain ⟨before, log, r, after, ids, hat, hbefore, hsize, hids, hcount, htaken⟩ :=
    storedAt_of_ran names (.snoc hran hlast) hstored
  obtain ⟨-, -, hsame, -⟩ := hattempt.kept
  have htried : Tried (es ++ [.close last (.ok ())]) k := by
    obtain ⟨-, hunstored, -⟩ | htried := hk.tried
    · exact absurd (hstored.symm.trans hunstored) (by decide)
    · exact htried
  rw [hsame] at hsize hcount htaken
  rw [early_snoc_close] at hcount
  have haccepted := hat.accepted_eq
  rw [accepted_snoc_close] at haccepted
  have hcontent : contentOf (log.flatMap (·.taken (db.blobs start).chunks)) =
      (accepted before).take (g.chunkSize * (split g.chunkSize (early es)).length) := by
    have hlength : (accepted before).length ≤ (accepted es).length := by
      rw [haccepted, List.length_append]
      omega
    have hchunks := length_split_mono hsize hlength
    have hlimit : 0 + (split g.chunkSize (accepted before)).length ≤ chunkLimit := by omega
    rw [htaken, chunkDocuments, contentOf_documentsFrom hlimit, flatten_take_split hsize, hcount]
  have hlength : k.shut.sentDescription.get? "length" =
      some (.int64 (Int64.ofInt (accepted es).length)) := by
    have := hk.length
    rw [accepted_snoc_close] at this
    rw [← this]
    exact File.get?_sentDescription (f := k.shut) (b := .int64 (Int64.ofInt k.length)) rfl
  have hmd5 : k.shut.sentDescription.get? "md5" = some (.string (Md5.hexDigest (early es))) := by
    have := htried.digest
    rw [early_snoc_close] at this
    rw [← this]
    exact File.get?_sentDescription (f := k.shut) (b := .string k.md5) rfl
  exact ⟨before, after, _, k.shut.sentDescription, {
    stored := ⟨log, r, hat, rfl⟩
    begun := hbefore
    described := ⟨y, hy, hstore ▸ hinserts, hreply.mp rfl⟩
    content := hcontent
    length := hlength
    md5 := hmd5 }⟩

theorem Kept.accepted_eq {size : Nat} {before after : List Event} {chunks : List Document} {d : Document}
    (hkept : Kept s size es last before after chunks d) : accepted es = accepted before ++ accepted after := by
  obtain ⟨log, r, hat, -⟩ := hkept.stored
  rw [← hat.accepted_eq, accepted_snoc_close]

/-- All data of a finished file was kept exactly when nothing was accepted after the chunks were stored, the
chunks that there were at the first close have room for all of it, and the digest is that of what was
accepted before the first close. -/
theorem faithful_iff_of_finished (db : Database) (start : String)
    (hran : (File.create (db.blobs start) fresh now name).Ran es g)
    (hplain : ∀ e ∈ es, e.isPlain = true) (hfirst : ∀ e ∈ es, e.finishes = false)
    (hlast : g.Does (.close last (.ok ())) h) (hdata : accepted es ≠ [])
    (hfew : (split g.chunkSize (accepted es)).length < chunkLimit) :
    ∃ before after chunks d, Kept (db.blobs start) g.chunkSize es last before after chunks d ∧
      (Faithful (accepted es) chunks d ↔
        accepted after = [] ∧
        (accepted es).length ≤ g.chunkSize * (split g.chunkSize (early es)).length ∧
        Md5.hexDigest (accepted es) = Md5.hexDigest (early es)) := by
  obtain ⟨before, after, chunks, d, hkept⟩ :=
    exists_kept_of_finished db start hran hplain hfirst hlast hdata hfew
  refine ⟨before, after, chunks, d, hkept, ?_⟩
  have haccepted := hkept.accepted_eq
  constructor
  · rintro ⟨hall, -, hdigest⟩
    rw [hkept.content, haccepted, take_eq_append_iff] at hall
    obtain ⟨hafter, hroom⟩ := hall
    rw [hkept.md5] at hdigest
    refine ⟨hafter, ?_, ?_⟩
    · rw [haccepted, hafter, List.append_nil]
      exact hroom
    · simpa using hdigest.symm
  · rintro ⟨hafter, hroom, hdigest⟩
    refine ⟨?_, hkept.length, ?_⟩
    · rw [haccepted, hafter, List.append_nil] at hroom
      rw [hkept.content, haccepted, take_eq_append_iff]
      exact ⟨hafter, hroom⟩
    · rw [hkept.md5, hdigest]

/-- A file of chunks of one byte that is closed between two writes of a byte, with the connection lost. -/
private theorem exists_ran_late : ∃ (first last : List Exchange) (g h : File),
    Sample.file.Ran [.setChunkSize 1, .write [97] (.ok 1), .close first (.error (.transport .io)),
      .write [98] (.ok 1)] g ∧
    g.chunkSize = 1 ∧ g.Does (.close last (.ok ())) h := by
  let f : File := ((Sample.file.setChunkSize 1).write [97]).2
  have hsize : Sample.file.Ran ([] ++ [.setChunkSize 1]) (Sample.file.setChunkSize 1) :=
    .snoc .nil (show Sample.file.Does (.setChunkSize 1) _ from rfl)
  have hwrite : Sample.file.Ran ([.setChunkSize 1] ++ [.write [97] (.ok 1)]) f :=
    .snoc hsize (show (Sample.file.setChunkSize 1).Does (.write [97] (.ok 1)) f from rfl)
  obtain ⟨first, hclose⟩ := Sample.exists_close_dropped (f := f) ⟨rfl, rfl, rfl, by decide⟩ rfl
    ⟨⟨_, rfl⟩, ⟨_, rfl⟩, by decide, rfl, nofun⟩
  let g : File := ((f.prepared Sample.fresh).write [98]).2
  have hran := (hwrite.snoc hclose).snoc
    (show (f.prepared Sample.fresh).Does (.write [98] (.ok 1)) g from rfl)
  have htracks := tracks_of_ran hran rfl
  have hdocs : (g.prepared Sample.fresh).chunkDocs.length ≤ 1 := by
    have hcount := (htracks.tried_prepared (by decide) [] (.ok ()) Sample.fresh).count
    have hearly : (split 1 [97]).length ≤ 1 := (length_split_le_iff (by decide)).mpr (by decide)
    rw [File.length_chunkDocs, hcount, File.prepared_chunkSize]
    exact Nat.le_trans (Nat.min_le_left _ _) hearly
  obtain ⟨last, hlast⟩ := Sample.exists_close_done (f := g) ⟨rfl, rfl, rfl, by decide⟩ rfl
    ⟨⟨_, rfl⟩, ⟨_, rfl⟩, by decide, rfl, nofun⟩ hdocs
  exact ⟨first, last, g, _, hran, rfl, hlast⟩

private theorem few_late {size : Nat} (h : size = 1) : (split size [97, 98]).length < chunkLimit := by
  have htwo : (split 1 [97, 98]).length ≤ 2 := (length_split_le_iff (by decide)).mpr (by decide)
  rw [h]
  exact Nat.lt_of_le_of_lt htwo (by decide)

theorem faithful_iff_of_late_byte : ∃ (es : List Event) (last : List Exchange) (g h : File),
    Sample.file.Ran es g ∧ g.Does (.close last (.ok ())) h ∧ accepted es = [97, 98] ∧ early es = [97] ∧
    ∃ before after chunks d, Kept (Sample.database.blobs "fs") g.chunkSize es last before after chunks d ∧
      (Faithful (accepted es) chunks d ↔
        accepted after = [] ∧
        (accepted es).length ≤ g.chunkSize * (split g.chunkSize (early es)).length ∧
        Md5.hexDigest (accepted es) = Md5.hexDigest (early es)) := by
  obtain ⟨first, last, g, h, hran, hsize, hlast⟩ := exists_ran_late
  exact ⟨_, last, g, h, hran, hlast, rfl, rfl, faithful_iff_of_finished Sample.database "fs" hran
    (by simp [Event.isPlain]) (by simp [Event.finishes]) hlast (by simp [accepted, Event.accepted])
    (few_late hsize)⟩

/-- A byte that is written after a close failed is not among the chunks when the file is finished, though it
was accepted and counts in the description. -/
theorem late_byte_lost : ∃ (first last : List Exchange) (g h : File) (before after : List Event)
    (chunks : List Document) (d : Document),
    Sample.file.Ran [.setChunkSize 1, .write [97] (.ok 1), .close first (.error (.transport .io)),
      .write [98] (.ok 1)] g ∧
    g.Does (.close last (.ok ())) h ∧
    Kept (Sample.database.blobs "fs") g.chunkSize [.setChunkSize 1, .write [97] (.ok 1),
      .close first (.error (.transport .io)), .write [98] (.ok 1)] last before after chunks d ∧
    contentOf chunks = [97] ∧ d.get? "length" = some (.int64 2) ∧
    ¬ Faithful [97, 98] chunks d := by
  obtain ⟨first, last, g, h, hran, hsize, hlast⟩ := exists_ran_late
  obtain ⟨before, after, chunks, d, hkept⟩ := exists_kept_of_finished Sample.database "fs" hran
    (by simp [Event.isPlain]) (by simp [Event.finishes]) hlast (by simp [accepted, Event.accepted]) (few_late hsize)
  have hcontent : contentOf chunks = [97] := by
    have hone : split 1 [97] = [[97]] := split_of_length_le (by decide) (by decide)
    have hkeeps : contentOf chunks = (accepted before).take (g.chunkSize * (split g.chunkSize [97]).length) :=
      hkept.content
    have haccepted : [97, 98] = accepted before ++ accepted after := hkept.accepted_eq
    rw [hkeeps, hsize, hone]
    cases hbefore : accepted before with
    | nil => exact absurd hbefore hkept.begun
    | cons b rest =>
      rw [hbefore] at haccepted
      obtain ⟨rfl, -⟩ := List.cons.inj haccepted
      rfl
  refine ⟨first, last, g, h, before, after, chunks, d, hran, hlast, hkept, hcontent, hkept.length, ?_⟩
  intro hfaithful
  have := hcontent.symm.trans hfaithful.content
  simp at this

end DocClient.Blob
