import DocClient.Blob.Store
import DocClient.Proofs.Blob.Attempt
import DocClient.Proofs.Blob.Loading
import DocClient.Proofs.Time

/-! Opening a stored file. Main statements: `ofDescription_sentDescription`, which says what of a file that was
written comes back in one that is opened on its description, and `exists_plays_openId`. -/
namespace DocClient

namespace Blob.File

variable {f : File} {s : Store}

/-- What comes back of a file, without metadata, in one that is opened on its description. -/
def reopened (f : File) (s : Store) : File :=
  { store := s, access := .reading, id := f.id, name := f.name, contentType := f.contentType,
    chunkSize := f.chunkSize, length := f.length, uploaded := f.uploaded.keptMillis, md5 := f.md5,
    metadata := none, chunks := [], chunkIds := [], chunksStored := false, loaded := false,
    position := .start, err := none, closed := false }

theorem unread_reopened (f : File) (s : Store) : (f.reopened s).Unread := ⟨rfl, rfl, rfl, rfl⟩

/-- A file is opened on its description as it was written, but for the instant, which is kept in milliseconds. -/
theorem ofDescription_sentDescription {id : Oid} (hid : f.id = .objectId (.ofOid id))
    (hsize : 0 < f.chunkSize) (hsize' : f.chunkSize ≤ 0x7fffffff) (hlength : f.length < 0x8000000000000000)
    (huploaded : f.uploaded.Valid) (hmetadata : f.metadata = none) (s : Store) :
    ofDescription s (Value.ofDocument f.sentDescription) = f.reopened s := by
  have hpairs : (Fields.names (f.descriptionFields f.id.outbound)).Nodup := by
    change ["_id", "filename", "contentType", "length", "chunkSize", "uploadDate", "md5"].Nodup
    decide
  have hfields : f.sentDescription.fields = Bson.writtenFields (f.descriptionFields f.id.outbound) := by
    have hdescription : f.description f.id.outbound = ⟨f.descriptionFields f.id.outbound⟩ := by
      unfold description
      rw [hmetadata]
      exact congrArg Document.mk (Fields.collect_of_nodup hpairs)
    rw [sentDescription, hdescription]
    rfl
  have hnames : f.sentDescription.names.Nodup := by
    rw [Document.names, hfields, Bson.names_writtenFields]
    exact hpairs
  have hget : ∀ name b, Fields.get? (f.descriptionFields f.id.outbound) name = some b →
      (Value.ofDocument f.sentDescription).get? name = some b.written.inbound := by
    intro name b h
    rw [Value.get?_ofDocument hnames, get?_sentDescription h]
    rfl
  have hnone : (Value.ofDocument f.sentDescription).get? "metadata" = none := by
    rw [Value.get?_ofDocument hnames, Document.get?, hfields, Bson.get?_writtenFields]
    rfl
  have hlength' : integerIn (Value.ofDocument f.sentDescription) "length" = f.length := by
    unfold integerIn
    rw [hget "length" (.int64 (Int64.ofInt f.length)) rfl]
    exact Int64.toInt_ofInt_of_le (by omega) (by omega)
  have hchunkSize : integerIn (Value.ofDocument f.sentDescription) "chunkSize" = f.chunkSize := by
    have hmin : min (f.chunkSize : Int) 0x7fffffff = f.chunkSize := by omega
    unfold integerIn
    rw [hget "chunkSize" (.int32 (Int32.ofInt (min f.chunkSize 0x7fffffff))) rfl, hmin]
    exact (Int32.toInt_toInt64 _).trans (toInt_int32 (by omega))
  have hid' : f.id.outbound.written.inbound = f.id := by
    rw [hid]
    simp [Value.outbound, Bson.written, Bson.inbound]
  have huploaded' : (Bson.dateTime (Int64.ofInt f.uploaded.millis)).written.inbound =
      .time f.uploaded.keptMillis :=
    congrArg Value.time ((congrArg Time.ofMillisClamped (Time.toInt_millis huploaded)).trans
      (Time.ofMillisClamped_millis huploaded))
  unfold ofDescription textIn reopened
  rw [hlength', hchunkSize, hnone, hget "_id" f.id.outbound rfl, hget "filename" (.string f.name) rfl,
    hget "contentType" (.string f.contentType) rfl, hget "md5" (.string f.md5) rfl,
    hget "uploadDate" (.dateTime (Int64.ofInt f.uploaded.millis)) rfl, hid', huploaded', if_pos (by omega)]
  rfl

/-- A file is opened by its identifier on the first description that the reply brings. -/
theorem exists_plays_openId (s : Store) (id : Oid) :
    ∃ k : Command, k.Searches s.files ⟨[("_id", .objectId id)]⟩ none ∧
      ∀ reply batch doc rest, reply.batch "firstBatch" = .ok batch → batch.documents = doc :: rest →
        (s.openId (ObjectId.ofOid id)).run.Plays [⟨k, .short, reply⟩]
          (.ok (ofDescription s (Value.ofDocument doc))) := by
  obtain ⟨k, hsearches, hplays⟩ := Collection.exists_plays_one s.files none
    (Document.isWritable_objectId (show Bson.isTerminable "_id" = true by decide) id) nofun
  have hquery : s.files.findId (ObjectId.ofOid id) = s.files.search ⟨[("_id", .objectId id)]⟩ none := by
    have hfilter : idFilter (ObjectId.ofOid id) = .ok ⟨[("_id", .objectId id)]⟩ := by
      change Except.ok (Document.ofPairs [("_id", (Value.objectId (.ofOid id)).outbound)]) = _
      simp [Value.outbound, Document.ofPairs, Fields.collect, Fields.put]
    unfold Collection.findId
    rw [hfilter]
    rfl
  refine ⟨k, hsearches, ?_⟩
  intro reply batch doc rest hbatch hdocs
  unfold Store.openId
  rw [hquery]
  exact Call.plays_bind.mpr
    (.inr ⟨_, _, [], (List.append_nil _).symm, hplays reply batch doc rest hbatch hdocs, .done _⟩)

end Blob.File
end DocClient
