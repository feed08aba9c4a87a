import DocClient.Blob.File
import DocClient.Proofs.Fields

/-! The documents of a blob as a reader finds them: the chunks with their numbers and payloads
(`contentOf_documentsFrom`), and the fields of the description (`get?_description`). -/
namespace DocClient

/-- A number that an integer of thirty-two bits holds is kept in it. -/
theorem toInt_int32 {n : Nat} (h : n < 0x80000000) : (Int32.ofInt n).toInt = n :=
  Int32.toInt_ofInt_of_le (by omega) (by omega)

namespace Blob

/-- Numbers from zero up to this one are the numbers of chunks. -/
def chunkLimit : Nat := 0x80000000

/-- The number and the payload in the document of a chunk. -/
def numbered? (doc : Document) : Option (Int × Bytes) :=
  match doc.get? "n", doc.get? "data" with
  | some (.int32 n), some (.binary _ data) => some (n.toInt, data)
  | _, _ => none

/-- The payloads of chunks, one after another in the order of their numbers. -/
def contentOf (docs : List Document) : Bytes :=
  ((docs.filterMap numbered?).mergeSort fun a b => a.1 ≤ b.1).flatMap Prod.snd

def chunkDocument (filesId : Bson) (n : Nat) (id : Oid) (data : Bytes) : Document :=
  .ofPairs [("_id", .objectId id), ("files_id", filesId), ("n", .int32 (Int32.ofInt n)),
    ("data", Bson.genericBinary data)]

section ChunkDocument

variable {filesId : Bson} {n : Nat} {id : Oid} {data : Bytes}

theorem chunkDocument_fields : (chunkDocument filesId n id data).fields =
    [("_id", .objectId id), ("files_id", filesId), ("n", .int32 (Int32.ofInt n)),
      ("data", Bson.genericBinary data)] := by
  unfold chunkDocument Document.ofPairs
  refine Fields.collect_of_nodup ?_
  change ["_id", "files_id", "n", "data"].Nodup
  decide

@[simp] theorem get?_chunkDocument_id : (chunkDocument filesId n id data).get? "_id" = some (.objectId id) := by
  simp [Document.get?, chunkDocument_fields]

@[simp] theorem get?_chunkDocument_filesId :
    (chunkDocument filesId n id data).get? "files_id" = some filesId := by
  simp [Document.get?, chunkDocument_fields]

theorem numbered?_chunkDocument (h : n < chunkLimit) :
    numbered? (chunkDocument filesId n id data) = some ((n : Int), data) := by
  have hn : (chunkDocument filesId n id data).get? "n" = some (.int32 (Int32.ofInt n)) := by
    simp [Document.get?, chunkDocument_fields]
  have hdata : (chunkDocument filesId n id data).get? "data" = some (Bson.genericBinary data) := by
    simp [Document.get?, chunkDocument_fields]
  unfold numbered?
  rw [hn, hdata]
  exact congrArg (fun m => some (m, data)) (toInt_int32 h)

@[simp] theorem written_chunkDocument :
    (chunkDocument filesId n id data).written = chunkDocument filesId.written n id data := by
  have hfields : Bson.writtenFields (chunkDocument filesId n id data).fields =
      (chunkDocument filesId.written n id data).fields := by
    simp [chunkDocument_fields, Bson.writtenFields, Bson.written, Bson.genericBinary]
  exact congrArg Document.mk hfields

theorem isWritable_chunkDocument (h : filesId.isWritable = true) :
    (chunkDocument filesId n id data).isWritable = true := by
  have hnames : ∀ name ∈ ["_id", "files_id", "n", "data"], Bson.isTerminable name = true := by decide
  simp only [List.forall_mem_cons] at hnames
  simp [Document.isWritable, chunkDocument_fields, Bson.fieldsWritable, Bson.isWritable, hnames, h,
    Bson.genericBinary]

end ChunkDocument

variable {filesId : Bson} {n : Nat} {ids : List Oid} {chunks : List Bytes}

theorem written_documentsFrom : (documentsFrom filesId n ids chunks).map Document.written =
    documentsFrom filesId.written n ids chunks := by
  induction ids generalizing n chunks with
  | nil => rfl
  | cons id ids ih =>
    cases chunks with
    | nil => rfl
    | cons data rest =>
      have hrest : (documentsFrom filesId (n + 1) ids rest).map Document.written =
          documentsFrom filesId.written (n + 1) ids rest := ih
      exact congrArg₂ List.cons written_chunkDocument hrest

/-- Every document of a chunk is a document of one chunk, with an identifier from the list. -/
theorem exists_of_mem_documentsFrom {doc : Document} (h : doc ∈ documentsFrom filesId n ids chunks) :
    ∃ m, ∃ id ∈ ids, ∃ data ∈ chunks, doc = chunkDocument filesId m id data := by
  induction ids generalizing n chunks with
  | nil => cases h
  | cons id ids ih =>
    cases chunks with
    | nil => cases h
    | cons data rest =>
      obtain rfl | h := List.mem_cons.mp h
      · exact ⟨n, id, by simp, data, by simp, rfl⟩
      · obtain ⟨m, id', hid, data', hdata, rfl⟩ := ih h
        exact ⟨m, id', by simp [hid], data', by simp [hdata], rfl⟩

theorem length_documentsFrom :
    (documentsFrom filesId n ids chunks).length = min ids.length chunks.length := by
  induction ids generalizing n chunks with
  | nil => simp [documentsFrom]
  | cons id ids ih =>
    cases chunks with
    | nil => simp [documentsFrom]
    | cons data rest => simp [documentsFrom, ih, Nat.succ_min_succ]

theorem documentsFrom_ne_nil (hids : ids ≠ []) (hchunks : chunks ≠ []) :
    documentsFrom filesId n ids chunks ≠ [] := by
  cases ids with
  | nil => exact absurd rfl hids
  | cons id ids =>
    cases chunks with
    | nil => exact absurd rfl hchunks
    | cons data rest => exact List.cons_ne_nil _ _

/-- The chunks that have an identifier are numbered one by one. -/
theorem numbered?_documentsFrom (h : n + chunks.length ≤ chunkLimit) :
    (documentsFrom filesId n ids chunks).map numbered? =
      ((chunks.take ids.length).zipIdx n).map fun p => some ((p.2 : Int), p.1) := by
  induction ids generalizing n chunks with
  | nil => rfl
  | cons id ids ih =>
    cases chunks with
    | nil => rfl
    | cons data rest =>
      rw [List.length_cons] at h
      have hn : n < chunkLimit := by omega
      have hlimit : n + 1 + rest.length ≤ chunkLimit := by omega
      exact congrArg₂ List.cons (numbered?_chunkDocument hn) (ih hlimit)

private theorem zipIdx_pairwise (n : Nat) (chunks : List Bytes) :
    ((chunks.zipIdx n).map fun p => ((p.2 : Int), p.1)).Pairwise fun a b => a.1 ≤ b.1 := by
  induction chunks generalizing n with
  | nil => simp
  | cons data rest ih =>
    simp only [List.zipIdx_cons, List.map_cons, List.pairwise_cons]
    refine ⟨?_, ih (n + 1)⟩
    intro q hq
    obtain ⟨⟨data', m⟩, hm, rfl⟩ := List.mem_map.mp hq
    have := List.le_snd_of_mem_zipIdx hm
    dsimp only at this ⊢
    omega

/-- Read in the order of their numbers, chunk documents hold the chunks that had an identifier. -/
theorem contentOf_documentsFrom (h : n + chunks.length ≤ chunkLimit) :
    contentOf (documentsFrom filesId n ids chunks) = (chunks.take ids.length).flatten := by
  have hnumbered : (documentsFrom filesId n ids chunks).filterMap numbered? =
      ((chunks.take ids.length).zipIdx n).map fun p => ((p.2 : Int), p.1) := by
    have hmap : ((documentsFrom filesId n ids chunks).map numbered?).filterMap id = _ :=
      congrArg (List.filterMap id) (numbered?_documentsFrom h)
    simpa [List.filterMap_map, Function.comp_def] using hmap
  have hsorted := zipIdx_pairwise n (chunks.take ids.length)
  unfold contentOf
  rw [hnumbered, List.mergeSort_of_pairwise (by simpa using hsorted), List.flatMap_map,
    List.flatMap_def, List.zipIdx_map_fst]

/-- The fields of a description, its metadata aside. -/
def File.descriptionFields (f : File) (id : Bson) : Fields Bson := [
  ("_id", id),
  ("filename", .string f.name),
  ("contentType", .string f.contentType),
  ("length", .int64 (Int64.ofInt f.length)),
  ("chunkSize", .int32 (Int32.ofInt (min f.chunkSize 0x7fffffff))),
  ("uploadDate", .dateTime (Int64.ofInt f.uploaded.millis)),
  ("md5", .string f.md5)]

/-- The description is found under its names as it is written. -/
theorem get?_written_description (f : File) (id : Bson) {name : String} {b : Bson}
    (h : Fields.get? (f.descriptionFields id) name = some b) :
    (f.description id).written.get? name = some b.written := by
  have hnames : (Fields.names (f.descriptionFields id)).Nodup := by
    change ["_id", "filename", "contentType", "length", "chunkSize", "uploadDate", "md5"].Nodup
    decide
  have hpairs : (Document.ofPairs (f.descriptionFields id)).get? name = some b := by
    rw [Document.get?, Document.ofPairs, Fields.collect_of_nodup hnames, h]
  have hname : name ≠ "metadata" := by
    rintro rfl
    have hnone : Fields.get? (f.descriptionFields id) "metadata" = none := rfl
    rw [hnone] at h
    cases h
  have hget : (f.description id).get? name = some b := by
    unfold File.description Document.putSome
    cases f.metadata with
    | none => exact hpairs
    | some v => exact (Fields.get?_put_of_ne _ _ hname).trans hpairs
  rw [Document.get?_written, hget]
  rfl

end Blob
end DocClient
