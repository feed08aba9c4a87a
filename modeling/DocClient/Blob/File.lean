import DocClient.Blob.Chunks
import DocClient.Collection.Indexes
import DocClient.Collection.Write
import DocClient.Query.Basic

/-!
Blob files. A file that is written keeps its content until it is closed: then the chunks are stored, and
after them the document that describes the file. A file that is read loads its chunks at the first read.
-/
namespace DocClient.Blob

/-- Where blobs are kept: a collection of descriptions and one of chunks. -/
structure Store where
  files : Collection
  chunks : Collection

inductive Access
  | reading
  | writing
  deriving DecidableEq

structure File where
  store : Store
  access : Access
  id : Value
  name : String
  contentType : String
  chunkSize : Nat
  length : Nat
  uploaded : Time
  /-- The digest of the content; of a written file, once it was tried to be closed. -/
  md5 : String
  metadata : Option Value
  chunks : List Bytes
  /-- The identifiers of the chunks, fixed when storing them is first tried. -/
  chunkIds : List Oid
  chunksStored : Bool
  loaded : Bool
  position : Position
  /-- The first refused argument of a setter, reported by writing and closing. -/
  err : Option Error
  closed : Bool

namespace File

/-- A new file open for writing. Nothing is stored until it is closed. -/
def create (store : Store) (fresh : Oid) (now : Time) (name : String) : File :=
  { store, access := .writing, id := .objectId (.ofOid fresh), name, contentType := "",
    chunkSize := defaultChunkSize, length := 0, uploaded := now, md5 := "", metadata := none,
    chunks := [], chunkIds := [], chunksStored := false, loaded := false, position := .start,
    err := none, closed := false }

def integerIn (doc : Value) (name : String) : Int :=
  match (doc.get? name).bind Value.asInt64? with
  | some n => n.toInt
  | none => 0

def textIn (doc : Value) (name : String) : String := ((doc.get? name).bind Value.asString?).getD ""

/-- The file that a stored description describes, open for reading. -/
def ofDescription (store : Store) (doc : Value) : File :=
  { store, access := .reading, id := (doc.get? "_id").getD .null, name := textIn doc "filename",
    contentType := textIn doc "contentType",
    chunkSize :=
      if 0 < integerIn doc "chunkSize" then (integerIn doc "chunkSize").toNat else defaultChunkSize,
    length := (integerIn doc "length").toNat,
    uploaded := ((doc.get? "uploadDate").bind Value.asTime?).getD .epoch,
    md5 := textIn doc "md5", metadata := (doc.get? "metadata").filter (!·.isNull),
    chunks := [], chunkIds := [], chunksStored := false, loaded := false, position := .start,
    err := none, closed := false }

def refuse (f : File) (e : Error) : File := { f with err := some (f.err.getD e) }

section Settings

variable {α : Type}

def setId [Argument α] (f : File) (id : α) : File :=
  match lift id with
  | .ok id => { f with id }
  | .error e => f.refuse e

def setName (f : File) (name : String) : File := { f with name }

def setContentType (f : File) (contentType : String) : File := { f with contentType }

def setUploaded (f : File) (uploaded : Time) : File := { f with uploaded }

/-- Heeded only before the first write. -/
def setChunkSize (f : File) (size : Nat) : File :=
  if f.access = .writing && f.length = 0 && 0 < size then { f with chunkSize := size } else f

/-- Null takes the metadata away. -/
def setMetadata [Argument α] (f : File) (metadata : α) : File :=
  match lift metadata with
  | .ok v => { f with metadata := if v.isNull then none else some v }
  | .error e => f.refuse e

/-- Decodes the metadata into a place, which is left as it is when there is none. -/
def getMetadata [Destination α] (f : File) (previous : α) : Except Error Unit × α :=
  match f.metadata with
  | some v => decodeInto v previous
  | none => (.ok (), previous)

end Settings

/-- Takes data for a file open for writing: how many bytes, or why not. -/
def write (f : File) (data : Bytes) : Except Error Nat × File :=
  if f.closed then (.error .fileClosed, f)
  else if f.access ≠ .writing then (.error (.invalidArgument .openForReading), f)
  else
    match f.err with
    | some e => (.error e, f)
    | none =>
      (.ok data.length,
       { f with chunks := append f.chunkSize f.chunks data, length := f.length + data.length })

def chunkPayload (chunk : Value) : Except Error Bytes := payload ((chunk.get? "data").getD .null)

def loadFrom (rounds : Nat) (it : Iter Cursor) : Call (List Bytes) :=
  match rounds with
  | 0 => ExceptT.mk .exhausted
  | rounds + 1 => do
    let (chunk, it) ← ExceptT.lift it.nextValue
    match chunk with
    | none => do
      Call.settled it.close.1
      return []
    | some chunk => do
      let data ← Call.settled (chunkPayload chunk)
      let rest ← loadFrom rounds it
      return data :: rest

def loadChunks (f : File) : Call (List Bytes) := do
  let filter := Document.ofPairs [("files_id", f.id.outbound)]
  let it ← ExceptT.lift ((f.store.chunks.find filter).sort ["n"]).iter
  loadFrom f.store.chunks.database.rounds it

def copyNext (f : File) (room : Nat) : Bytes × File :=
  let (data, position) := copyOut f.chunks f.length f.position room
  (data, { f with position })

/-- Reads up to `room` bytes from where the last read stopped; none at the end of the file. -/
def read (f : File) (room : Nat) : Program (Except Error Bytes × File) :=
  if f.closed then .done (.error .fileClosed, f)
  else if f.access ≠ .reading then .done (.error (.invalidArgument .openForWriting), f)
  else if f.loaded then
    let (data, f) := f.copyNext room
    .done (.ok data, f)
  else
    f.loadChunks.run.bind fun
      | .error e => .done (.error e, f)
      | .ok chunks =>
        let (data, f) := { f with chunks, loaded := true }.copyNext room
        .done (.ok data, f)

def readUpTo (f : File) (room : Nat) : Program (Except Error Bytes × File) :=
  if room = 0 then .done (.ok [], f)
  else do
    let (outcome, f) ← f.read room
    match outcome with
    | .error e => return (.error e, f)
    | .ok data =>
      if _h : 0 < data.length ∧ data.length < room then do
        let (rest, f) ← f.readUpTo (room - data.length)
        return (rest.map (data ++ ·), f)
      else return (.ok data, f)
termination_by room

def readToEnd (f : File) : Program (Except Error Bytes × File) :=
  f.readUpTo (f.length - f.position.consumed)

def description (f : File) (id : Bson) : Document :=
  (Document.ofPairs [
    ("_id", id),
    ("filename", .string f.name),
    ("contentType", .string f.contentType),
    ("length", .int64 (Int64.ofInt f.length)),
    ("chunkSize", .int32 (Int32.ofInt (min f.chunkSize 0x7fffffff))),
    ("uploadDate", .dateTime (Int64.ofInt f.uploaded.millis)),
    ("md5", .string f.md5)])
    |>.putSome "metadata" (f.metadata.map Value.outbound)

def chunkIndex : Index := { key := ["files_id", "n"], unique := true }

def isRetry (f : File) : Bool := !f.chunkIds.isEmpty

/-- The file with its digest and the identifiers of its chunks, which a retry leaves as they are. -/
def prepared (f : File) (fresh : Nat → Oid) : File :=
  if f.isRetry then f
  else { f with md5 := checksum f.chunks, chunkIds := f.chunks.mapIdx fun i _ => fresh i }

/-- Removes what a failed attempt may have left of the chunks. -/
def removeLeftovers (f : File) : Call Unit := do
  let ids := Bson.array (f.chunkIds.map .objectId)
  let _ ← f.store.chunks.removeAll (Document.ofPairs [("_id", .document [("$in", ids)])])

def storeChunks (f : File) (id : Bson) (retry : Bool) : Call Unit := do
  f.store.chunks.ensureIndex chunkIndex
  if retry then f.removeLeftovers
  f.store.chunks.insertMany .long (chunkDocuments id f.chunkIds f.chunks)

/-- Stores the chunks unless they are stored, and then the description. -/
def persist (f : File) (fresh : Nat → Oid) : Program (Except Error Unit × File) := do
  let id := f.id.outbound
  let prepared := if f.chunksStored then f else f.prepared fresh
  let stored ← if f.chunksStored then pure (.ok ()) else (prepared.storeChunks id f.isRetry).run
  match stored with
  | .error e => return (.error e, prepared)
  | .ok () =>
    let after := { prepared with chunksStored := true }
    let outcome ← (f.store.files.insertOne .long (after.description id)).run
    return (outcome, after)

/-- The file without content and closed. -/
def shut (f : File) : File := { f with chunks := [], closed := true }

/--
Finishes the file. A written file that has content is stored; if that fails it stays open and can be
closed again. A setter's error is reported once, and nothing is stored. A closed file stays as it is.
-/
def close (f : File) (fresh : Nat → Oid) : Program (Except Error Unit × File) :=
  if f.closed then .done (.ok (), f)
  else
    match f.err with
    | some e => .done (.error e, { f with err := none }.shut)
    | none =>
      if f.access = .writing && 0 < f.length then
        (f.persist fresh).bind fun
          | (.ok (), f) => .done (.ok (), f.shut)
          | (.error e, f) => .done (.error e, f)
      else .done (.ok (), f.shut)

end File
end DocClient.Blob
