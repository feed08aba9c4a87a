import DocClient.Digest.Md5
import DocClient.Error

/-!
The content of a blob in chunks: filling chunks up as data comes in, copying them out again from where
the last read stopped, and reading the payload of a stored chunk.
-/
namespace DocClient.Blob

def defaultChunkSize : Nat := 255 * 1024

def split (size : Nat) (data : Bytes) : List Bytes :=
  if _h : size = 0 ∨ data = [] then [] else data.take size :: split size (data.drop size)
termination_by data.length
decreasing_by
  have : 0 < data.length := List.length_pos_iff.mpr (by simp_all)
  simp only [List.length_drop]
  omega

/-- Adds data to chunks, filling the last one before another is begun. -/
def append (size : Nat) (chunks : List Bytes) (data : Bytes) : List Bytes :=
  match chunks with
  | [] => split size data
  | [last] =>
    if size ≤ last.length then last :: split size data
    else
      let room := size - last.length
      (last ++ data.take room) :: split size (data.drop room)
  | chunk :: rest => chunk :: append size rest data

/-- Where the next read begins: a chunk, a place in it, and how much was read before. -/
structure Position where
  chunk : Nat
  offset : Nat
  consumed : Nat
  deriving DecidableEq

def Position.start : Position := ⟨0, 0, 0⟩

/--
Copies from the chunks that begin at a position, up to `room` bytes and never past `length` bytes in
total. A piece that fills neither its room nor the length has come to the end of its chunk.
-/
def copyFrom (length : Nat) (chunks : List Bytes) (at_ : Position) (room : Nat) : Bytes × Position :=
  match chunks with
  | [] => ([], at_)
  | chunk :: rest =>
    if room = 0 || length ≤ at_.consumed then ([], at_)
    else if chunk.length ≤ at_.offset then
      copyFrom length rest { at_ with chunk := at_.chunk + 1, offset := 0 } room
    else
      let n := min (chunk.length - at_.offset) (min room (length - at_.consumed))
      let after : Position := ⟨at_.chunk, at_.offset + n, at_.consumed + n⟩
      let piece := (chunk.drop at_.offset).take n
      if room = n || length ≤ after.consumed then (piece, after)
      else
        let (more, after) :=
          copyFrom length rest { after with chunk := after.chunk + 1, offset := 0 } (room - n)
        (piece ++ more, after)

/-- Copies up to `room` bytes from a position, never past `length` bytes in total. -/
def copyOut (chunks : List Bytes) (length : Nat) (at_ : Position) (room : Nat) : Bytes × Position :=
  copyFrom length (chunks.drop at_.chunk) at_ room

/-- A byte given as a number. -/
def byte? (v : Value) : Option UInt8 :=
  v.asInt64?.bind fun n => if 0 ≤ n && n < 256 then some (UInt8.ofNat n.toInt.toNat) else none

def bytesOfItems : List Value → Except Error Bytes
  | [] => .ok []
  | item :: rest =>
    match byte? item with
    | some b => (bytesOfItems rest).map (b :: ·)
    | none => .error (.decode (.chunkByte item))

/-- The payload of a chunk: bytes of any subtype, or an array of numbers. -/
def payload (data : Value) : Except Error Bytes :=
  match data with
  | .binary bytes => .ok bytes
  | .other (.binary _ bytes) => .ok bytes
  | .array items => bytesOfItems items
  | data => .error (.decode (.chunkData data))

def checksum (chunks : List Bytes) : String := Md5.hexDigest chunks.flatten

/-- The documents of chunks, numbered from zero, each under the identifier at its place. -/
def documentsFrom (filesId : Bson) (n : Nat) : List Oid → List Bytes → List Document
  | id :: ids, data :: rest =>
    .ofPairs [("_id", .objectId id), ("files_id", filesId), ("n", .int32 (Int32.ofInt n)),
      ("data", Bson.genericBinary data)] :: documentsFrom filesId (n + 1) ids rest
  | _, _ => []

def chunkDocuments (filesId : Bson) (ids : List Oid) (chunks : List Bytes) : List Document :=
  documentsFrom filesId 0 ids chunks

end DocClient.Blob
