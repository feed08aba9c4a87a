import DocClient.Codec.Decode
import DocClient.Wire.Program

/-!
What the documents say that answer commands: whether the command succeeded, what was written and what
failed, and the batches of a cursor. A document that lacks what is needed is no valid response. Documents
within an answer are taken as they came.
-/
namespace DocClient

/-- Reads a reply or a part of one. Whatever cannot be read makes it an invalid response. -/
def readReply {α β : Type} (read : β → Except DecodeCause α) (reply : β) : Except Error α :=
  (read reply).mapError fun _ => .transport .invalidResponse

/-- An integer, or a double that is one. -/
def Bson.asInteger? : Bson → Option Int
  | .int32 n => some n.toInt
  | .int64 n => some n.toInt
  | .double d => d.nearInteger?
  | _ => none

def decodeCount : Bson → Except DecodeCause Nat := fun b =>
  (decodeInt "a count" 0 0x7fffffffffffffff b).map Int.toNat

def decodeDocuments : Bson → Except DecodeCause (List Document) := decodeList Bson.toDocument

def Document.textOrEmpty (doc : Document) (name : String) : Except DecodeCause String :=
  match doc.get? name with
  | none => .ok ""
  | some b => decodeBson b

/-- The labels of a failure say nothing here, but they must be a list of text. -/
def checkLabels (doc : Document) : Except DecodeCause Unit := do
  let _ : Option (List String) ← doc.optional "errorLabels" decodeBson
  .ok ()

/-- The details of a failed write say nothing here, but they must be a document. -/
def checkDetails (doc : Document) : Except DecodeCause Unit := do
  let _ : Option Document ← doc.optional "errInfo" Bson.toDocument
  .ok ()

def readFault (doc : Document) : Except DecodeCause WriteFault := do
  checkLabels doc
  let code ← doc.required "code" decodeBson
  let _ ← doc.textOrEmpty "codeName"
  let message ← doc.textOrEmpty "errmsg"
  .ok ⟨code, message⟩

/-- Whether a command succeeded, and with what code it failed if it did not. -/
def checkSuccess (reply : Document) : Except Error Unit :=
  match (reply.get? "ok").bind Bson.asInteger? with
  | none => .error (.transport .invalidResponse)
  | some 1 => .ok ()
  | some _ =>
    match readFault reply with
    | .ok fault => .error (.transport (.command fault.code fault.message))
    | .error _ => .error (.transport .invalidResponse)

/-- One failed write of several. It may leave out which one it is; the name of its code may be null. -/
def readWriteFault (doc : Document) : Except DecodeCause WriteFault := do
  let _ ← (doc.get? "index").mapM decodeCount
  let code ← doc.required "code" decodeBson
  let _ : Option String ← doc.optional "codeName" decodeBson
  let message ← doc.textOrEmpty "errmsg"
  checkDetails doc
  .ok ⟨code, message⟩

/-- A failed acknowledgement. Its message goes by one of two names, but not by both. -/
def readConcernFault (doc : Document) : Except DecodeCause WriteFault := do
  let code ← doc.required "code" decodeBson
  let _ ← doc.textOrEmpty "codeName"
  let message ←
    match doc.get? "errmsg", doc.get? "message" with
    | some _, some _ => .error (.repeatedField "message")
    | some _, none => doc.textOrEmpty "errmsg"
    | none, _ => doc.textOrEmpty "message"
  checkDetails doc
  .ok ⟨code, message⟩

def decodeConcernFault (b : Bson) : Except DecodeCause WriteFault := do
  let doc ← b.toDocument
  readConcernFault doc

def decodeFaults (b : Bson) : Except DecodeCause (List WriteFault) := do
  let docs ← decodeDocuments b
  docs.mapM readWriteFault

structure WriteTrouble where
  faults : Option (List WriteFault)
  concern : Option WriteFault

namespace WriteTrouble

def read (reply : Document) : Except DecodeCause WriteTrouble := do
  checkLabels reply
  let faults ← reply.optional "writeErrors" decodeFaults
  let concern ← reply.optional "writeConcernError" decodeConcernFault
  .ok ⟨faults, concern⟩

/-- The failure of a single write: its own, or else that of its acknowledgement. -/
def single : WriteTrouble → Except Error Unit
  | ⟨some (fault :: _), _⟩ => .error (.transport (.write fault))
  | ⟨_, some concern⟩ => .error (.transport (.write concern))
  | ⟨_, none⟩ => .ok ()

/-- The failure of a single insert, whose list of failures must not be there without one. -/
def insert : WriteTrouble → Except Error Unit
  | ⟨some [], none⟩ => .error (.transport .invalidResponse)
  | trouble => trouble.single

/-- The failure of one of many inserts, which a list of failures shows even if it is empty. -/
def many : WriteTrouble → Except Error Unit
  | ⟨none, none⟩ => .ok ()
  | ⟨faults, concern⟩ => .error (.transport (.insertMany (faults.getD []) concern))

end WriteTrouble

def checkConcern (reply : Document) : Except Error Unit := do
  let concern ← readReply (fun (reply : Document) => do
    checkLabels reply
    reply.optional "writeConcernError" decodeConcernFault) reply
  WriteTrouble.single ⟨none, concern⟩

def readWrite (reply : Document) : Except DecodeCause (Nat × WriteTrouble) := do
  let n ← reply.required "n" decodeCount
  let trouble ← WriteTrouble.read reply
  .ok (n, trouble)

structure UpdateResult where
  matched : Nat
  modified : Nat
  upsertedId : Option Bson

/-- An update that inserted a document says under which identifier, and has matched none. -/
def readUpdate (reply : Document) : Except DecodeCause (UpdateResult × WriteTrouble) := do
  let modified ← reply.required "nModified" decodeCount
  let upserted ← reply.optional "upserted" decodeDocuments
  let (n, trouble) ← readWrite reply
  match (upserted.getD []).head?.bind (·.get? "_id") with
  | none => .ok (⟨n, modified, none⟩, trouble)
  | some id => .ok (⟨0, modified, some id⟩, trouble)

/-- Database and collection of a full name, which must have both. -/
def splitFullName (s : String) : Except DecodeCause (String × String) :=
  let database := s.toList.takeWhile (· ≠ '.')
  match s.toList.drop (database.length + 1) with
  | [] => .error (.wrongText "full name" s)
  | collection => .ok (String.ofList database, String.ofList collection)

def decodeNamespace : Bson → Except DecodeCause (String × String)
  | .document fields => do
    let database ← Document.required ⟨fields⟩ "db" decodeBson
    let collection ← Document.required ⟨fields⟩ "coll" decodeBson
    .ok (database, collection)
  | b => do
    let s : String ← decodeBson b
    splitFullName s

structure Batch where
  id : Int64
  database : String
  collection : String
  documents : List Document

def readBatch (name : String) (reply : Document) : Except DecodeCause Batch := do
  let cursor ← reply.required "cursor" Bson.toDocument
  let id ← cursor.required "id" decodeBson
  let (database, collection) ← cursor.required "ns" decodeNamespace
  let documents ← cursor.required name decodeDocuments
  let _ ← cursor.optional "postBatchResumeToken" Bson.toDocument
  .ok ⟨id, database, collection, documents⟩

/-- The count in the first row of a counting aggregation; no row counts none. Every row has a count. -/
def readCount (reply : Document) : Except DecodeCause Nat := do
  let cursor ← reply.required "cursor" Bson.toDocument
  let rows ← cursor.required "firstBatch" decodeDocuments
  let counts ← rows.mapM fun row => row.required "n" decodeCount
  .ok (counts.headD 0)

/-- What a find-and-modify found, of whatever kind, and what is wrong. -/
def readModified (reply : Document) : Except DecodeCause (Bson × WriteTrouble) := do
  let value ← reply.required "value" .ok
  let trouble ← WriteTrouble.read reply
  .ok (value, trouble)

end DocClient
