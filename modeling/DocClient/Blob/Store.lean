import DocClient.Blob.File

/-!
Blob stores: creating, finding, opening and removing files.
-/
namespace DocClient

def Database.blobs (db : Database) (start : String) : Blob.Store :=
  ⟨db.collection (start ++ ".files"), db.collection (start ++ ".chunks")⟩

namespace Blob.Store

variable {α σ : Type}

def create (s : Store) (fresh : Oid) (now : Time) (name : String) : File := .create s fresh now name

def named (name : String) : Document := .ofPairs [("filename", .string name)]

/-- Opens the file of a name that was uploaded last. -/
def openNamed (s : Store) (name : String) : Call File := do
  let doc : Value ← ((s.files.find (named name)).sort ["-uploadDate"]).one
  return .ofDescription s doc

def openId [Argument α] (s : Store) (id : α) : Call File := do
  let doc : Value ← (s.files.findId id).one
  return .ofDescription s doc

def find [Argument α] (s : Store) (selector : α) : Query := s.files.find selector

/-- Closes the previous file, whatever comes of it, and opens the next one of an iterator. -/
def openNext [Source σ] (s : Store) (it : Iter σ) (previous : Option File) (fresh : Nat → Oid) :
    Program (Option File × Iter σ) := do
  match previous with
  | some f => let _ ← f.close fresh
  | none => pure ()
  let (doc, it) ← it.nextValue
  return (doc.map (.ofDescription s), it)

/-- Removes the documents of a collection in which a field has one of some values. -/
def removeIn (c : Collection) (field : String) (ids : List Bson) : Call Unit := do
  let _ ← c.removeAll (Document.ofPairs [(field, .document [("$in", .array ids)])])

/-- Removes every file of a name, the descriptions first and then the chunks. -/
def remove (s : Store) (name : String) : Call Unit := do
  let query := (s.files.find (named name)).select (Document.ofPairs [("_id", .int32 1)])
  let (outcome, found) ← ExceptT.lift (query.all ([] : List Value))
  Call.settled outcome
  match found.filterMap fun doc => (doc.get? "_id").map Value.outbound with
  | [] => return ()
  | ids => do
    removeIn s.files "_id" ids
    removeIn s.chunks "files_id" ids

def removeId [Argument α] (s : Store) (id : α) : Call Unit := do
  let id ← Call.settled (lift id)
  let _ ← s.files.removeAll (Document.ofPairs [("_id", id.outbound)])
  let _ ← s.chunks.removeAll (Document.ofPairs [("files_id", id.outbound)])

end Blob.Store
end DocClient
