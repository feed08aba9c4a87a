import DocClient.Destination
import DocClient.Session.Safety
import DocClient.Wire.Cursor

/-!
Handles to databases, which carry how reads and writes are to be done, and the commands that are sent
through them.
-/
namespace DocClient

structure Database where
  name : String
  readPreference : ReadPreference
  writeConcern : Option WriteConcern
  /-- How many replies a single call follows a result for. -/
  rounds : Nat

namespace Database

def command (db : Database) (limit : Deadline) (body : Document)
    (readPreference : ReadPreference) : Call Document := do
  let reply ← Call.send ⟨db.name, body, readPreference⟩ limit
  Call.settled (checkSuccess reply)
  return reply

/-- Documents and options that are written by themselves, before the command that they are part of. -/
def checkWritable (docs : List Document) : Except Error Unit :=
  if docs.all Document.isWritable then .ok () else .error (.transport .unencodable)

/-- A body with the write concern, if there is one that says anything. -/
def withConcern (db : Database) (body : Document) : Except Error Document :=
  match db.writeConcern with
  | none => .ok body
  | some concern =>
    match concern.toDocument with
    | .error _ => .error (.transport .unencodable)
    | .ok doc => .ok (if doc.isEmpty then body else body.put "writeConcern" (.ofDocument doc))

def concernedCommand (db : Database) (limit : Deadline) (body : Document)
    (readPreference : ReadPreference) : Call Document := do
  let body ← Call.settled (db.withConcern body)
  db.command limit body readPreference

def openCursor (db : Database) (limit : Deadline) (body : Document)
    (readPreference : ReadPreference) (batchSize : Option UInt32) : Call Cursor := do
  let reply ← db.command limit body readPreference
  let batch ← Call.settled (readReply (readBatch "firstBatch") reply)
  return .ofBatch batchSize db.rounds batch

def run {γ α : Type} [Argument γ] [Destination α] (db : Database) (cmd : γ) : Call α := do
  let body ← Call.settled (liftDocument cmd)
  let reply ← db.command .short body .primary
  Call.settled (decode (.ofDocumentOrdered reply))

def drop (db : Database) : Call Unit := do
  let body := Document.ofPairs [("dropDatabase", .int32 1)]
  let reply ← db.concernedCommand .short body .primary
  Call.settled (checkConcern reply)

def nameOf (row : Document) : Except Error String :=
  match row.get? "name" with
  | some (.string name) => .ok name
  | _ => .error (.transport .invalidResponse)

def collectionNames (db : Database) : Call (List String) := do
  let body := Document.ofPairs [("listCollections", .int32 1), ("nameOnly", .boolean true)]
  let cursor ← db.openCursor .short body .primary none
  cursor.collectWithin nameOf db.rounds

end Database
end DocClient
