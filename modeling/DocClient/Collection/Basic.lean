import DocClient.Index.Model
import DocClient.Session.Database
import DocClient.Update

/-!
Handles to collections, and the requests about whole documents that are sent through them.
-/
namespace DocClient

structure Collection where
  database : Database
  name : String

def Database.collection (db : Database) (name : String) : Collection := ⟨db, name⟩

namespace Collection

def fullName (c : Collection) : String := c.database.name ++ "." ++ c.name

def body (c : Collection) (command : String) (fields : Fields Bson) : Document :=
  .ofPairs ((command, .string c.name) :: fields)

def write {α : Type} (c : Collection) (limit : Deadline) (body : Document)
    (read : Document → Except DecodeCause α) : Call α := do
  let reply ← c.database.concernedCommand limit body .primary
  Call.settled (readReply read reply)

def insertBody (c : Collection) (docs : List Document) : Document :=
  c.body "insert" [("documents", .array (docs.map .ofDocument)), ("ordered", .boolean true)]

def insertOne (c : Collection) (limit : Deadline) (doc : Document) : Call Unit := do
  Call.settled (Database.checkWritable [doc])
  let (_, trouble) ← c.write limit (c.insertBody [doc]) readWrite
  Call.settled trouble.insert

/--
Inserts documents in their order. Those beyond the number that the server says it took are sent again,
in as many commands as rounds are left.
-/
def insertWithin (c : Collection) (limit : Deadline) (rounds : Nat) (docs : List Document) : Call Unit :=
  match rounds with
  | 0 => ExceptT.mk .exhausted
  | rounds + 1 => do
    let (n, trouble) ← c.write limit (c.insertBody docs) readWrite
    Call.settled trouble.many
    if docs.length ≤ n then return () else c.insertWithin limit rounds (docs.drop n)

def insertMany (c : Collection) (limit : Deadline) (docs : List Document) : Call Unit := do
  Call.settled (Database.checkWritable docs)
  c.insertWithin limit c.database.rounds docs

/-- Updates consist of operators. One that does not begin with an operator is refused unsent. -/
def checkUpdate (update : Document) : Except Error Unit :=
  match update.names with
  | name :: _ => if isOperator name then .ok () else .error (.transport .invalidArgument)
  | [] => .error (.transport .invalidArgument)

def updateMatches (c : Collection) (filter update : Document) (multi upsert : Bool) :
    Call UpdateResult := do
  Call.settled (checkUpdate update)
  let entry := (Document.ofPairs [("q", .ofDocument filter), ("u", .ofDocument update)])
    |>.putSome "multi" (if multi then some (.boolean true) else none)
    |>.putSome "upsert" (if upsert then some (.boolean true) else none)
  let body := c.body "update" [("updates", .array [.ofDocument entry]), ("ordered", .boolean true)]
  let (result, trouble) ← c.write .short body readUpdate
  Call.settled trouble.single
  return result

def deleteMatches (c : Collection) (filter : Document) (multi : Bool) : Call Nat := do
  let entry := Document.ofPairs
    [("q", .ofDocument filter), ("limit", .int32 (if multi then 0 else 1))]
  let body := c.body "delete" [("deletes", .array [.ofDocument entry]), ("ordered", .boolean true)]
  let (n, trouble) ← c.write .short body readWrite
  Call.settled trouble.single
  return n

def countMatches (c : Collection) (filter : Document) (skip limit : Option Int64) : Call Nat := do
  let stage (name : String) (b : Bson) : Bson := .document [(name, b)]
  let stages :=
    [stage "$match" (.ofDocument filter)] ++
    (skip.map fun n => stage "$skip" (.int64 n)).toList ++
    (limit.map fun n => stage "$limit" (.int64 n)).toList ++
    [stage "$group" (.document [("_id", .int32 1), ("n", .document [("$sum", .int32 1)])])]
  let body := c.body "aggregate" [("pipeline", .array stages), ("cursor", .document [])]
  let reply ← c.database.concernedCommand .short body c.database.readPreference
  Call.settled (readReply readCount reply)

/-- Finds one document and changes it, by the fields that say how. -/
def findAndModify (c : Collection) (filter : Document) (fields : Fields Bson) :
    Call (Option Document) := do
  let body := c.body "findAndModify" (("query", .ofDocument filter) :: fields)
  let (value, trouble) ← c.write .short body readModified
  Call.settled trouble.single
  Call.settled (readReply (decodeOption Bson.toDocument) value)

/-- Drops the collection. One that does not exist counts as dropped. -/
def drop (c : Collection) : Call Unit := ExceptT.mk do
  let namespaceNotFound : Int32 := 26
  let outcome ← (c.database.concernedCommand .short (c.body "drop" []) .primary).run
  match outcome with
  | .ok reply => return checkConcern reply
  | .error (.transport (.command code message)) =>
    if code = namespaceNotFound then return .ok ()
    else return .error (.transport (.command code message))
  | .error e => return .error e

end Collection
end DocClient
