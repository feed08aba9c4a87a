import DocClient.Collection.Basic
import DocClient.Query.Iter

/-!
Queries under construction, and reading their results. An argument that is refused is kept, the first of
several, and reported by whatever the query ends in.
-/
namespace DocClient

structure Query where
  collection : Collection
  filter : Document
  order : Option Document
  projection : Option Document
  skipped : UInt64
  /-- Zero means no limit. A negative one asks for a single batch. -/
  limited : Int64
  batchSize : Option UInt32
  err : Option Error

def Query.ofFilter (c : Collection) : Except Error Document → Query
  | .ok filter => ⟨c, filter, none, none, 0, 0, none, none⟩
  | .error e => ⟨c, .empty, none, none, 0, 0, none, some e⟩

namespace Collection

variable {α : Type}

def find [Argument α] (c : Collection) (filter : α) : Query := .ofFilter c (liftDocument filter)

def findId [Argument α] (c : Collection) (id : α) : Query := .ofFilter c (idFilter id)

end Collection

namespace Query

variable {α : Type}

def refuse (q : Query) (e : Error) : Query := { q with err := some (q.err.getD e) }

/-- The order of several sort fields, and the first that is refused. Those after it still count. -/
def sortOrder : List String → Document × Option Error → Document × Option Error
  | [], r => r
  | field :: rest, (order, err) =>
    match parseSortField field with
    | .ok (name, direction) => sortOrder rest (order.put name direction, err)
    | .error e => sortOrder rest (order, some (err.getD e))

def sort (q : Query) (fields : List String) : Query :=
  let (order, err) := sortOrder fields (.empty, q.err)
  { q with order := some order, err }

def skip (q : Query) (n : UInt64) : Query := { q with skipped := n }

def limit (q : Query) (n : Int64) : Query := { q with limited := n }

def select [Argument α] (q : Query) (projection : α) : Query :=
  match liftDocument projection with
  | .ok projection => { q with projection := some projection }
  | .error e => q.refuse e

def batch (q : Query) (n : UInt32) : Query := { q with batchSize := some n }

def check (q : Query) : Except Error Unit :=
  match q.err with
  | some e => .error e
  | none => .ok ()

def countBson (n : UInt64) : Except Error Bson :=
  if n.toNat < 0x8000000000000000 then .ok (.int64 (Int64.ofInt n.toNat)) else .error (.transport .unencodable)

def skipBson (q : Query) : Except Error (Option Bson) :=
  if q.skipped = 0 then .ok none else (countBson q.skipped).map some

/-- Order and projection are written before the rest of a command. -/
def checkOptions (q : Query) : Except Error Unit :=
  Database.checkWritable (q.order.toList ++ q.projection.toList)

/-- Projection, order and number of skipped documents, which every search states alike. -/
def searchBody (q : Query) : Except Error Document := do
  let skip ← q.skipBson
  q.checkOptions
  .ok ((q.collection.body "find" [("filter", .ofDocument q.filter)])
    |>.putSome "projection" (q.projection.map .ofDocument)
    |>.putSome "sort" (q.order.map .ofDocument)
    |>.putSome "skip" skip)

def firstBody (body : Document) : Document :=
  (body.put "limit" (.int64 1)).put "singleBatch" (.boolean true)

/-- The batch size to ask for: one more than a limit that it equals, so that the cursor ends with it. -/
def sentBatchSize (q : Query) : Option UInt32 :=
  q.batchSize.map fun n => if q.limited.toInt = n.toNat && n ≠ 0 then n + 1 else n

def batchSizeBson (n : UInt32) : Except Error Bson :=
  if n.toNat < 0x80000000 then .ok (.int32 (Int32.ofInt n.toNat)) else .error (.transport .invalidArgument)

def allBody (q : Query) : Except Error Document := do
  let body ← q.searchBody
  let batchSize ← q.sentBatchSize.mapM batchSizeBson
  let limit := if q.limited = 0 then none else some (Bson.int64 (Int64.ofInt q.limited.toInt.natAbs))
  .ok (body
    |>.putSome "limit" limit
    |>.putSome "batchSize" batchSize
    |>.putSome "singleBatch" (if q.limited < 0 then some (.boolean true) else none))

def searchOne (c : Collection) (body : Document) : Call (Option Document) := do
  let cursor ← c.database.openCursor .short (firstBody body) c.database.readPreference none
  ExceptT.mk ((Source.pull cursor).bind fun (pulled, _) => .done pulled)

/-- The first match as the server has it. The limit does not count. -/
def first (q : Query) : Call (Option Document) := do
  let body ← Call.settled q.searchBody
  searchOne q.collection body

def firstOfFilter (q : Query) : Call (Option Document) :=
  searchOne q.collection (q.collection.body "find" [("filter", .ofDocument q.filter)])

def one [Destination α] (q : Query) : Call α := do
  Call.settled q.check
  match ← q.first with
  | some doc => Call.settled (decode (Value.ofDocument doc))
  | none => Call.fail .notFound

/-- The number of matches, after skipping and up to a limit above zero. -/
def count (q : Query) : Call Nat := do
  Call.settled q.check
  if q.skipped.toNat < 0x8000000000000000 then
    let skip := if q.skipped = 0 then none else some (Int64.ofInt q.skipped.toNat)
    let limit := if 0 < q.limited then some q.limited else none
    q.collection.countMatches q.filter skip limit
  else Call.fail (.transport .invalidArgument)

def openCursor (q : Query) : Call Cursor := do
  Call.settled q.check
  let body ← Call.settled q.allBody
  let db := q.collection.database
  db.openCursor .short body db.readPreference q.sentBatchSize

/-- An iterator over the matches, which reports what went wrong when it was opened. -/
def iter (q : Query) : Program (Iter Cursor) :=
  q.openCursor.run.bind fun opened => .done (.ofOpened opened)

def all [Destination α] (q : Query) (previous : List α) : Program (Except Error Unit × List α) := do
  let it ← q.iter
  let (outcome, as, _) ← it.all q.collection.database.rounds previous
  return (outcome, as)

end Query
end DocClient
