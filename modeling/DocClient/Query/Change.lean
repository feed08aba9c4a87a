import DocClient.Collection.Write
import DocClient.Query.Basic

/-!
Finding one document and changing it in the same step, and what is reported about it.
-/
namespace DocClient

structure Change where
  update : Value
  upsert : Bool
  remove : Bool
  /-- Gives the document after the change, not before it. -/
  returnNew : Bool

namespace Query

def identifierOf (doc : Document) : Option Value := (doc.get? "_id").map Bson.inbound

def orderField (q : Query) : Fields Bson :=
  (q.order.map fun order => ("sort", Bson.ofDocument order)).toList

def removeFirst (q : Query) : Call (ChangeInfo × Option Value) := do
  Call.settled (Database.checkWritable q.order.toList)
  let found ← q.collection.findAndModify q.filter (("remove", .boolean true) :: q.orderField)
  match found with
  | some doc => return ({ removed := 1 }, some (Value.ofDocument doc))
  | none => Call.fail .notFound

def updateFirst (q : Query) (update : Document) (change : Change) : Call (Option Document) := do
  Call.settled (Collection.checkUpdate update)
  Call.settled q.checkOptions
  q.collection.findAndModify q.filter
    ([("update", .ofDocument update), ("new", .boolean change.returnNew),
      ("upsert", .boolean change.upsert)] ++ q.orderField ++
      (q.projection.map fun fields => ("fields", Bson.ofDocument fields)).toList)

def willInsert (q : Query) (change : Change) : Call Bool :=
  if change.upsert then do
    let found ← q.firstOfFilter
    return found.isNone
  else return false

/-- Does a change: what is reported about it, and the document that it gives. -/
def change (q : Query) (change : Change) : Call (ChangeInfo × Option Value) := do
  Call.settled q.check
  if change.remove then q.removeFirst
  else do
    let update ← Call.settled (updateDocument change.update)
    let inserting ← q.willInsert change
    match ← q.updateFirst update change with
    | some doc =>
      let info : ChangeInfo :=
        if inserting then { upsertedId := identifierOf doc } else { updated := 1, matched := 1 }
      return (info, some (Value.ofDocument doc))
    | none =>
      if inserting && !change.returnNew then do
        match ← q.firstOfFilter with
        | some created => return ({ upsertedId := identifierOf created }, none)
        | none => Call.fail .notFound
      else Call.fail .notFound

variable {α : Type}

def apply [Destination α] (q : Query) (change : Change) (previous : α) :
    Program (Except Error ChangeInfo × α) := do
  match ← (q.change change).run with
  | .error e => return (.error e, previous)
  | .ok (info, none) => return (.ok info, previous)
  | .ok (info, some v) =>
    match decodeInto v previous with
    | (.ok (), a) => return (.ok info, a)
    | (.error e, a) => return (.error e, a)

/-- Does a change without a look at the document. -/
def applyInfo (q : Query) (change : Change) : Call ChangeInfo := do
  let (info, _) ← q.change change
  return info

end Query
end DocClient
