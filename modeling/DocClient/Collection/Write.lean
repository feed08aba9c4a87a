import DocClient.Collection.Basic

/-!
Writes to a collection as callers state them. Every argument is settled before anything is sent.
-/
namespace DocClient

structure ChangeInfo where
  updated : Nat := 0
  removed : Nat := 0
  /-- May exceed the documents that changed. -/
  matched : Nat := 0
  /-- The identifier of a document that was inserted for want of a match. -/
  upsertedId : Option Value := none
  deriving DecidableEq

/-- Every document with a usable identifier; the one at place `i` would take the fresh identifier `i`. -/
def ensureIds (fresh : Nat → Oid) (docs : List Document) : List Document :=
  docs.mapIdx fun i doc => ensureId (fresh i) doc

namespace Collection

variable {α β : Type}

/-- Inserts documents, of which there must be one at least. -/
def insert [Argument α] (c : Collection) (fresh : Nat → Oid) (docs : List α) : Call Unit := do
  let docs ← Call.settled (eachItem liftDocument docs)
  match ensureIds fresh docs with
  | [] => Call.fail (.invalidArgument .noDocuments)
  | [doc] => c.insertOne .short doc
  | docs => c.insertMany .short docs

def remove [Argument α] (c : Collection) (selector : α) : Call Unit := do
  let filter ← Call.settled (liftDocument selector)
  let _ ← c.deleteMatches filter false

def removeId [Argument α] (c : Collection) (id : α) : Call Unit := do
  let filter ← Call.settled (idFilter id)
  c.remove filter

def removeAll [Argument α] (c : Collection) (selector : α) : Call ChangeInfo := do
  let filter ← Call.settled (liftDocument selector)
  let n ← c.deleteMatches filter true
  return { removed := n, matched := n }

def update [Argument α] [Argument β] (c : Collection) (selector : α) (update : β) : Call Unit := do
  let filter ← Call.settled (liftDocument selector)
  let update ← Call.settled (updateDocument update)
  let _ ← c.updateMatches filter update false false

def updateId [Argument α] [Argument β] (c : Collection) (id : α) (update : β) : Call Unit := do
  let filter ← Call.settled (idFilter id)
  c.update filter update

def updateAll [Argument α] [Argument β] (c : Collection) (selector : α) (update : β) :
    Call ChangeInfo := do
  let filter ← Call.settled (liftDocument selector)
  let update ← Call.settled (updateDocument update)
  let result ← c.updateMatches filter update true false
  return { updated := result.modified, matched := result.matched }

def upsert [Argument α] [Argument β] (c : Collection) (selector : α) (update : β) :
    Call ChangeInfo := do
  let filter ← Call.settled (liftDocument selector)
  let update ← Call.settled (updateDocument update)
  let result ← c.updateMatches filter update false true
  return { updated := result.modified, matched := result.matched,
           upsertedId := result.upsertedId.map Bson.inbound }

def count (c : Collection) : Call Nat := c.countMatches .empty none none

end Collection
end DocClient
