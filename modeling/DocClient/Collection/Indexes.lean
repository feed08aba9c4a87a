import DocClient.Collection.Basic

/-!
The indexes of a collection.
-/
namespace DocClient.Collection

def ensureIndex (c : Collection) (index : Index) : Call Unit := do
  let model ← Call.settled index.toModel
  let doc := model.withName.toDocument
  Call.settled (Database.checkWritable [doc])
  let body := c.body "createIndexes" [("indexes", .array [.ofDocument doc])]
  let reply ← c.database.concernedCommand .long body .primary
  Call.settled (checkConcern reply)

def ensureIndexKey (c : Collection) (key : List String) : Call Unit := c.ensureIndex { key }

def readModel (row : Document) : Except Error IndexModel :=
  (IndexModel.ofDocument row).mapError fun _ => .transport .undecodable

def indexes (c : Collection) : Call (List Index) := do
  let body := c.body "listIndexes" []
  let cursor ← c.database.openCursor .short body .primary none
  let models ← cursor.collectWithin readModel c.database.rounds
  let indexes ← Call.settled (eachItem Index.ofModel models)
  return indexes.mergeSort fun a b => a.name ≤ b.name

end DocClient.Collection
