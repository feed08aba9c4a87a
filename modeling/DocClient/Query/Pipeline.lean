import DocClient.Query.Basic

/-!
Aggregations: stages that documents pass through on the server.
-/
namespace DocClient

structure Pipeline where
  collection : Collection
  stages : List Document
  useDisk : Bool
  /-- Zero leaves the size of batches to the server. -/
  batchSize : UInt32
  maxMillis : Option UInt64
  collated : Option ServerCollation
  err : Option Error

def Pipeline.defaultBatchSize : UInt32 := 101

/-- An aggregation of a collection. Stages that are refused are reported by whatever it ends in. -/
def Collection.aggregate {α : Type} [Argument α] (c : Collection) (stages : α) : Pipeline :=
  match liftPipeline stages with
  | .ok stages => ⟨c, stages, false, Pipeline.defaultBatchSize, none, none, none⟩
  | .error e => ⟨c, [], false, Pipeline.defaultBatchSize, none, none, some e⟩

namespace Pipeline

variable {α : Type}

def allowDiskUse (p : Pipeline) : Pipeline := { p with useDisk := true }

def batch (p : Pipeline) (n : UInt32) : Pipeline := { p with batchSize := n }

/-- Bounds the time that the server may take. -/
def maxTime (p : Pipeline) (millis : UInt64) : Pipeline := { p with maxMillis := some millis }

/-- Sets the rules for comparing strings. Rules that are refused are reported later, unless an error
came before them. -/
def collation (p : Pipeline) (c : Collation) : Pipeline :=
  match c.toServer with
  | .ok c => { p with collated := some c }
  | .error e => { p with err := some (p.err.getD e) }

def check (p : Pipeline) : Except Error Unit :=
  match p.err with
  | some e => .error e
  | none => .ok ()

def stagesBson (p : Pipeline) : Bson := .array (p.stages.map .ofDocument)

def isWrite (p : Pipeline) : Bool :=
  match p.stages.getLast?.bind (·.names.head?) with
  | some name => name = "$out" || name = "$merge"
  | none => false

/-- The batch size that is asked for, if any is. -/
def sentBatchSize (p : Pipeline) : Option UInt32 := if p.batchSize = 0 then none else some p.batchSize

def batchSizeBson (n : UInt32) : Except EncodeFault Bson :=
  if n.toNat < 0x80000000 then .ok (.int32 (Int32.ofInt n.toNat)) else .error (.optionTooLarge n.toNat)

def body (p : Pipeline) : Except EncodeFault Document := do
  let batchSize ← p.sentBatchSize.mapM batchSizeBson
  let maxTime ← p.maxMillis.mapM WriteConcern.millisBson
  let cursor := Document.empty.putSome "batchSize" (if p.isWrite then none else batchSize)
  .ok ((p.collection.body "aggregate" [("pipeline", p.stagesBson), ("cursor", .ofDocument cursor)])
    |>.putSome "allowDiskUse" (if p.useDisk then some (.boolean true) else none)
    |>.putSome "maxTimeMS" maxTime
    |>.putSome "collation" (p.collated.map fun c => .ofDocument c.toDocument))

/-- What the reply says to an aggregation, whose write is to be acknowledged if it is one. -/
def readOpened (p : Pipeline) (reply : Document) : Except Error Cursor := do
  let batch ← readReply (readBatch "firstBatch") reply
  if p.isWrite then checkConcern reply
  .ok (.ofBatch p.sentBatchSize p.collection.database.rounds batch)

def openCursor (p : Pipeline) : Call Cursor := do
  Call.settled p.check
  let db := p.collection.database
  let body ← Call.settled (p.body.mapError fun _ => .transport .unencodable)
  let body ← Call.settled (db.withConcern body)
  let reply ← db.command .short body db.readPreference
  Call.settled (p.readOpened reply)

def iter (p : Pipeline) : Program (Iter Cursor) :=
  p.openCursor.run.bind fun opened => .done (.ofOpened opened)

def all [Destination α] (p : Pipeline) (previous : List α) :
    Program (Except Error Unit × List α) := do
  let it ← p.iter
  let (outcome, as, _) ← it.all p.collection.database.rounds previous
  return (outcome, as)

def one [Destination α] (p : Pipeline) (previous : α) : Program (Except Error Unit × α) := do
  let it ← p.iter
  let (found, a, it) ← it.next previous
  match it.close with
  | (.error e, _) => return (.error e, a)
  | (.ok (), _) => return (if found then .ok () else .error .notFound, a)

def explain [Destination α] (p : Pipeline) : Call α := do
  Call.settled p.check
  let body := p.collection.body "aggregate"
    [("pipeline", p.stagesBson), ("explain", .boolean true)]
  let reply ← p.collection.database.command .short body .primary
  Call.settled (decode (.ofDocumentOrdered reply))

end Pipeline
end DocClient
