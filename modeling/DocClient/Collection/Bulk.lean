import DocClient.Collection.Basic
import DocClient.Collection.Write

/-!
Writes that are queued and sent in batches: one command for each run of operations of a kind. Failures
are reported by place in the queue.
-/
namespace DocClient

inductive WriteOp
  | insert (doc : Document)
  | update (filter update : Document) (multi upsert : Bool)
  | delete (filter : Document) (multi : Bool)
  deriving DecidableEq

inductive WriteKind
  | insert
  | update
  | delete
  deriving DecidableEq

namespace WriteKind

/-- The command that carries operations of the kind, and the name they go by in it. -/
def command : WriteKind → String
  | .insert => "insert"
  | .update => "update"
  | .delete => "delete"

def listName : WriteKind → String
  | .insert => "documents"
  | .update => "updates"
  | .delete => "deletes"

end WriteKind

namespace WriteOp

def kind : WriteOp → WriteKind
  | .insert _ => .insert
  | .update .. => .update
  | .delete .. => .delete

def entry : WriteOp → Document
  | .insert doc => doc
  | .update filter changes multi upsert => .ofPairs
    [("q", .ofDocument filter), ("u", .ofDocument changes), ("multi", .boolean multi),
     ("upsert", .boolean upsert)]
  | .delete filter multi => .ofPairs
    [("q", .ofDocument filter), ("limit", .int32 (if multi then 0 else 1))]

end WriteOp

structure BulkResult where
  matched : Nat
  modified : Nat
  deriving DecidableEq

/-- A queue of writes. An argument that is refused is kept, the first of several. -/
structure Bulk where
  collection : Collection
  ops : List WriteOp
  ordered : Bool
  err : Option Error

def Collection.bulk (c : Collection) : Bulk := ⟨c, [], true, none⟩

namespace Bulk

def maxBatch : Nat := 1000

def unordered (b : Bulk) : Bulk := { b with ordered := false }

def push (b : Bulk) (op : WriteOp) : Bulk := { b with ops := b.ops ++ [op] }

def refuse (b : Bulk) (e : Error) : Bulk := { b with err := some (b.err.getD e) }

def pushOr (b : Bulk) : Except Error WriteOp → Bulk
  | .ok op => b.push op
  | .error e => b.refuse e

section Queueing

variable {α β : Type}

/-- Queues an insertion; the document takes the fresh identifier if it has no usable one. -/
def insertOne [Argument α] (b : Bulk) (fresh : Oid) (doc : α) : Bulk :=
  b.pushOr ((liftDocument doc).map fun doc => .insert (ensureId fresh doc))

/-- Queues insertions; the document at place `i` of the list has the fresh identifier `i` to take. -/
def insert [Argument α] (b : Bulk) (fresh : Nat → Oid) (docs : List α) : Bulk :=
  docs.zipIdx.foldl (fun b (doc, i) => b.insertOne (fresh i) doc) b

def queueUpdate [Argument α] [Argument β] (b : Bulk) (selector : α) (update : β)
    (multi upsert : Bool) : Bulk :=
  b.pushOr do
    let filter ← liftDocument selector
    let update ← liftDocument update
    return .update filter update multi upsert

def update [Argument α] [Argument β] (b : Bulk) (selector : α) (update : β) : Bulk :=
  b.queueUpdate selector update false false

def updateAll [Argument α] [Argument β] (b : Bulk) (selector : α) (update : β) : Bulk :=
  b.queueUpdate selector update true false

/-- Queues an update of the first match that inserts a document if there is none. -/
def upsert [Argument α] [Argument β] (b : Bulk) (selector : α) (update : β) : Bulk :=
  b.queueUpdate selector update false true

def queueDelete [Argument α] (b : Bulk) (selector : α) (multi : Bool) : Bulk :=
  b.pushOr ((liftDocument selector).map fun filter => .delete filter multi)

def remove [Argument α] (b : Bulk) (selector : α) : Bulk := b.queueDelete selector false

def removeAll [Argument α] (b : Bulk) (selector : α) : Bulk := b.queueDelete selector true

end Queueing

def runs (ops : List WriteOp) : List (List WriteOp) := ops.splitBy fun a b => a.kind = b.kind

/-- Pieces of a fixed length, the last of which may be shorter. -/
def pieces (size : Nat) (ops : List WriteOp) : List (List WriteOp) :=
  if _h : size = 0 ∨ ops = [] then [] else ops.take size :: pieces size (ops.drop size)
termination_by ops.length
decreasing_by
  have : 0 < ops.length := List.length_pos_iff.mpr (by simp_all)
  simp only [List.length_drop]
  omega

/-- Each batch with the place of its first operation. -/
def withOffsets (offset : Nat) : List (List WriteOp) → List (Nat × List WriteOp)
  | [] => []
  | batch :: rest => (offset, batch) :: withOffsets (offset + batch.length) rest

def batches (ops : List WriteOp) : List (Nat × List WriteOp) :=
  withOffsets 0 ((runs ops).flatMap (pieces maxBatch))

def entriesOf (kind : WriteKind) (batch : List WriteOp) : List Bson :=
  (batch.filter (·.kind = kind)).map fun op => .ofDocument op.entry

def batchCommand (collection : String) (batch : List WriteOp) (ordered : Bool)
    (concern : Option WriteConcern) : Except Error Document :=
  match batch with
  | [] => .error (.invalidArgument .emptyBatch)
  | first :: _ =>
    let listOf (kind : WriteKind) : Fields Bson :=
      match entriesOf kind batch with
      | [] => []
      | entries => [(kind.listName, .array entries)]
    let body := Document.ofPairs <|
      [(first.kind.command, Bson.string collection)] ++ listOf .insert ++ listOf .update ++
        listOf .delete ++ [("ordered", .boolean ordered)]
    match concern with
    | none => .ok body
    | some concern =>
      match concern.toDocument with
      | .ok doc => .ok (body.put "writeConcern" (.ofDocument doc))
      | .error fault => .error (.decode (.encode fault))

/-- A count in a reply; what is no number above zero counts as zero. -/
def countIn (doc : Document) (name : String) : UInt64 :=
  match doc.get? name with
  | some (.int32 n) => UInt64.ofNat n.toInt.toNat
  | some (.int64 n) => UInt64.ofNat n.toInt.toNat
  | some (.double d) => if d.isAboveZero then d.toUInt64 else 0
  | _ => 0

def errorIn (doc : Document) : QueryError :=
  let code :=
    match doc.get? "code" with
    | some (.int32 n) => n
    | some (.int64 n) => n.toInt32
    | _ => 0
  let message :=
    match doc.get? "errmsg" with
    | some (.string s) => s
    | _ => ""
  .new code message

/-- Adds the counts of a reply. Insertions are not counted. -/
def addCounts (kind : WriteKind) (reply : Document) (result : BulkResult) : BulkResult :=
  let n := (countIn reply "n").toNat
  match kind with
  | .insert => result
  | .update =>
    let upserted :=
      match reply.get? "upserted" with
      | some (.array items) => items.length
      | _ => 0
    ⟨result.matched + (n - upserted), result.modified + ((countIn reply "nModified").toNat + upserted)⟩
  | .delete => ⟨result.matched + n, result.modified + n⟩

def failedIndex (offset : Nat) (failure : Document) : Int64 :=
  Int64.ofInt offset + (countIn failure "index").toInt64

/-- The failures in a reply to a batch: of operations, then of the acknowledgement. -/
def casesIn (reply : Document) (offset : Nat) : List BulkCase :=
  let failed :=
    match reply.get? "writeErrors" with
    | some (.array items) => items.filterMap fun
      | .document fields => some ⟨failedIndex offset ⟨fields⟩, errorIn ⟨fields⟩⟩
      | _ => none
    | _ => []
  let concern :=
    match reply.get? "writeConcernError" with
    | some (.document fields) => [⟨-1, errorIn ⟨fields⟩⟩]
    | _ => []
  failed ++ concern

/-- The case of a batch that failed as a whole; an error of any other sort ends the run. -/
def batchFailure : Error → Except Error BulkCase
  | .transport (.command code message) => .ok ⟨-1, .new code message⟩
  | .transport failure => .ok ⟨-1, .new (failure.code?.getD 0) failure.message⟩
  | .timeout => .ok ⟨-1, .new 0 Error.timeout.message⟩
  | e => .error e

structure Progress where
  result : BulkResult
  cases : List BulkCase

def Progress.start : Progress := ⟨⟨0, 0⟩, []⟩

/-- The progress after the outcome of a batch. -/
def Progress.add (p : Progress) (kind : WriteKind) (offset : Nat) :
    Except Error Document → Except Error Progress
  | .ok reply => .ok ⟨addCounts kind reply p.result, p.cases ++ casesIn reply offset⟩
  | .error e => do
    let failed ← batchFailure e
    .ok ⟨p.result, p.cases ++ [failed]⟩

/-- Sends batches in turn. An ordered run ends with the first batch that had a failure. -/
def runBatches (b : Bulk) : List (Nat × List WriteOp) → Progress → Call Progress
  | [], p => return p
  | (offset, batch) :: rest, p => do
    let db := b.collection.database
    let body ← Call.settled (batchCommand b.collection.name batch b.ordered db.writeConcern)
    let outcome ← ExceptT.lift (db.command .long body .primary).run
    let kind := (batch.head?.map WriteOp.kind).getD .insert
    let after ← Call.settled (p.add kind offset outcome)
    if b.ordered && p.cases.length < after.cases.length then return after
    else runBatches b rest after

def run (b : Bulk) : Call BulkResult := do
  match b.err with
  | some e => Call.fail e
  | none => do
    let p ← b.runBatches (batches b.ops) .start
    if p.cases.isEmpty then return p.result else Call.fail (.bulk p.cases)

end Bulk
end DocClient
