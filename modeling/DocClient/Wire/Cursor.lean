import DocClient.Wire.Reply

/-!
Cursors: the documents of a result, batch by batch.
-/
namespace DocClient

class Source (σ : Type) where
  /-- The next document, nothing at the end, or what went wrong; and what is left. -/
  pull : σ → Program (Except Error (Option Document) × σ)

/-- The rest of a result on the server. An identifier of zero means that there are no more batches. -/
structure Cursor where
  database : String
  collection : String
  id : Int64
  batch : List Document
  /-- The size that is asked for with each further batch. -/
  batchSize : Option UInt32
  /-- How many empty batches in a row are put up with. -/
  rounds : Nat

namespace Cursor

def ofBatch (batchSize : Option UInt32) (rounds : Nat) (batch : Batch) : Cursor :=
  ⟨batch.database, batch.collection, batch.id, batch.documents, batchSize, rounds⟩

def nextBatch (c : Cursor) : Command where
  database := c.database
  body := (Document.ofPairs [("getMore", .int64 c.id), ("collection", .string c.collection)])
    |>.putSome "batchSize" ((c.batchSize.filter (· ≠ 0)).map fun n => .int32 (Int32.ofInt n.toNat))
  readPreference := .primary

def refill (c : Cursor) (batch : Batch) : Cursor :=
  { c with database := batch.database, collection := batch.collection, id := batch.id,
           batch := batch.documents }

def readNext (answer : Except Error Document) : Except Error Batch := do
  let reply ← answer
  checkSuccess reply
  readReply (readBatch "nextBatch") reply

def pullWithin (c : Cursor) (rounds : Nat) : Program (Except Error (Option Document) × Cursor) :=
  match c.batch with
  | doc :: rest => .done (.ok (some doc), { c with batch := rest })
  | [] =>
    if c.id = 0 then .done (.ok none, c)
    else
      match rounds with
      | 0 => .exhausted
      | rounds + 1 => do
        let answer ← (Call.send c.nextBatch .short).run
        match readNext answer with
        | .ok batch => pullWithin (c.refill batch) rounds
        | .error e => .done (.error e, c)

instance : Source Cursor := ⟨fun c => c.pullWithin c.rounds⟩

/-- What every document that is left reads as, up to the first failure. -/
def collectWithin {α : Type} (c : Cursor) (read : Document → Except Error α) (rounds : Nat) :
    Call (List α) :=
  match rounds with
  | 0 => ExceptT.mk .exhausted
  | rounds + 1 => do
    let (pulled, c) ← ExceptT.lift (Source.pull c)
    match ← Call.settled pulled with
    | none => return []
    | some doc => do
      let a ← Call.settled (read doc)
      let rest ← collectWithin c read rounds
      return a :: rest

end Cursor
end DocClient
