import DocClient.Argument

/-!
Update documents, identifier filters and the identifiers of inserted documents.
-/
namespace DocClient

def isOperator (name : String) : Bool := name.toList.head? = some '$'

def Value.hasOperators : Value → Bool
  | .unordered fields => (Fields.names fields).any isOperator
  | .ordered pairs => (Fields.names pairs).any isOperator
  | .other (.document fields) => (Fields.names fields).any isOperator
  | _ => false

/-- A value without operators becomes the content of `$set`, so that it merges instead of replacing. -/
def Value.wrapInSet (v : Value) : Value :=
  if v.hasOperators then v else .ofPairs [("$set", v)]

def updateDocument {α : Type} [Argument α] (update : α) : Except Error Document := do
  let v ← lift update
  v.wrapInSet.toDocument

def idFilter {α : Type} [Argument α] (id : α) : Except Error Document := do
  let v ← lift id
  .ok (.ofPairs [("_id", v.outbound)])

/-- Whether an identifier has to be replaced: null, the empty text or no bytes. -/
def isUnusableId : Bson → Bool
  | .null => true
  | .string s => s = ""
  | .binary _ bytes => bytes.isEmpty
  | _ => false

/-- A document with a usable identifier: a fresh one in front if it has none, in place of an unusable one. -/
def ensureId (fresh : Oid) (doc : Document) : Document :=
  match doc.get? "_id" with
  | none => ⟨("_id", .objectId fresh) :: doc.fields⟩
  | some id => if isUnusableId id then doc.put "_id" (.objectId fresh) else doc

/-- The stages of an aggregation: a list of them, a single one, or none for null. -/
def liftPipeline {α : Type} [Argument α] (pipeline : α) : Except Error (List Document) := do
  match ← lift pipeline with
  | .array stages => stages.mapM Value.toDocument
  | .null => .ok []
  | stage => do
    let doc ← stage.toDocument
    .ok [doc]

end DocClient
