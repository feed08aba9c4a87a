import DocClient.Bson.Written
import DocClient.Codec.Encode

/-!
What callers may pass as selectors, documents, updates, identifiers and commands. Values and documents
are taken as they are, server documents with their order; everything else goes through the codec, and
what the codec cannot write is refused rather than taken for null.
-/
namespace DocClient

class Argument (α : Type) extends ToBson α where
  /-- How a type that needs no codec becomes a value. -/
  recognised : Option (α → Value) := none
  /-- How a list of such a type becomes one, if lists of it are taken as they are too. -/
  recognisedList : Option (List α → Value) := none
  /-- How a list of such lists becomes one, if they are taken as they are too. -/
  recognisedLists : Option (List (List α) → Value) := none

def viaCodec {α : Type} [ToBson α] (a : α) : Except Error Value :=
  match encode a with
  | .ok b => .ok b.written.inbound
  | .error fault => .error (.decode (.encode fault))

def lift {α : Type} [Argument α] (a : α) : Except Error Value :=
  match Argument.recognised (α := α) with
  | some value => .ok (value a)
  | none =>
    match encode a with
    | .ok b => .ok b.written.inbound
    | .error fault => .error (.invalidArgument (.unconvertible (.encode fault)))

/-- A document for a value that is one; null stands for the empty document. -/
def Value.toDocument (v : Value) : Except Error Document :=
  if v.isNull then .ok .empty
  else
    match v.outboundDocument? with
    | some doc => .ok doc
    | none => .error (.invalidArgument (.notDocument v))

def liftDocument {α : Type} [Argument α] (a : α) : Except Error Document := do
  let v ← lift a
  v.toDocument

/-- The value of a server value, its documents ordered if it is itself a document. -/
def Value.ofBson (b : Bson) : Value :=
  match b with
  | .document fields => .ofDocumentOrdered ⟨fields⟩
  | b => b.inbound

instance : Argument Value where
  recognised := some id
  recognisedList := some .array

instance : Argument UnorderedDoc where
  recognised := some fun m => .unordered m.fields
  recognisedList := some fun ms => .array (ms.map fun m => .unordered m.fields)

instance : Argument OrderedDoc where
  recognised := some fun d => .ordered d.pairs
  recognisedList := some fun ds => .array (ds.map fun d => .ordered d.pairs)

instance : Argument ObjectId where
  recognised := some .objectId
  recognisedList := some fun ids => .array (ids.map .objectId)

instance : Argument Document where
  recognised := some .ofDocumentOrdered
  recognisedList := some fun docs => .array (docs.map .ofDocumentOrdered)

instance : Argument Time where
  recognised := some .time

instance : Argument Bson where
  recognised := some .ofBson

/-- A list of pairs is an ordered document. -/
instance : Argument DocElem where
  recognisedList := some fun elems => .ordered (OrderedDoc.ofElems elems).pairs
  recognisedLists := some fun lists => .array (lists.map fun elems => .ordered (OrderedDoc.ofElems elems).pairs)

/-- A list is taken as it is where its items' type says so. -/
instance {α : Type} [Argument α] : Argument (List α) where
  recognised := Argument.recognisedList
  recognisedList := Argument.recognisedLists

instance {κ α : Type} [ToBson κ] [ToBson α] : Argument (Dictionary κ α) where

/-- A dictionary of values under text keys is an unordered document. -/
instance (priority := high) : Argument (Dictionary String Value) where
  recognised := some fun d => Value.ofPairs d.entries

instance {α : Type} [ToBson α] : Argument (Option α) where
instance {α β : Type} [ToBson α] [ToBson β] : Argument (α × β) where
instance : Argument Bool where
instance : Argument Int8 where
instance : Argument Int16 where
instance : Argument Int32 where
instance : Argument Int64 where
instance : Argument UInt8 where
instance : Argument UInt16 where
instance : Argument UInt32 where
instance : Argument UInt64 where
instance : Argument Single where
instance : Argument Double where
instance : Argument String where
instance : Argument Char where
instance : Argument Unit where

end DocClient
