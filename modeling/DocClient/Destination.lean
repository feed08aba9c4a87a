import DocClient.Argument
import DocClient.Codec.Fields

/-!
Decoding values into the places that callers provide. Values, documents, times and identifiers, and
lists of most of them, are assigned directly and accept every stored form; everything else is read by
the codec. A failure leaves the place as it was.
-/
namespace DocClient

class Destination (α : Type) extends FromBson α where
  /-- How a type that needs no codec is assigned. -/
  assign : Option (Value → Except Error α) := none
  /-- How a list of such a type is assigned, if such lists need no codec either. -/
  assignList : Option (Value → Except Error (List α)) := none

namespace Value

def notAs {α : Type} (v : Value) (purpose : Purpose) : Except Error α :=
  .error (.decode (.notAs v purpose))

def toUnorderedDoc (v : Value) : Except Error UnorderedDoc :=
  match v with
  | .unordered fields => .ok ⟨fields⟩
  | .ordered pairs => .ok (.ofPairs pairs)
  | v => v.notAs .unordered

def toOrderedDoc (v : Value) : Except Error OrderedDoc :=
  match v with
  | .ordered pairs => .ok ⟨pairs⟩
  | .unordered fields => .ok ⟨fields⟩
  | .other (.document fields) => .ok (.ofDocument ⟨fields⟩)
  | v => v.notAs .ordered

def toItems (v : Value) : Except Error (List Value) :=
  match v with
  | .array items => .ok items
  | v => v.notAs .slice

def toTime (v : Value) : Except Error Time :=
  match v.toTime? with
  | some t => .ok t
  | none => v.notAs .timestamp

def toObjectId (v : Value) : Except Error ObjectId :=
  match v with
  | .objectId id => .ok id
  | .binary bytes => .ok ⟨bytes⟩
  | .string s =>
    match ObjectId.ofHex s with
    | .ok id => .ok id
    | .error fault => .error (.decode (.badHex s fault))
  | v => v.notAs .objectId

end Value

def eachItem {ε α β : Type} (f : α → Except ε β) : List α → Except ε (List β)
  | [] => .ok []
  | a :: rest => do
    let b ← f a
    let bs ← eachItem f rest
    .ok (b :: bs)

/-- A list whose items are assigned one by one. -/
def Value.toList {α : Type} (assign : Value → Except Error α) (v : Value) : Except Error (List α) := do
  let items ← v.toItems
  eachItem assign items

instance : Destination Value where
  assign := some .ok
  assignList := some (Value.toList .ok)

instance : Destination UnorderedDoc where
  assign := some Value.toUnorderedDoc
  assignList := some (Value.toList Value.toUnorderedDoc)

instance : Destination OrderedDoc where
  assign := some Value.toOrderedDoc

instance : Destination Document where
  assign := some Value.toDocument

instance : Destination Time where
  assign := some Value.toTime
  assignList := some (Value.toList Value.toTime)

instance : Destination ObjectId where
  assign := some Value.toObjectId
  assignList := some (Value.toList Value.toObjectId)

/-- A list of pairs is an ordered document. -/
instance : Destination DocElem where
  assignList := some fun v => v.toOrderedDoc.map OrderedDoc.elems

instance {α : Type} [Destination α] : Destination (List α) where
  assign := Destination.assignList (α := α)

instance {α : Type} [FromBson α] : Destination (Dictionary String α) where
instance {α : Type} [FromBson α] : Destination (Option α) where
instance : Destination Bson where
instance : Destination Bool where
instance : Destination Int32 where
instance : Destination Int64 where
instance : Destination Double where
instance : Destination String where

def readBack {α : Type} [FromBson α] (v : Value) : Except Error α :=
  (decodeBson v.outbound.written).mapError .decode

def decodeFresh {α : Type} [Destination α] (v : Value) : Except Error α :=
  match Destination.assign (α := α) with
  | some f => f v
  | none => readBack v

def decode {α : Type} [Destination α] (v : Value) : Except Error α :=
  if v.isNull then .error .notFound else decodeFresh v

def decodeEach {α : Type} [Destination α] (vs : List Value) : Except Error (List α) :=
  eachItem decodeFresh vs

/-- What a place holds after a result: the result, or what it held before a failure. -/
def assigned {ε α : Type} (previous : α) : Except ε α → α
  | .ok a => a
  | .error _ => previous

def decodeInto {α : Type} [Destination α] (v : Value) (previous : α) : Except Error Unit × α :=
  let r := decode (α := α) v
  (r.map fun _ => (), assigned previous r)

/-- Decodes a sequence into a list, whose earlier content is replaced or kept as a whole. -/
def decodeEachInto {α : Type} [Destination α] (vs : List Value) (previous : List α) :
    Except Error Unit × List α :=
  let r := decodeEach (α := α) vs
  (r.map fun _ => (), assigned previous r)

end DocClient
