import DocClient.Value.Basic

/-!
Values as the server takes them and server values as callers take them. Both ways are total. On the way
out an ordered document keeps the first place of a name and its last value; on the way in a document
becomes unordered, unless the ordered reading is asked for.
-/
namespace DocClient

namespace Value

mutual

/-- The server's form of a value. Times are cut to milliseconds, malformed identifiers become binary. -/
def outbound : Value → Bson
  | .null => .null
  | .bool b => .boolean b
  | .int32 n => .int32 n
  | .int64 n => .int64 n
  | .double d => .double d
  | .string s => .string s
  | .binary bytes => Bson.genericBinary bytes
  | .objectId id =>
    match id.toOid? with
    | some oid => .objectId oid
    | none => Bson.genericBinary id.bytes
  | .time t => .dateTime (Int64.ofInt t.millis)
  | .array items => .array (outboundItems items)
  | .unordered fields => .document (outboundFields fields)
  | .ordered pairs => .document (Fields.collect (outboundFields pairs))
  | .other b => b

def outboundItems : List Value → List Bson
  | [] => []
  | v :: rest => outbound v :: outboundItems rest

def outboundFields : List (String × Value) → List (String × Bson)
  | [] => []
  | (k, v) :: rest => (k, outbound v) :: outboundFields rest

end

end Value

def UnorderedDoc.toDocument (m : UnorderedDoc) : Document := ⟨Value.outboundFields m.fields⟩

def OrderedDoc.toDocument (d : OrderedDoc) : Document :=
  .ofPairs (Value.outboundFields d.pairs)

def Value.outboundDocument? : Value → Option Document
  | .unordered fields => some (UnorderedDoc.toDocument ⟨fields⟩)
  | .ordered pairs => some (OrderedDoc.toDocument ⟨pairs⟩)
  | .other (.document fields) => some ⟨fields⟩
  | _ => none

namespace Bson

mutual

/-- The caller's form of a server value, documents unordered at every level. -/
def inbound : Bson → Value
  | .null => .null
  | .boolean b => .bool b
  | .int32 n => .int32 n
  | .int64 n => .int64 n
  | .double d => .double d
  | .string s => .string s
  | .objectId id => .objectId (.ofOid id)
  | .dateTime ms => .time (Time.ofMillisClamped ms.toInt)
  | .binary subtype bytes =>
    if subtype = genericSubtype ∨ subtype = oldSubtype then .binary bytes
    else .other (.binary subtype bytes)
  | .array items => .array (inboundItems items)
  | .document fields => .unordered (Fields.collectSorted (inboundFields fields))
  | b => .other b

def inboundItems : List Bson → List Value
  | [] => []
  | b :: rest => inbound b :: inboundItems rest

def inboundFields : List (String × Bson) → List (String × Value)
  | [] => []
  | (k, b) :: rest => (k, inbound b) :: inboundFields rest

end

mutual

/-- The caller's form of a server value, documents ordered at every level. -/
def inboundOrdered : Bson → Value
  | .null => .null
  | .boolean b => .bool b
  | .int32 n => .int32 n
  | .int64 n => .int64 n
  | .double d => .double d
  | .string s => .string s
  | .objectId id => .objectId (.ofOid id)
  | .dateTime ms => .time (Time.ofMillisClamped ms.toInt)
  | .binary subtype bytes =>
    if subtype = genericSubtype ∨ subtype = oldSubtype then .binary bytes
    else .other (.binary subtype bytes)
  | .array items => .array (inboundOrderedItems items)
  | .document fields => .ordered (inboundOrderedFields fields)
  | b => .other b

def inboundOrderedItems : List Bson → List Value
  | [] => []
  | b :: rest => inboundOrdered b :: inboundOrderedItems rest

def inboundOrderedFields : List (String × Bson) → List (String × Value)
  | [] => []
  | (k, b) :: rest => (k, inboundOrdered b) :: inboundOrderedFields rest

end

end Bson

def UnorderedDoc.ofDocument (doc : Document) : UnorderedDoc :=
  ⟨Fields.collectSorted (Bson.inboundFields doc.fields)⟩

def OrderedDoc.ofDocument (doc : Document) : OrderedDoc := ⟨Bson.inboundOrderedFields doc.fields⟩

def Value.ofDocumentOrdered (doc : Document) : Value := .ordered (OrderedDoc.ofDocument doc).pairs

def Value.ofDocument (doc : Document) : Value := .unordered (UnorderedDoc.ofDocument doc).fields

end DocClient
