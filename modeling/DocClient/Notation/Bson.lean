import DocClient.Bson.Basic
import DocClient.Notation.Tree

/-!
Server values as plain trees. What a plain tree can hold stands for itself; every other node has a single
member named for its type. A document is a list of pairs, so that its order is kept.
-/
namespace DocClient

namespace Bson

def flagTree (name : String) : Tree := .members [(name, .bool true)]

mutual

def toTree : Bson → Tree
  | .null => .null
  | .boolean b => .bool b
  | .string s => .text s
  | .array items => .list (itemTrees items)
  | .document fields => .members [("doc", .list (pairTrees fields))]
  | .int32 n => .members [("i32", .number n.toInt)]
  | .int64 n => .members [("i64", .ofInt64 n)]
  | .double d => .members [("f64", .ofDouble d)]
  | .objectId id => .members [("oid", .ofBytes id.bytes)]
  | .dateTime ms => .members [("date", .ofInt64 ms)]
  | .binary subtype bytes => .members [("bin", .ofBytes bytes), ("sub", .number subtype.toNat)]
  | .regex pattern options => .members [("regex", .list [.text pattern, .text options])]
  | .timestamp seconds increment =>
    .members [("ts", .list [.number seconds.toNat, .number increment.toNat])]
  | .decimal128 bytes => .members [("dec", .ofBytes bytes)]
  | .symbol s => .members [("symbol", .text s)]
  | .code source => .members [("code", .text source)]
  | .codeWithScope source scope =>
    .members [("codews", .list [.text source, .list (pairTrees scope)])]
  | .dbPointer place id => .members [("dbptr", .list [.text place, .ofBytes id.bytes])]
  | .minKey => flagTree "minkey"
  | .maxKey => flagTree "maxkey"
  | .undefined => flagTree "undef"

def itemTrees : List Bson → List Tree
  | [] => []
  | b :: rest => toTree b :: itemTrees rest

def pairTrees : List (String × Bson) → List Tree
  | [] => []
  | (k, b) :: rest => .list [.text k, toTree b] :: pairTrees rest

end

mutual

def sortNames : Bson → Bson
  | .array items => .array (sortItems items)
  | .document fields => .document (Fields.byName (sortFields fields))
  | .codeWithScope source scope => .codeWithScope source (Fields.byName (sortFields scope))
  | b => b

def sortItems : List Bson → List Bson
  | [] => []
  | b :: rest => sortNames b :: sortItems rest

def sortFields : List (String × Bson) → List (String × Bson)
  | [] => []
  | (k, b) :: rest => (k, sortNames b) :: sortFields rest

end

def ofMembers? : List (String × Tree) → Option Bson
  | [("i32", n)] => n.toInt?.map fun n => .int32 (Int32.ofInt n)
  | [("i64", n)] => n.toInt?.map fun n => .int64 (Int64.ofInt n)
  | [("f64", d)] => d.toDouble?.map .double
  | [("oid", id)] => (id.toBytes?.bind Oid.ofBytes?).map .objectId
  | [("date", ms)] => ms.toInt?.map fun ms => .dateTime (Int64.ofInt ms)
  | [("bin", bytes), ("sub", .number subtype)] =>
    bytes.toBytes?.map (.binary (UInt8.ofNat subtype.toNat))
  | [("regex", .list [.text pattern, .text options])] => some (.regex pattern options)
  | [("ts", .list [.number seconds, .number increment])] =>
    some (.timestamp (UInt32.ofNat seconds.toNat) (UInt32.ofNat increment.toNat))
  | [("dec", bytes)] => bytes.toBytes?.map .decimal128
  | [("symbol", .text s)] => some (.symbol s)
  | [("code", .text source)] => some (.code source)
  | [("dbptr", .list [.text place, id])] => (id.toBytes?.bind Oid.ofBytes?).map (.dbPointer place)
  | [("minkey", _)] => some .minKey
  | [("maxkey", _)] => some .maxKey
  | [("undef", _)] => some .undefined
  | _ => none

end Bson

namespace Tree

mutual

def toBson? : Tree → Option Bson
  | .null => some .null
  | .bool b => some (.boolean b)
  | .text s => some (.string s)
  | .number _ => none
  | .list items => (toItems? items).map .array
  | .members [("doc", .list pairs)] => (toFields? pairs).map fun fields => .document (Fields.collect fields)
  | .members [("codews", .list [.text source, .list pairs])] =>
    (toFields? pairs).map fun scope => .codeWithScope source (Fields.collect scope)
  | .members fields => Bson.ofMembers? fields

def toItems? : List Tree → Option (List Bson)
  | [] => some []
  | t :: rest => do
    let b ← toBson? t
    let bs ← toItems? rest
    some (b :: bs)

def toFields? : List Tree → Option (List (String × Bson))
  | [] => some []
  | .list [.text k, t] :: rest => do
    let b ← toBson? t
    let fields ← toFields? rest
    some ((k, b) :: fields)
  | _ :: _ => none

end

def toDocument? : Tree → Option Document
  | .list pairs => (toFields? pairs).map .ofPairs
  | _ => none

end Tree

namespace Document

def toTree (doc : Document) : Tree := .list (Bson.pairTrees doc.fields)

def sortNames (doc : Document) : Document := ⟨Fields.byName (Bson.sortFields doc.fields)⟩

end Document
end DocClient
