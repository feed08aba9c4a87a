import DocClient.Notation.Bson
import DocClient.Value.Basic

/-!
Values as plain trees. An unordered document has a member for each of its names, an ordered one is a list
of pairs.
-/
namespace DocClient

namespace Value

mutual

def toTree : Value → Tree
  | .null => .null
  | .bool b => .bool b
  | .string s => .text s
  | .array items => .list (itemTrees items)
  | .unordered fields => .members [("m", .members (memberTrees fields))]
  | .ordered pairs => .members [("d", .list (pairTrees pairs))]
  | .int32 n => .members [("i32", .number n.toInt)]
  | .int64 n => .members [("i64", .ofInt64 n)]
  | .double d => .members [("f64", .ofDouble d)]
  | .binary bytes => .members [("bin", .ofBytes bytes)]
  | .objectId id => .members [("oid", .ofBytes id.bytes)]
  | .time t => .members [("time", .ofTime t)]
  | .other b => .members [("other", b.toTree)]

def itemTrees : List Value → List Tree
  | [] => []
  | v :: rest => toTree v :: itemTrees rest

def memberTrees : List (String × Value) → List (String × Tree)
  | [] => []
  | (k, v) :: rest => (k, toTree v) :: memberTrees rest

def pairTrees : List (String × Value) → List Tree
  | [] => []
  | (k, v) :: rest => .list [.text k, toTree v] :: pairTrees rest

end

mutual

def sortNames : Value → Value
  | .array items => .array (sortItems items)
  | .unordered fields => .unordered (sortFields fields)
  | .ordered pairs => .ordered (Fields.byName (sortFields pairs))
  | .other b => .other b.sortNames
  | v => v

def sortItems : List Value → List Value
  | [] => []
  | v :: rest => sortNames v :: sortItems rest

def sortFields : List (String × Value) → List (String × Value)
  | [] => []
  | (k, v) :: rest => (k, sortNames v) :: sortFields rest

end

def ofMembers? : List (String × Tree) → Option Value
  | [("i32", n)] => n.toInt?.map fun n => .int32 (Int32.ofInt n)
  | [("i64", n)] => n.toInt?.map fun n => .int64 (Int64.ofInt n)
  | [("f64", d)] => d.toDouble?.map .double
  | [("bin", bytes)] => bytes.toBytes?.map .binary
  | [("oid", id)] => id.toBytes?.map fun bytes => .objectId ⟨bytes⟩
  | [("time", t)] => t.toTime?.map .time
  | [("other", t)] => t.toBson?.map .other
  | _ => none

end Value

namespace Tree

mutual

def toValue? : Tree → Option Value
  | .null => some .null
  | .bool b => some (.bool b)
  | .text s => some (.string s)
  | .number _ => none
  | .list items => (toValues? items).map .array
  | .members [("m", .members fields)] => (toMembers? fields).map Value.ofPairs
  | .members [("d", .list pairs)] => (toPairs? pairs).map .ordered
  | .members fields => Value.ofMembers? fields

def toValues? : List Tree → Option (List Value)
  | [] => some []
  | t :: rest => do
    let v ← toValue? t
    let vs ← toValues? rest
    some (v :: vs)

def toMembers? : List (String × Tree) → Option (List (String × Value))
  | [] => some []
  | (k, t) :: rest => do
    let v ← toValue? t
    let fields ← toMembers? rest
    some ((k, v) :: fields)

def toPairs? : List Tree → Option (List (String × Value))
  | [] => some []
  | .list [.text k, t] :: rest => do
    let v ← toValue? t
    let pairs ← toPairs? rest
    some ((k, v) :: pairs)
  | _ :: _ => none

end

end Tree

namespace UnorderedDoc

def ofTree? : Tree → Option UnorderedDoc
  | .members fields => (Tree.toMembers? fields).map UnorderedDoc.ofPairs
  | _ => none

def toTree (m : UnorderedDoc) : Tree := .members (Value.memberTrees m.fields)

def sortNames (m : UnorderedDoc) : UnorderedDoc := ⟨Value.sortFields m.fields⟩

end UnorderedDoc

namespace OrderedDoc

def ofTree? : Tree → Option OrderedDoc
  | .list pairs => (Tree.toPairs? pairs).map .mk
  | _ => none

def toTree (d : OrderedDoc) : Tree := .list (Value.pairTrees d.pairs)

def sortNames (d : OrderedDoc) : OrderedDoc := ⟨Fields.byName (Value.sortFields d.pairs)⟩

end OrderedDoc
end DocClient
