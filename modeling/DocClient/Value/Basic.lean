import DocClient.ObjectId
import DocClient.Time.Basic

/-!
The value trees that callers build and receive. There are two kinds of document: an unordered one, held
in ascending order of its names, and an ordered list of pairs, in which a name may repeat.
-/
namespace DocClient

inductive Value
  | null
  | bool (b : Bool)
  | int32 (n : Int32)
  | int64 (n : Int64)
  | double (d : Double)
  | string (s : String)
  | binary (bytes : Bytes)
  | objectId (id : ObjectId)
  | time (t : Time)
  | array (items : List Value)
  | unordered (fields : List (String × Value))
  | ordered (pairs : List (String × Value))
  /-- A server value that has no form of its own among these. -/
  | other (b : Bson)
  deriving Inhabited

structure UnorderedDoc where
  fields : Fields Value
  deriving Inhabited

structure OrderedDoc where
  pairs : Fields Value
  deriving Inhabited

namespace UnorderedDoc

def empty : UnorderedDoc := ⟨[]⟩

def ofPairs (pairs : Fields Value) : UnorderedDoc := ⟨Fields.collectSorted pairs⟩

def insert (m : UnorderedDoc) (name : String) (v : Value) : UnorderedDoc := ⟨m.fields.putSorted name v⟩

end UnorderedDoc

namespace Value

def ofPairs (pairs : Fields Value) : Value := .unordered (Fields.collectSorted pairs)

def isNull : Value → Bool
  | .null => true
  | _ => false

def asString? : Value → Option String
  | .string s => some s
  | _ => none

def asBool? : Value → Option Bool
  | .bool b => some b
  | _ => none

/-- An integer of either width, or a double without a fraction; one out of range is cut to the range. -/
def asInt64? : Value → Option Int64
  | .int32 n => some n.toInt64
  | .int64 n => some n
  | .double d => if d.isIntegral then some d.toInt64 else none
  | _ => none

def asDouble? : Value → Option Double
  | .int32 n => some (Double.ofInt n.toInt)
  | .int64 n => some (Double.ofInt n.toInt)
  | .double d => some d
  | _ => none

def asObjectId? : Value → Option ObjectId
  | .objectId id => some id
  | _ => none

def asTime? : Value → Option Time
  | .time t => some t
  | _ => none

def asArray? : Value → Option (List Value)
  | .array items => some items
  | _ => none

def asUnordered? : Value → Option (Fields Value)
  | .unordered fields => some fields
  | _ => none

def asOrdered? : Value → Option (Fields Value)
  | .ordered pairs => some pairs
  | _ => none

def get? (v : Value) (name : String) : Option Value :=
  match v with
  | .unordered fields => Fields.get? fields name
  | .ordered pairs => Fields.get? pairs name
  | _ => none

def names : Value → List String
  | .unordered fields => Fields.names fields
  | .ordered pairs => Fields.names pairs
  | _ => []

mutual

/-- Whether unordered documents hold ascending names, times lie in the calendar and server values are well formed. -/
def isWellFormed : Value → Bool
  | .time t => decide t.Valid
  | .array items => areWellFormed items
  | .unordered fields => Fields.ascending fields && fieldsWellFormed fields
  | .ordered pairs => fieldsWellFormed pairs
  | .other b => b.isWellFormed
  | _ => true

def areWellFormed : List Value → Bool
  | [] => true
  | v :: rest => isWellFormed v && areWellFormed rest

def fieldsWellFormed : List (String × Value) → Bool
  | [] => true
  | (_, v) :: rest => isWellFormed v && fieldsWellFormed rest

end

end Value
end DocClient
