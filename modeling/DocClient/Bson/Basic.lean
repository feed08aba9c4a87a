import DocClient.Fields
import DocClient.Number.Double
import DocClient.Text.Hex

/-!
The value trees that travel to and from the server. Documents are ordered; in a well-formed tree the
names of every document are distinct.
-/
namespace DocClient

structure Oid where
  bytes : Bytes
  length_eq : bytes.length = 12
  deriving DecidableEq

namespace Oid

def ofBytes? (bytes : Bytes) : Option Oid :=
  if h : bytes.length = 12 then some ⟨bytes, h⟩ else none

def hex (id : Oid) : String := Hex.encode id.bytes

/-- The identifier of the low ninety-six bits of a number, highest byte first. -/
def ofNat (n : Nat) : Oid :=
  ⟨(List.range 12).map fun i => UInt8.ofNat (n >>> (8 * (11 - i)) % 256), by simp⟩

instance : Inhabited Oid := ⟨ofNat 0⟩

end Oid

inductive Bson
  | null
  | boolean (b : Bool)
  | int32 (n : Int32)
  | int64 (n : Int64)
  | double (d : Double)
  | string (s : String)
  | array (items : List Bson)
  | document (fields : List (String × Bson))
  | objectId (id : Oid)
  /-- Milliseconds since the epoch. -/
  | dateTime (millis : Int64)
  | binary (subtype : UInt8) (bytes : Bytes)
  | regex (pattern options : String)
  | timestamp (seconds increment : UInt32)
  | decimal128 (bytes : Bytes)
  | symbol (s : String)
  | code (source : String)
  | codeWithScope (source : String) (scope : List (String × Bson))
  /-- A pointer of the retired kind: where a document is kept, and its identifier. -/
  | dbPointer (place : String) (id : Oid)
  | minKey
  | maxKey
  | undefined
  deriving Inhabited

structure Document where
  fields : Fields Bson
  deriving Inhabited

namespace Document

def empty : Document := ⟨[]⟩

/-- Pair by pair, a repeated name keeping its place and taking the later value. -/
def ofPairs (pairs : Fields Bson) : Document := ⟨Fields.collect pairs⟩

def get? (doc : Document) (name : String) : Option Bson := Fields.get? doc.fields name

def put (doc : Document) (name : String) (b : Bson) : Document := ⟨Fields.put doc.fields name b⟩

def putSome (doc : Document) (name : String) (b : Option Bson) : Document :=
  match b with
  | some b => doc.put name b
  | none => doc

def names (doc : Document) : List String := Fields.names doc.fields

def isEmpty (doc : Document) : Bool := doc.fields.isEmpty

end Document

namespace Bson

def genericSubtype : UInt8 := 0

/-- The retired subtype of plain bytes. -/
def oldSubtype : UInt8 := 2

def genericBinary (bytes : Bytes) : Bson := .binary genericSubtype bytes

def typeName : Bson → String
  | .null => "Null"
  | .boolean _ => "Boolean"
  | .int32 _ => "Int32"
  | .int64 _ => "Int64"
  | .double _ => "Double"
  | .string _ => "String"
  | .array _ => "Array"
  | .document _ => "EmbeddedDocument"
  | .objectId _ => "ObjectId"
  | .dateTime _ => "DateTime"
  | .binary .. => "Binary"
  | .regex .. => "RegularExpression"
  | .timestamp .. => "Timestamp"
  | .decimal128 _ => "Decimal128"
  | .symbol _ => "Symbol"
  | .code _ => "JavaScriptCode"
  | .codeWithScope .. => "JavaScriptCodeWithScope"
  | .dbPointer .. => "DbPointer"
  | .minKey => "MinKey"
  | .maxKey => "MaxKey"
  | .undefined => "Undefined"

def ofDocument (doc : Document) : Bson := .document doc.fields

def asDocument? : Bson → Option Document
  | .document fields => some ⟨fields⟩
  | _ => none

def asString? : Bson → Option String
  | .string s => some s
  | _ => none

mutual

/-- Whether every document of the tree has distinct names. -/
def isWellFormed : Bson → Bool
  | .array items => areWellFormed items
  | .document fields => Fields.distinct fields && fieldsWellFormed fields
  | .codeWithScope _ scope => Fields.distinct scope && fieldsWellFormed scope
  | _ => true

def areWellFormed : List Bson → Bool
  | [] => true
  | b :: rest => isWellFormed b && areWellFormed rest

def fieldsWellFormed : List (String × Bson) → Bool
  | [] => true
  | (_, b) :: rest => isWellFormed b && fieldsWellFormed rest

end

end Bson

def Document.isWellFormed (doc : Document) : Bool := (Bson.ofDocument doc).isWellFormed

end DocClient
