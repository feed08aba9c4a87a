import DocClient.Bson.Basic

/-!
Identifiers as callers hold them: byte strings, of which those of twelve bytes are document identifiers
and the others are carried along unchanged.
-/
namespace DocClient

structure ObjectId where
  bytes : Bytes
  deriving DecidableEq, Inhabited

namespace ObjectId

inductive Fault
  | hex (fault : Hex.Fault)
  | length (count : Nat)
  deriving DecidableEq

def empty : ObjectId := ⟨[]⟩

def ofOid (id : Oid) : ObjectId := ⟨id.bytes⟩

/-- The identifier in the server's terms, if it has twelve bytes. -/
def toOid? (id : ObjectId) : Option Oid := Oid.ofBytes? id.bytes

@[simp] theorem toOid?_ofOid (id : Oid) : (ofOid id).toOid? = some id := by
  simp [ofOid, toOid?, Oid.ofBytes?, id.length_eq]

def isValid (id : ObjectId) : Bool := id.bytes.length = 12

def isEmpty (id : ObjectId) : Bool := id.bytes.isEmpty

def hex (id : ObjectId) : String := Hex.encode id.bytes

/-- Reads twenty-four digits of either case. -/
def ofHex (text : String) : Except Fault ObjectId :=
  match Hex.decode text with
  | .error fault => .error (.hex fault)
  | .ok bytes => if bytes.length = 12 then .ok ⟨bytes⟩ else .error (.length bytes.length)

/-- Byte by byte, a proper beginning first. -/
def compareBytes : Bytes → Bytes → Ordering
  | [], [] => .eq
  | [], _ :: _ => .lt
  | _ :: _, [] => .gt
  | a :: as, b :: bs => if a < b then .lt else if b < a then .gt else compareBytes as bs

def compare (a b : ObjectId) : Ordering := compareBytes a.bytes b.bytes

end ObjectId
end DocClient
