import DocClient.Bson.Marked
import DocClient.Error

/-!
How the codec visits server values that are read back as such, whether for themselves or as a step to
something else. A document with a marked name is nothing but the node that the value under the first such
name stands for; if it stands for none the reading fails.
-/
namespace DocClient

def wrongType {α : Type} (expected : String) (b : Bson) : Except DecodeCause α :=
  .error (.wrongType expected b.typeName)

def decodeInt (expected : String) (lo hi : Int) (b : Bson) : Except DecodeCause Int :=
  let bounded (n : Int) : Except DecodeCause Int :=
    if lo ≤ n && n ≤ hi then .ok n else .error (.outOfRange expected n)
  match b with
  | .int32 n => bounded n.toInt
  | .int64 n => bounded n.toInt
  | b => wrongType expected b

/-- Text, also as plain bytes that are well-formed UTF-8. -/
def decodeText? (b : Bson) : Option String :=
  match b with
  | .string s => some s
  | .binary subtype bytes =>
    if subtype = Bson.genericSubtype then String.fromUTF8? ⟨bytes.toArray⟩ else none
  | _ => none

namespace Bson

def readText (b : Bson) : Except DecodeCause String :=
  match decodeText? b with
  | some s => .ok s
  | none => wrongType "text" b

/-- A text that has to stand for something. -/
def readTextAs {α : Type} (expected : String) (parse : String → Option α) (b : Bson) : Except DecodeCause α := do
  let s ← b.readText
  match parse s with
  | some a => .ok a
  | none => .error (.wrongText expected s)

/-! ## The values under marked names -/

/-- The values in a body of some names and no others, which may also be their sequence. -/
def readBody (names : List String) (b : Bson) : Except DecodeCause (List Bson) :=
  match b with
  | .array items => if items.length < names.length then wrongType "a longer sequence" b else .ok items
  | b =>
    match b.shownFields? with
    | none => wrongType "a document" b
    | some fields =>
      match fields.find? (fun p => !names.contains p.1) with
      | some (name, _) => .error (.unknownField name)
      | none => names.mapM fun name =>
        match Fields.get? fields name with
        | some b => .ok b
        | none => .error (.missingField name)

/-- A body of two values. -/
def readPair (first second : String) (b : Bson) : Except DecodeCause (Bson × Bson) := do
  match ← readBody [first, second] b with
  | a :: b :: _ => .ok (a, b)
  | _ => wrongType "a pair" b

/-- The text or the twelve bytes of an identifier. -/
def readOid (b : Bson) : Except DecodeCause Oid :=
  match b with
  | .string s =>
    match oidOfText? s with
    | some id => .ok id
    | none => .error (.wrongText "identifier" s)
  | .binary subtype bytes =>
    match Oid.ofBytes? bytes with
    | some id => if subtype = genericSubtype then .ok id else wrongType "an identifier" b
    | none => wrongType "an identifier" b
  | b => wrongType "an identifier" b

/-- Bytes, also as text or as a sequence of numbers. -/
def readBytes (b : Bson) : Except DecodeCause Bytes :=
  match b with
  | .string s => .ok s.toUTF8.toList
  | .array items => items.mapM fun b => (decodeInt "a byte" 0 255 b).map fun n => UInt8.ofNat n.toNat
  | .binary subtype bytes => if subtype = genericSubtype then .ok bytes else wrongType "bytes" b
  | b => wrongType "bytes" b

def readDecimal (b : Bson) : Except DecodeCause Bytes := do
  let bytes ← b.readBytes
  if bytes.length = 16 then .ok bytes else wrongType "sixteen bytes" b

def readBinary (b : Bson) : Except DecodeCause (UInt8 × Bytes) := do
  let (text, subtype) ← readPair "base64" "subType" b
  let bytes ← text.readTextAs "bytes" ofBase64?
  let subtype ← subtype.readTextAs "subtype" subtypeOfText?
  .ok (subtype, bytes)

def readWord (b : Bson) : Except DecodeCause UInt32 :=
  (decodeInt "a 32-bit word" 0 0xffffffff b).map fun n => UInt32.ofNat n.toNat

def readTimestamp (b : Bson) : Except DecodeCause (UInt32 × UInt32) := do
  let (seconds, increment) ← readPair "t" "i" b
  let seconds ← seconds.readWord
  let increment ← increment.readWord
  .ok (seconds, increment)

def readRegex (b : Bson) : Except DecodeCause (String × String) := do
  let (pattern, options) ← readPair "pattern" "options" b
  let pattern ← pattern.readText
  let options ← options.readText
  .ok (pattern, options)

def readDbPointer (b : Bson) : Except DecodeCause (String × Oid) := do
  let (place, id) ← readPair "$ref" "$id" b
  let place ← place.readText
  match ← readBody ["$oid"] id with
  | text :: _ =>
    let id ← text.readTextAs "identifier" oidOfText?
    .ok (place, id)
  | [] => wrongType "an identifier" id

/-- Milliseconds, also as text within a document of their own, or a date as text. -/
def readDate (b : Bson) : Except DecodeCause Int64 :=
  match b with
  | .int32 ms => .ok ms.toInt64
  | .int64 ms => .ok ms
  | .array [b] | .document [("$numberLong", b)] => b.readTextAs "integer" int64OfText?
  | b => b.readTextAs "date" dateOfText?

/-- The number one, which keys at either end of the order hold. -/
def readOne (b : Bson) : Except DecodeCause Unit := do
  let n ← decodeInt "a byte" 0 255 b
  if n = 1 then .ok () else .error (.outOfRange "a key" n)

def readTrue (b : Bson) : Except DecodeCause Unit :=
  match b with
  | .boolean true => .ok ()
  | b => wrongType "true" b

/-- The node that a value under a marked name stands for. Code is not among them. -/
def readMark (name : String) (b : Bson) : Except DecodeCause Bson :=
  match name with
  | "$oid" => b.readOid.map .objectId
  | "$symbol" => b.readText.map .symbol
  | "$numberInt" => (b.readTextAs "integer" int32OfText?).map .int32
  | "$numberLong" => (b.readTextAs "integer" int64OfText?).map .int64
  | "$numberDouble" => (b.readTextAs "number" Double.read).map .double
  | "$numberDecimal" => (b.readTextAs "number" DecimalFloat.read).map .decimal128
  | "$numberDecimalBytes" => b.readDecimal.map .decimal128
  | "$binary" => b.readBinary.map fun (subtype, bytes) => .binary subtype bytes
  | "$timestamp" => b.readTimestamp.map fun (seconds, increment) => .timestamp seconds increment
  | "$regularExpression" => b.readRegex.map fun (pattern, options) => sortedRegex pattern options
  | "$dbPointer" => b.readDbPointer.map fun (place, id) => .dbPointer place id
  | "$date" => b.readDate.map .dateTime
  | "$minKey" => b.readOne.map fun _ => .minKey
  | "$maxKey" => b.readOne.map fun _ => .maxKey
  | "$undefined" => b.readTrue.map fun _ => .undefined
  | _ => wrongType "a node in extended form" b

/-! ## Documents -/

/-- A field of a document with what the codec makes of its value by itself. -/
structure Visit where
  name : String
  raw : Bson
  seen : Except DecodeCause Bson

def toDocument (b : Bson) : Except DecodeCause Document :=
  match b with
  | .document fields => .ok ⟨fields⟩
  | b => wrongType "a document" b

/-- Code, from its text and the field after it, which must be its scope. -/
def readCode (source : Bson) (rest : List Visit) : Except DecodeCause Bson := do
  let source ← source.readText
  match rest with
  | [] => .ok (.code source)
  | next :: _ =>
    if next.name = "$scope" then
      let scope ← next.seen >>= toDocument
      .ok (.codeWithScope source scope.fields)
    else .error (.unknownField next.name)

/-- Code, from its scope and the field after it, which must be its text. -/
def readScope (scope : Except DecodeCause Bson) (rest : List Visit) : Except DecodeCause Bson := do
  let scope ← scope >>= toDocument
  match rest with
  | [] => .error (.missingField "$code")
  | next :: _ =>
    if next.name = "$code" then
      let source ← next.raw.readText
      .ok (.codeWithScope source scope.fields)
    else .error (.unknownField next.name)

/-- Field by field up to the first marked name, which makes the document what its value stands for. -/
def readFields : List Visit → Except DecodeCause Bson
  | [] => .ok (.document [])
  | field :: rest =>
    if field.name = "$code" then readCode field.raw rest
    else if field.name = "$scope" then readScope field.seen rest
    else if isMark field.name then readMark field.name field.raw
    else do
      let b ← field.seen
      match ← readFields rest with
      | .document fields => .ok (.document ((field.name, b) :: fields))
      | node => .ok node

mutual

/-- What the codec makes of a node that it reads as a server value. -/
def visited : Bson → Except DecodeCause Bson
  | .array items => (visitedItems items).map .array
  | .document fields => readFields (visits fields)
  | .codeWithScope source scope => do
    let scope ← readFields (visits scope) >>= toDocument
    .ok (.codeWithScope source scope.fields)
  | b => .ok b

def visitedItems : List Bson → Except DecodeCause (List Bson)
  | [] => .ok []
  | b :: rest => do
    let b ← visited b
    let bs ← visitedItems rest
    .ok (b :: bs)

def visits : List (String × Bson) → List Visit
  | [] => []
  | (k, b) :: rest => ⟨k, b, visited b⟩ :: visits rest

end

end Bson

end DocClient
