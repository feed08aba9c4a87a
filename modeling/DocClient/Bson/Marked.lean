import DocClient.Bson.Extended
import DocClient.Number.Reading
import DocClient.ObjectId

/-!
Documents that are the extended form of another node. They have a field with one of the marked names, whose
value says what the node is. The codec never keeps such a document where it writes plain data as server
values: it writes the node. A document that has a marked name but is nobody's extended form stays.
-/
namespace DocClient.Bson

/-- The names under which a document stands for another node. -/
def marks : List String := ["$oid", "$symbol", "$numberInt", "$numberLong", "$numberDouble", "$numberDecimal",
  "$numberDecimalBytes", "$binary", "$code", "$scope", "$timestamp", "$regularExpression", "$dbPointer", "$date",
  "$minKey", "$maxKey", "$undefined", "$__private__bson_RawDocument", "$__private__bson_RawArray"]

def isMark (name : String) : Bool := marks.contains name

/-! ## The values under marked names -/

/-- The bytes whose text this is; there is one text for each. -/
def ofBase64? (text : String) : Option Bytes := do
  let digits ← (text.toList.filter (· ≠ '=')).mapM fun c => (List.range 64).find? fun n => base64Digit n = c
  let n := digits.foldl (fun n digit => 64 * n + digit) 0
  let width := 6 * digits.length
  let bytes : Bytes := (List.range (width / 8)).map fun i => UInt8.ofNat (n >>> (width - 8 * (i + 1)) % 256)
  if base64Chars bytes = text.toList then some bytes else none

def oidOfText? (text : String) : Option Oid := (ObjectId.ofHex text).toOption.bind ObjectId.toOid?

def subtypeOfText? (text : String) : Option UInt8 :=
  match Hex.decode text with
  | .ok [subtype] => some subtype
  | _ => none

def int32OfText? (text : String) : Option Int32 :=
  (readIntWithin (-0x80000000) 0x7fffffff text.toList).map Int32.ofInt

def int64OfText? (text : String) : Option Int64 :=
  (readIntWithin (-0x8000000000000000) 0x7fffffffffffffff text.toList).map Int64.ofInt

def dateOfText? (text : String) : Option Int64 := (Rfc3339.readMillis text).map Int64.ofInt

/-- A regular expression, its options in order. -/
def sortedRegex (pattern options : String) : Bson := .regex pattern (sortedOptions options)

def isOne : Bson → Bool
  | .int32 n => n = 1
  | .int64 n => n = 1
  | _ => false

def decimalOf? : Bson → Option Bytes
  | .binary subtype bytes => if subtype = genericSubtype && bytes.length = 16 then some bytes else none
  | _ => none

def dateOf? : Bson → Option Int64
  | .int64 ms => some ms
  | .string text => dateOfText? text
  | _ => none

/-- The subtype and the bytes in a body: both as text, or else a number and plain bytes. -/
def binaryOf? (body : Document) : Option (UInt8 × Bytes) :=
  match body.get? "base64", body.get? "bytes", body.get? "subType" with
  | some (.string text), _, some (.string subtype) => do
    let bytes ← ofBase64? text
    let subtype ← subtypeOfText? subtype
    some (subtype, bytes)
  | some (.string _), _, _ => none
  | _, some (.binary generic bytes), some (.int32 subtype) =>
    if generic = genericSubtype && 0 ≤ subtype.toInt && subtype.toInt < 256 then
      some (UInt8.ofNat subtype.toInt.toNat, bytes)
    else none
  | _, _, _ => none

/-- The words in a body, both of the same width. A narrow one below zero is taken by its bits. -/
def timestampOf? (body : Document) : Option (UInt32 × UInt32) :=
  match body.get? "t", body.get? "i" with
  | some (.int32 t), some (.int32 i) => some (t.toUInt32, i.toUInt32)
  | some (.int64 t), some (.int64 i) =>
    if 0 ≤ t.toInt && t.toInt < 0x100000000 && 0 ≤ i.toInt && i.toInt < 0x100000000 then
      some (UInt32.ofNat t.toInt.toNat, UInt32.ofNat i.toInt.toNat)
    else none
  | _, _ => none

def regexOf? (body : Document) : Option (String × String) :=
  match body.get? "pattern", body.get? "options" with
  | some (.string pattern), some (.string options) => some (pattern, options)
  | _, _ => none

def dbPointerOf? (body : Document) : Option (String × Oid) :=
  match body.get? "$ref", body.get? "$id" with
  | some (.string place), some (.objectId id) => some (place, id)
  | _, _ => none

/-- The node that a value as the only one, under a marked name, stands for. -/
def ofMarked? (name : String) (b : Bson) : Option Bson :=
  match name with
  | "$oid" => (b.asString?.bind oidOfText?).map .objectId
  | "$symbol" => b.asString?.map .symbol
  | "$numberInt" => (b.asString?.bind int32OfText?).map .int32
  | "$numberLong" => (b.asString?.bind int64OfText?).map .int64
  | "$numberDouble" => (b.asString?.bind Double.read).map .double
  | "$numberDecimal" => (b.asString?.bind DecimalFloat.read).map .decimal128
  | "$numberDecimalBytes" => b.decimalOf?.map .decimal128
  | "$code" => b.asString?.map .code
  | "$date" => b.dateOf?.map .dateTime
  | "$binary" => (b.asDocument?.bind binaryOf?).map fun (subtype, bytes) => .binary subtype bytes
  | "$timestamp" => (b.asDocument?.bind timestampOf?).map fun (seconds, increment) => .timestamp seconds increment
  | "$regularExpression" => (b.asDocument?.bind regexOf?).map fun (pattern, options) => sortedRegex pattern options
  | "$dbPointer" => (b.asDocument?.bind dbPointerOf?).map fun (place, id) => .dbPointer place id
  | "$minKey" => if b.isOne then some .minKey else none
  | "$maxKey" => if b.isOne then some .maxKey else none
  | "$undefined" => if b matches .boolean true then some .undefined else none
  | _ => none

/-- Code, from its text and its scope. -/
def codeOf? (source scope : Option Bson) : Option Bson := do
  let source ← source.bind asString?
  let scope ← scope.bind asDocument?
  some (.codeWithScope source scope.fields)

/-! ## Documents -/

/-- The node whose extended form a document of these fields is. -/
def ofExtended? (fields : Fields Bson) : Option Bson :=
  match fields with
  | [(name, b)] => ofMarked? name b
  | [_, _] => codeOf? (Fields.get? fields "$code") (Fields.get? fields "$scope")
  | _ => none

def ofFields (fields : Fields Bson) : Bson := (ofExtended? fields).getD (.document fields)

mutual

/-- What the codec writes for a node that it is given as plain data. -/
def serialized : Bson → Bson
  | .array items => .array (serializedItems items)
  | .document fields => ofFields (serializedFields fields)
  | .codeWithScope source scope => ofFields [("$code", .string source), ("$scope", ofFields (serializedFields scope))]
  | b => b

def serializedItems : List Bson → List Bson
  | [] => []
  | b :: rest => serialized b :: serializedItems rest

def serializedFields : List (String × Bson) → List (String × Bson)
  | [] => []
  | (k, b) :: rest => (k, serialized b) :: serializedFields rest

end

end DocClient.Bson
