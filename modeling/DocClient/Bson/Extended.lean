import DocClient.Bson.Written
import DocClient.Time.Rfc3339

/-!
The fields that a node shows to a reader of documents. A document shows its own; a node of a type that
plain data lacks shows the fields of its extended form, under names that begin with a dollar sign.
-/
namespace DocClient.Bson

def base64Digit (n : Nat) : Char :=
  if n < 26 then Char.ofNat (65 + n)
  else if n < 52 then Char.ofNat (71 + n)
  else if n < 62 then Char.ofNat (n - 4)
  else if n = 62 then '+'
  else '/'

def base64Chars : Bytes → List Char
  | a :: b :: c :: rest =>
    let n := a.toNat * 65536 + b.toNat * 256 + c.toNat
    [n / 262144, n / 4096 % 64, n / 64 % 64, n % 64].map base64Digit ++ base64Chars rest
  | [a, b] =>
    let n := a.toNat * 1024 + b.toNat * 4
    [n / 4096, n / 64 % 64, n % 64].map base64Digit ++ ['=']
  | [a] =>
    let n := a.toNat * 16
    [n / 64, n % 64].map base64Digit ++ ['=', '=']
  | [] => []

def ofWord (n : UInt32) : Bson :=
  if n.toNat < 0x80000000 then .int32 (Int32.ofInt n.toNat) else .int64 (Int64.ofInt n.toNat)

/-- A date of the years 1970 to 9999 as text, any other as its milliseconds in text. -/
def extendedDate (ms : Int64) : Bson :=
  let t := Time.ofMillis ms.toInt
  if 0 ≤ ms.toInt && (Civil.ofDays (t.seconds / 86400)).year ≤ 9999 then .string (Rfc3339.writeShort t)
  else .document [("$numberLong", .string (toString ms.toInt))]

/-- What a reader of documents sees, if the node shows fields at all. -/
def shownFields? : Bson → Option (Fields Bson)
  | .document fields => some fields
  | .objectId id => some [("$oid", .string id.hex)]
  | .dateTime ms => some [("$date", extendedDate ms)]
  | .binary subtype bytes =>
    if subtype = genericSubtype then none
    else
      some [("$binary", .document [("base64", .string (String.ofList (base64Chars bytes))),
        ("subType", .string (Hex.encode [subtype]))])]
  | .regex pattern options =>
    some [("$regularExpression",
      .document [("pattern", .string pattern), ("options", .string (sortedOptions options))])]
  | .timestamp seconds increment =>
    some [("$timestamp", .document [("t", ofWord seconds), ("i", ofWord increment)])]
  | .decimal128 bytes => some [("$numberDecimalBytes", genericBinary bytes)]
  | .symbol s => some [("$symbol", .string s)]
  | .code source => some [("$code", .string source)]
  | .codeWithScope source scope => some [("$code", .string source), ("$scope", .document scope)]
  | .dbPointer place id =>
    some [("$dbPointer", .document [("$ref", .string place), ("$id", .document [("$oid", .string id.hex)])])]
  | .minKey => some [("$minKey", .int32 1)]
  | .maxKey => some [("$maxKey", .int32 1)]
  | .undefined => some [("$undefined", .boolean true)]
  | _ => none

end DocClient.Bson
