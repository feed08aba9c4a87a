import DocClient.Bson.Basic
import DocClient.Number.DoubleText
import DocClient.Number.DecimalFloat
import DocClient.Time.Rfc3339

/-!
Server values as messages show them: scalars bare, strings between quotes but not escaped, everything
else named.
-/
namespace DocClient.Bson

def commaSeparated (parts : List String) : String := String.intercalate ", " parts

def named (name inner : String) : String := name ++ "(" ++ inner ++ ")"

def boolText (b : Bool) : String := if b then "true" else "false"

mutual

def text : Bson → String
  | .null => "null"
  | .boolean b => boolText b
  | .int32 n => toString n.toInt
  | .int64 n => toString n.toInt
  | .double d => d.plainText
  | .string s => "\"" ++ s ++ "\""
  | .array items => "[" ++ commaSeparated (itemTexts items) ++ "]"
  | .document fields => "\x7b " ++ commaSeparated (fieldTexts fields) ++ " \x7d"
  | .objectId id => named "ObjectId" ("\"" ++ id.hex ++ "\"")
  | .dateTime ms => named "DateTime" ("\"" ++ Rfc3339.writeShort (Time.ofMillis ms.toInt) ++ "\"")
  | .binary subtype bytes => named "Binary" (toString subtype.toNat ++ ", " ++ Hex.encode bytes)
  | .regex pattern options => "/" ++ pattern ++ "/" ++ options
  | .timestamp seconds increment =>
    named "Timestamp" (toString seconds.toNat ++ ", " ++ toString increment.toNat)
  | .decimal128 bytes => DecimalFloat.text bytes
  | .symbol s => named "Symbol" ("\"" ++ s ++ "\"")
  | .code source => source
  | .codeWithScope source _ => source
  | .dbPointer place id => named "DbPointer" (place ++ ", " ++ id.hex)
  | .minKey => "MinKey"
  | .maxKey => "MaxKey"
  | .undefined => "undefined"

def itemTexts : List Bson → List String
  | [] => []
  | b :: rest => text b :: itemTexts rest

def fieldTexts : List (String × Bson) → List String
  | [] => []
  | (k, b) :: rest => ("\"" ++ k ++ "\": " ++ text b) :: fieldTexts rest

end

end DocClient.Bson
