import DocClient.Value.Basic
import DocClient.Bson.Text
import DocClient.Text.Quoted

/-!
Values as messages show them: every node with the name of its kind, strings quoted and escaped. Of a
server value without a form of its own only the type is shown.
-/
namespace DocClient

def ObjectId.text (id : ObjectId) : String := Bson.named "ObjectIdHex" (Text.quoted id.hex)

namespace Value

def bytesText (bytes : Bytes) : String :=
  "[" ++ Bson.commaSeparated (bytes.map fun b => toString b.toNat) ++ "]"

mutual

def text : Value → String
  | .null => "Null"
  | .bool b => Bson.named "Bool" (Bson.boolText b)
  | .int32 n => Bson.named "Int32" (toString n.toInt)
  | .int64 n => Bson.named "Int64" (toString n.toInt)
  | .double d => Bson.named "Double" d.exactText
  | .string s => Bson.named "String" (Text.quoted s)
  | .binary bytes => Bson.named "Binary" (bytesText bytes)
  | .objectId id => Bson.named "ObjectId" id.text
  | .time t => Bson.named "Time" (Rfc3339.write t)
  | .array items => Bson.named "Array" ("[" ++ Bson.commaSeparated (itemTexts items) ++ "]")
  | .unordered fields =>
    Bson.named "M" ("\x7b" ++ Bson.commaSeparated (fieldTexts fields) ++ "\x7d")
  | .ordered pairs => Bson.named "D" ("[" ++ Bson.commaSeparated (pairTexts pairs) ++ "]")
  | .other b => Bson.named "Other" b.typeName

def itemTexts : List Value → List String
  | [] => []
  | v :: rest => text v :: itemTexts rest

def fieldTexts : List (String × Value) → List String
  | [] => []
  | (k, v) :: rest => (Text.quoted k ++ ": " ++ text v) :: fieldTexts rest

def pairTexts : List (String × Value) → List String
  | [] => []
  | (k, v) :: rest =>
    ("DocElem \x7b name: " ++ Text.quoted k ++ ", value: " ++ text v ++ " \x7d") :: pairTexts rest

end

end Value
end DocClient
