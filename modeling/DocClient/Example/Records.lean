import DocClient.Destination

/-!
Three records and a variant as callers declare them, one for each way of declaring fields.
-/
namespace DocClient.Example

/-- A person. The identifier is left out while it is empty, the nickname while there is none. -/
structure User where
  id : ObjectId
  name : String
  age : Int32
  nick : Option String
  deriving DecidableEq

namespace User

def default : User := ⟨.empty, "", 0, none⟩

def toFields (u : User) : Fields Bson :=
  (if u.id.isEmpty then [] else [("_id", (Value.objectId u.id).outbound)]) ++
    [("name", .string u.name), ("age", .int32 u.age)] ++
    (match u.nick with
      | some nick => [("nick", .string nick)]
      | none => [])

def fields : List (RecordField User) := [
  .optional "_id" decodeBson fun id u => { u with id },
  .mandatory "name" decodeBson fun name u => { u with name },
  .optional "age" decodeBson fun age u => { u with age },
  .optional "nick" decodeBson fun nick u => { u with nick }]

instance : ToBson User := ⟨fun u => encodeRecord u.toFields⟩
instance : FromBson User := ⟨decodeRecord default fields⟩
instance : Inhabited User := ⟨default⟩
instance : Argument User where
instance : Destination User where

end User

structure Event where
  start : Time
  ends : Option Time
  reminders : List Time
  deriving DecidableEq

namespace Event

def default : Event := ⟨.epoch, none, []⟩

def toFields (e : Event) : Fields Bson := [
  ("at", TimeField.write e.start),
  ("ends", OptionalTimeField.write e.ends),
  ("reminders", TimesField.write e.reminders)]

def fields : List (RecordField Event) := [
  .mandatory "at" TimeField.read fun t e => { e with start := t },
  .optional "ends" OptionalTimeField.read fun ends e => { e with ends },
  .optional "reminders" TimesField.read fun reminders e => { e with reminders }]

instance : ToBson Event := ⟨fun e => encodeRecord e.toFields⟩
instance : FromBson Event := ⟨decodeRecord default fields⟩
instance : Inhabited Event := ⟨default⟩
instance : Argument Event where
instance : Destination Event where

end Event

/-- A report: an order of fields stored as a document, a list of pairs, and anything else. -/
structure Report where
  sort : OrderedDoc
  pairs : OrderedDoc
  extra : Value
  deriving DecidableEq

namespace Report

def default : Report := ⟨⟨[]⟩, ⟨[]⟩, .null⟩

def fields : List (RecordField Report) := [
  .mandatory "sort" OrderedField.read fun sort r => { r with sort },
  .optional "pairs" decodeBson fun pairs r => { r with pairs },
  .optional "extra" decodeBson fun extra r => { r with extra }]

instance : ToBson Report :=
  ⟨fun r => do
    let pairs ← encode r.pairs
    encodeRecord [("sort", OrderedField.write r.sort), ("pairs", pairs), ("extra", r.extra.outbound.serialized)]⟩

instance : FromBson Report := ⟨decodeRecord default fields⟩
instance : Inhabited Report := ⟨default⟩
instance : Argument Report where
instance : Destination Report where

end Report

/-- A variant. A case with content is a document whose only name is the case's. -/
inductive Shape
  | unit
  | new (n : Int32)
  | pair (n : Int32) (s : String)
  | record (a : Int32) (b : Option Bool)
  deriving DecidableEq

namespace Shape

instance : ToBson Shape :=
  ⟨fun
    | .unit => .ok (.string "Unit")
    | .new n => encodeRecord [("New", .int32 n)]
    | .pair n s => encodeRecord [("Pair", .array [.int32 n, .string s])]
    | .record a b => do
      let b ← encode b
      encodeRecord [("Rec", Bson.ofDocument (.ofPairs [("a", .int32 a), ("b", b)]))]⟩

instance : Argument Shape where

end Shape
end DocClient.Example
