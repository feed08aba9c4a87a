import DocClient.Bson.Marked
import DocClient.Conversion
import DocClient.Error
import DocClient.Time.Rfc3339

/-!
How the codec writes the values of plain types as server values.
-/
namespace DocClient

class ToBson (α : Type) where
  encode : α → Except EncodeFault Bson

export ToBson (encode)

/-- A number of the 32-bit format, given as a double. -/
structure Single where
  nearest : Double

/-- A dictionary, in the order of its keys. -/
structure Dictionary (κ α : Type) where
  entries : List (κ × α)
  deriving Inhabited

/-- One pair of an ordered document, as a record of name and value. -/
structure DocElem where
  name : String
  value : Value
  deriving DecidableEq, Inhabited

def OrderedDoc.elems (d : OrderedDoc) : List DocElem := d.pairs.map fun (k, v) => ⟨k, v⟩

def OrderedDoc.ofElems (elems : List DocElem) : OrderedDoc := ⟨elems.map fun e => (e.name, e.value)⟩

def encodeItems {α : Type} [ToBson α] : List α → Except EncodeFault (List Bson)
  | [] => .ok []
  | a :: rest => do
    let b ← encode a
    let bs ← encodeItems rest
    .ok (b :: bs)

/-- A key as text; a key of any other form is refused. -/
def encodeKey {κ : Type} [ToBson κ] (key : κ) : Except EncodeFault String := do
  match ← encode key with
  | .string s => .ok s
  | _ => .error .keyNotText

def encodeEntries {κ α : Type} [ToBson κ] [ToBson α] :
    List (κ × α) → Except EncodeFault (List (String × Bson))
  | [] => .ok []
  | (k, a) :: rest => do
    let k ← encodeKey k
    let b ← encode a
    let bs ← encodeEntries rest
    .ok ((k, b) :: bs)

def encodeRecord (fields : Fields Bson) : Except EncodeFault Bson :=
  .ok (Bson.ofFields (Fields.collect fields))

instance : ToBson Value := ⟨fun v => .ok v.outbound.serialized⟩
instance : ToBson Bson := ⟨fun b => .ok b.serialized⟩
instance : ToBson Document := ⟨fun doc => .ok (Bson.ofDocument doc).serialized⟩
instance : ToBson UnorderedDoc := ⟨fun m => .ok (Bson.ofDocument m.toDocument).serialized⟩
instance : ToBson ObjectId := ⟨fun id => .ok (Value.objectId id).outbound⟩
instance : ToBson Time := ⟨fun t => .ok (.string (Rfc3339.write t))⟩
instance : ToBson Bool := ⟨fun b => .ok (.boolean b)⟩
instance : ToBson Int8 := ⟨fun n => .ok (.int32 n.toInt32)⟩
instance : ToBson Int16 := ⟨fun n => .ok (.int32 n.toInt32)⟩
instance : ToBson Int32 := ⟨fun n => .ok (.int32 n)⟩
instance : ToBson Int64 := ⟨fun n => .ok (.int64 n)⟩
instance : ToBson UInt8 := ⟨fun n => .ok (.int32 (Int32.ofInt n.toNat))⟩
instance : ToBson UInt16 := ⟨fun n => .ok (.int32 (Int32.ofInt n.toNat))⟩
instance : ToBson UInt32 := ⟨fun n => .ok (.int64 (Int64.ofInt n.toNat))⟩
instance : ToBson Single := ⟨fun x => .ok (.double x.nearest.toSingle)⟩
instance : ToBson Double := ⟨fun x => .ok (.double x)⟩
instance : ToBson String := ⟨fun s => .ok (.string s)⟩
instance : ToBson Char := ⟨fun c => .ok (.string (String.singleton c))⟩
instance : ToBson Unit := ⟨fun _ => .ok .null⟩

/-- A word above the signed range has no form. -/
instance : ToBson UInt64 :=
  ⟨fun n => if n.toNat < 0x8000000000000000 then .ok (.int64 (Int64.ofInt n.toNat)) else .error (.unsignedTooLarge n)⟩

instance : ToBson DocElem :=
  ⟨fun e => encodeRecord [("name", .string e.name), ("value", e.value.outbound.serialized)]⟩

/-- Inside a record an ordered document is a list of records of name and value. -/
instance : ToBson OrderedDoc :=
  ⟨fun d => (encodeItems d.elems).map .array⟩

instance {α : Type} [ToBson α] : ToBson (Option α) :=
  ⟨fun
    | none => .ok .null
    | some a => encode a⟩

instance {α : Type} [ToBson α] : ToBson (List α) := ⟨fun as => (encodeItems as).map .array⟩

instance {α β : Type} [ToBson α] [ToBson β] : ToBson (α × β) :=
  ⟨fun (a, b) => do
    let a ← encode a
    let b ← encode b
    .ok (.array [a, b])⟩

instance {κ α : Type} [ToBson κ] [ToBson α] : ToBson (Dictionary κ α) :=
  ⟨fun d => do
    let fields ← encodeEntries d.entries
    encodeRecord fields⟩

end DocClient
