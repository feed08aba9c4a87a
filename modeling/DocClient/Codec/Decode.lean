import DocClient.Codec.Encode
import DocClient.Codec.Visit

/-!
How the codec reads server values back into plain types, and how records declare their fields.
-/
namespace DocClient

class FromBson (α : Type) where
  decodeBson : Bson → Except DecodeCause α

export FromBson (decodeBson)

def decodeItems {α : Type} (read : Bson → Except DecodeCause α) :
    List Bson → Except DecodeCause (List α)
  | [] => .ok []
  | b :: rest => do
    let a ← read b
    let as ← decodeItems read rest
    .ok (a :: as)

def decodeEntries {α : Type} (read : Bson → Except DecodeCause α) :
    List (String × Bson) → Except DecodeCause (List (String × α))
  | [] => .ok []
  | (k, b) :: rest => do
    let a ← read b
    let as ← decodeEntries read rest
    .ok ((k, a) :: as)

instance : FromBson Bson := ⟨Bson.visited⟩
instance : FromBson Value := ⟨fun b => b.visited.map Bson.inbound⟩
instance : FromBson Document := ⟨fun b => b.visited >>= Bson.toDocument⟩

instance : FromBson Bool :=
  ⟨fun
    | .boolean b => .ok b
    | b => wrongType "a boolean" b⟩

instance : FromBson Int32 :=
  ⟨fun b => (decodeInt "a 32-bit integer" (-0x80000000) 0x7fffffff b).map Int32.ofInt⟩

instance : FromBson Int64 :=
  ⟨fun b => (decodeInt "a 64-bit integer" (-0x8000000000000000) 0x7fffffffffffffff b).map Int64.ofInt⟩

instance : FromBson Double :=
  ⟨fun
    | .double d => .ok d
    | .int32 n => .ok (Double.ofInt n.toInt)
    | .int64 n => .ok (Double.ofInt n.toInt)
    | b => wrongType "a number" b⟩

instance : FromBson String := ⟨Bson.readText⟩

/-- A plain time is kept as text. -/
instance : FromBson Time :=
  ⟨fun
    | .string s =>
      match Rfc3339.readLoose s with
      | some t => .ok t
      | none => .error (.wrongText "time" s)
    | b => wrongType "a time in text" b⟩

/-- An identifier, the bytes or digits of one, or null for the empty one. -/
def Bson.toObjectId (b : Bson) : Except DecodeCause ObjectId :=
  match b with
  | .objectId id => .ok (.ofOid id)
  | .binary _ bytes => .ok ⟨bytes⟩
  | .string s =>
    match ObjectId.ofHex s with
    | .ok id => .ok id
    | .error fault => .error (.badHex s fault)
  | .null => .ok .empty
  | b => .error (.notObjectId b.typeName)

instance : FromBson ObjectId := ⟨fun b => b.visited >>= Bson.toObjectId⟩

def decodeOption {α : Type} (read : Bson → Except DecodeCause α) (b : Bson) : Except DecodeCause (Option α) :=
  match b with
  | .null => .ok none
  | b => (read b).map some

instance {α : Type} [FromBson α] : FromBson (Option α) := ⟨decodeOption decodeBson⟩

def decodeList {α : Type} (read : Bson → Except DecodeCause α) (b : Bson) : Except DecodeCause (List α) :=
  match b with
  | .array items => decodeItems read items
  | b => wrongType "an array" b

instance {α : Type} [FromBson α] : FromBson (List α) := ⟨decodeList decodeBson⟩

/-- The entries of a node that shows fields, whatever their names are. -/
def decodeShown {α : Type} (read : Bson → Except DecodeCause α) (b : Bson) :
    Except DecodeCause (List (String × α)) :=
  match b.shownFields? with
  | some fields => decodeEntries read fields
  | none => wrongType "a document" b

instance {α : Type} [FromBson α] : FromBson (Dictionary String α) :=
  ⟨fun b => (decodeShown decodeBson b).map fun entries => ⟨Fields.collectSorted entries⟩⟩

instance : FromBson UnorderedDoc := ⟨fun b => (decodeShown Bson.visited b).map fun fields => .ofDocument ⟨fields⟩⟩

def Document.required {α : Type} (doc : Document) (name : String)
    (read : Bson → Except DecodeCause α) : Except DecodeCause α :=
  match doc.get? name with
  | none => .error (.missingField name)
  | some b => read b

/-- An optional field: missing or null is unset, anything else must be readable. -/
def Document.optional {α : Type} (doc : Document) (name : String)
    (read : Bson → Except DecodeCause α) : Except DecodeCause (Option α) :=
  match doc.get? name with
  | none | some .null => .ok none
  | some b => (read b).map some

/-- One field of a record: its name, how a value sets it, and whether it may be missing. -/
structure RecordField (ρ : Type) where
  name : String
  set : Bson → ρ → Except DecodeCause ρ
  required : Bool

namespace RecordField

variable {ρ α : Type}

def mandatory (name : String) (read : Bson → Except DecodeCause α) (set : α → ρ → ρ) : RecordField ρ :=
  ⟨name, fun b r => (read b).map (set · r), true⟩

def optional (name : String) (read : Bson → Except DecodeCause α) (set : α → ρ → ρ) : RecordField ρ :=
  ⟨name, fun b r => (read b).map (set · r), false⟩

/-- Sets the fields that a document names, in the document's order; other names are ignored. -/
def setAll (fields : List (RecordField ρ)) : List (String × Bson) → ρ → Except DecodeCause ρ
  | [], r => .ok r
  | (k, b) :: rest, r =>
    match fields.find? (fun f => f.name = k) with
    | some f => do
      let r ← f.set b r
      setAll fields rest r
    | none => setAll fields rest r

/-- Sets the fields in their own order from a sequence; a required one must not be missing. -/
def setInTurn : List (RecordField ρ) → List Bson → ρ → Except DecodeCause ρ
  | [], _, r => .ok r
  | f :: fields, b :: rest, r => do
    let r ← f.set b r
    setInTurn fields rest r
  | f :: fields, [], r =>
    if f.required then .error (.missingField f.name) else setInTurn fields [] r

end RecordField

/-- Reads a record from a document or from the sequence of its fields, starting from the defaults. -/
def decodeRecord {ρ : Type} (default : ρ) (fields : List (RecordField ρ)) (b : Bson) :
    Except DecodeCause ρ :=
  match b with
  | .array items => RecordField.setInTurn fields items default
  | b =>
    match b.shownFields? with
    | some shown => do
      let r ← RecordField.setAll fields shown default
      match fields.find? (fun f => f.required && !Fields.has shown f.name) with
      | some f => .error (.missingField f.name)
      | none => .ok r
    | none => wrongType "a record" b

instance : FromBson DocElem :=
  ⟨decodeRecord ⟨"", .null⟩ [
    .mandatory "name" decodeBson (fun name e => ⟨name, e.value⟩),
    .mandatory "value" decodeBson (fun value e => ⟨e.name, value⟩)]⟩

/-- Inside a record an ordered document is a list of records of name and value. -/
instance : FromBson OrderedDoc :=
  ⟨fun b => do
    let elems : List DocElem ← decodeBson b
    .ok (.ofElems elems)⟩

end DocClient
