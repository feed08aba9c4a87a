import DocClient.Codec.Decode
import DocClient.Time.Coercion

/-!
Ways to declare a record's field that the plain types do not give: times stored as dates, which read
from every stored form, and ordered documents stored as documents.
-/
namespace DocClient

namespace TimeField

def write (t : Time) : Bson := .dateTime (Int64.ofInt t.millis)

def ofBson (b : Bson) : Except DecodeCause Time :=
  match b.toTime? with
  | some t => .ok t
  | none => .error (.uninterpretable b)

def read (b : Bson) : Except DecodeCause Time := b.visited >>= ofBson

end TimeField

namespace OptionalTimeField

def write (t : Option Time) : Bson :=
  match t with
  | some t => TimeField.write t
  | none => .null

/-- Null and the undefined value read as no time. -/
def ofBson (b : Bson) : Except DecodeCause (Option Time) :=
  match b with
  | .null | .undefined => .ok none
  | b => (TimeField.ofBson b).map some

def read (b : Bson) : Except DecodeCause (Option Time) := b.visited >>= ofBson

end OptionalTimeField

namespace TimesField

def write (ts : List Time) : Bson := .array (ts.map TimeField.write)

/-- Null reads as no times at all. -/
def ofBson (b : Bson) : Except DecodeCause (List Time) :=
  match b with
  | .array items => decodeItems TimeField.ofBson items
  | .null => .ok []
  | b => .error (.notTimestamps b.typeName)

def read (b : Bson) : Except DecodeCause (List Time) := b.visited >>= ofBson

end TimesField

namespace OrderedField

def write (d : OrderedDoc) : Bson := (Bson.ofDocument d.toDocument).serialized

/-- Null reads as the empty document. -/
def ofBson (b : Bson) : Except DecodeCause OrderedDoc :=
  match b with
  | .document fields => .ok (.ofDocument ⟨fields⟩)
  | .null => .ok ⟨[]⟩
  | b => .error (.notDocument b.typeName)

def read (b : Bson) : Except DecodeCause OrderedDoc := b.visited >>= ofBson

end OrderedField

end DocClient
