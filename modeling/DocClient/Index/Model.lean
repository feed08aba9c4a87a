import DocClient.Index.Key
import DocClient.Collation

/-!
Index descriptions, as callers state them and as the server keeps them.
-/
namespace DocClient

/-- What a caller asks of an index. An empty name leaves the name to be made from the key. -/
structure Index where
  key : List String
  unique : Bool := false
  background : Bool := false
  sparse : Bool := false
  /-- Only documents that match are indexed. -/
  partialFilter : Option UnorderedDoc := none
  /-- Documents are removed so many milliseconds after the time in the indexed field. -/
  expireAfter : Option Nat := none
  name : String := ""
  collation : Option Collation := none
  defaultLanguage : String := ""
  languageOverride : String := ""
  weights : Option UnorderedDoc := none
  deriving DecidableEq

structure IndexOptions where
  unique : Option Bool := none
  background : Option Bool := none
  sparse : Option Bool := none
  name : Option String := none
  expireAfter : Option Nat := none
  partialFilter : Option Document := none
  collation : Option ServerCollation := none
  defaultLanguage : Option String := none
  languageOverride : Option String := none
  weights : Option Document := none
  deriving DecidableEq

structure IndexModel where
  keys : Document
  options : IndexOptions
  deriving DecidableEq

namespace IndexOptions

/-- Whole seconds, in the narrower integer that holds them. -/
def secondsBson (millis : Nat) : Bson :=
  let seconds := millis / 1000
  if seconds < 0x80000000 then .int32 (Int32.ofInt seconds) else .int64 (Int64.ofInt seconds)

def addTo (o : IndexOptions) (doc : Document) : Document :=
  doc
    |>.putSome "background" (o.background.map .boolean)
    |>.putSome "expireAfterSeconds" (o.expireAfter.map secondsBson)
    |>.putSome "name" (o.name.map .string)
    |>.putSome "sparse" (o.sparse.map .boolean)
    |>.putSome "unique" (o.unique.map .boolean)
    |>.putSome "default_language" (o.defaultLanguage.map .string)
    |>.putSome "language_override" (o.languageOverride.map .string)
    |>.putSome "weights" (o.weights.map .ofDocument)
    |>.putSome "partialFilterExpression" (o.partialFilter.map .ofDocument)
    |>.putSome "collation" (o.collation.map fun c => .ofDocument c.toDocument)

def decodeSeconds (b : Bson) : Except DecodeCause Nat :=
  (decodeInt "seconds" 0 0x7fffffffffffffff b).map fun n => n.toNat * 1000

def decodeCollation (b : Bson) : Except DecodeCause ServerCollation :=
  match b with
  | .document fields => ServerCollation.ofDocument ⟨fields⟩
  | b => wrongType "a document" b

/-- Options that carry nothing here, but must have their type too. -/
def checkOthers (doc : Document) : Except DecodeCause Unit := do
  let _ : List (Option Int32) ←
    eachItem (fun name => doc.optional name decodeBson) ["v", "textIndexVersion", "2dsphereIndexVersion"]
  let _ : List (Option Int) ←
    eachItem (fun name => doc.optional name (decodeInt "a word" 0 0xffffffff)) ["bits", "bucketSize"]
  let _ : List (Option Double) ← eachItem (fun name => doc.optional name decodeBson) ["max", "min"]
  let _ ← eachItem (fun name => doc.optional name Bson.toDocument) ["storageEngine", "wildcardProjection"]
  let _ : Option Bool ← doc.optional "hidden" decodeBson
  .ok ()

def ofDocument (doc : Document) : Except DecodeCause IndexOptions := do
  checkOthers doc
  let unique ← doc.optional "unique" decodeBson
  let background ← doc.optional "background" decodeBson
  let sparse ← doc.optional "sparse" decodeBson
  let name ← doc.optional "name" decodeBson
  let expireAfter ← doc.optional "expireAfterSeconds" decodeSeconds
  let partialFilter ← doc.optional "partialFilterExpression" Bson.toDocument
  let collation ← doc.optional "collation" decodeCollation
  let defaultLanguage ← doc.optional "default_language" decodeBson
  let languageOverride ← doc.optional "language_override" decodeBson
  let weights ← doc.optional "weights" Bson.toDocument
  .ok { unique, background, sparse, name, expireAfter, partialFilter, collation, defaultLanguage,
        languageOverride, weights }

end IndexOptions

namespace IndexModel

def toDocument (m : IndexModel) : Document :=
  (m.options.addTo (.ofPairs [("key", .ofDocument m.keys)])).written

/-- Reads an index document. The options are read together: if one cannot be read, none is. -/
def ofDocument (doc : Document) : Except DecodeCause IndexModel := do
  let doc := doc.written
  let keys ← doc.required "key" Bson.toDocument
  match IndexOptions.ofDocument doc with
  | .ok options => .ok ⟨keys, options⟩
  | .error _ => .ok ⟨keys, {}⟩

def kindText : Bson → String
  | .string s => s
  | b => b.text

/-- Every name and kind of the key, joined by underscores. -/
def generatedName (keys : Document) : String :=
  String.intercalate "_" (keys.fields.map fun (name, kind) => name ++ "_" ++ kindText kind)

/-- The model with a name, made from the key if it has none. -/
def withName (m : IndexModel) : IndexModel :=
  { m with options.name := some (m.options.name.getD (generatedName m.keys)) }

end IndexModel

namespace Index

def ifGiven (s : String) : Option String := if s = "" then none else some s

def toModel (index : Index) : Except Error IndexModel := do
  let collation ← match index.collation with
    | some c => c.toServer.map some
    | none => .ok none
  let keys ← parseIndexKey index.key
  .ok {
    keys
    options := {
      unique := some index.unique
      background := some index.background
      sparse := some index.sparse
      name := ifGiven index.name
      expireAfter := index.expireAfter.filter (· ≠ 0)
      partialFilter := index.partialFilter.map UnorderedDoc.toDocument
      collation
      defaultLanguage := ifGiven index.defaultLanguage
      languageOverride := ifGiven index.languageOverride
      weights := index.weights.map UnorderedDoc.toDocument } }

def ofModel (model : IndexModel) : Except Error Index := do
  let o := model.options
  let collation ← match o.collation with
    | some c => (Collation.ofServer c).map some
    | none => .ok none
  .ok {
    key := indexFields model.keys o.weights
    unique := o.unique.getD false
    background := o.background.getD false
    sparse := o.sparse.getD false
    partialFilter := o.partialFilter.map UnorderedDoc.ofDocument
    expireAfter := o.expireAfter
    name := o.name.getD ""
    collation
    defaultLanguage := o.defaultLanguage.getD ""
    languageOverride := o.languageOverride.getD ""
    weights := o.weights.map UnorderedDoc.ofDocument }

end Index
end DocClient
