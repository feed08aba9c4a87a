import DocClient.Destination

/-!
Rules for comparing strings, as callers state them and as the server takes them. The caller's form has
text and numbers throughout, in which the empty text, zero and false mean unset; the server's form has a
type for every rule, and a spelling that it does not know is refused.
-/
namespace DocClient

structure Collation where
  locale : String
  caseFirst : String
  strength : Int32
  alternate : String
  maxVariable : String
  normalization : Bool
  caseLevel : Bool
  numericOrdering : Bool
  backwards : Bool
  deriving DecidableEq

inductive CaseFirst
  | upper
  | lower
  | off
  deriving DecidableEq

inductive Alternate
  | nonIgnorable
  | shifted
  deriving DecidableEq

inductive MaxVariable
  | punct
  | space
  deriving DecidableEq

/-- How many levels of difference count: one to five. -/
structure Strength where
  level : Int
  inRange : 1 ≤ level ∧ level ≤ 5
  deriving DecidableEq

structure ServerCollation where
  locale : String
  strength : Option Strength
  caseLevel : Option Bool
  caseFirst : Option CaseFirst
  numericOrdering : Option Bool
  alternate : Option Alternate
  maxVariable : Option MaxVariable
  normalization : Option Bool
  backwards : Option Bool
  deriving DecidableEq

def CaseFirst.spelling : CaseFirst → String
  | .upper => "upper"
  | .lower => "lower"
  | .off => "off"

def CaseFirst.ofSpelling? (s : String) : Option CaseFirst :=
  if s = "upper" then some .upper
  else if s = "lower" then some .lower
  else if s = "off" then some .off
  else none

def Alternate.spelling : Alternate → String
  | .nonIgnorable => "non-ignorable"
  | .shifted => "shifted"

def Alternate.ofSpelling? (s : String) : Option Alternate :=
  if s = "non-ignorable" then some .nonIgnorable
  else if s = "shifted" then some .shifted
  else none

def MaxVariable.spelling : MaxVariable → String
  | .punct => "punct"
  | .space => "space"

def MaxVariable.ofSpelling? (s : String) : Option MaxVariable :=
  if s = "punct" then some .punct
  else if s = "space" then some .space
  else none

def Strength.ofInt? (n : Int) : Option Strength :=
  if h : 1 ≤ n ∧ n ≤ 5 then some ⟨n, h⟩ else none

namespace ServerCollation

def toDocument (c : ServerCollation) : Document :=
  (Document.ofPairs [("locale", .string c.locale)])
    |>.putSome "strength" (c.strength.map fun s => .int32 (Int32.ofInt s.level))
    |>.putSome "caseLevel" (c.caseLevel.map .boolean)
    |>.putSome "caseFirst" (c.caseFirst.map fun x => .string x.spelling)
    |>.putSome "numericOrdering" (c.numericOrdering.map .boolean)
    |>.putSome "alternate" (c.alternate.map fun x => .string x.spelling)
    |>.putSome "maxVariable" (c.maxVariable.map fun x => .string x.spelling)
    |>.putSome "normalization" (c.normalization.map .boolean)
    |>.putSome "backwards" (c.backwards.map .boolean)

end ServerCollation

def decodeSpelling {α : Type} (expected : String) (ofSpelling? : String → Option α) (b : Bson) :
    Except DecodeCause α := do
  let s : String ← decodeBson b
  match ofSpelling? s with
  | some x => .ok x
  | none => .error (.wrongText expected s)

def decodeStrength (b : Bson) : Except DecodeCause Strength := do
  let n ← decodeInt "a strength" 0 0xffffffff b
  match Strength.ofInt? n with
  | some s => .ok s
  | none => .error (.outOfRange "a strength" n)

def ServerCollation.ofDocument (doc : Document) : Except DecodeCause ServerCollation := do
  let strength ← doc.optional "strength" decodeStrength
  let caseLevel ← doc.optional "caseLevel" decodeBson
  let caseFirst ← doc.optional "caseFirst" (decodeSpelling "case order" CaseFirst.ofSpelling?)
  let numericOrdering ← doc.optional "numericOrdering" decodeBson
  let alternate ← doc.optional "alternate" (decodeSpelling "alternate handling" Alternate.ofSpelling?)
  let maxVariable ← doc.optional "maxVariable" (decodeSpelling "variable class" MaxVariable.ofSpelling?)
  let normalization ← doc.optional "normalization" decodeBson
  let backwards ← doc.optional "backwards" decodeBson
  let locale ← doc.required "locale" decodeBson
  .ok { locale, strength, caseLevel, caseFirst, numericOrdering, alternate, maxVariable,
        normalization, backwards }

namespace Collation

def unset : Collation := ⟨"", "", 0, "", "", false, false, false, false⟩

def textUnless (s : String) : Option Bson := if s = "" then none else some (.string s)

def trueOnly (b : Bool) : Option Bson := if b then some (.boolean true) else none

/-- The locale always, every other rule when it is set. -/
def toDocument (c : Collation) : Document :=
  (Document.ofPairs [("locale", .string c.locale)])
    |>.putSome "caseFirst" (textUnless c.caseFirst)
    |>.putSome "strength" (if c.strength = 0 then none else some (.int32 c.strength))
    |>.putSome "alternate" (textUnless c.alternate)
    |>.putSome "maxVariable" (textUnless c.maxVariable)
    |>.putSome "normalization" (trueOnly c.normalization)
    |>.putSome "caseLevel" (trueOnly c.caseLevel)
    |>.putSome "numericOrdering" (trueOnly c.numericOrdering)
    |>.putSome "backwards" (trueOnly c.backwards)

def fields : List (RecordField Collation) := [
  .optional "locale" decodeBson fun locale c => { c with locale },
  .optional "caseFirst" decodeBson fun caseFirst c => { c with caseFirst },
  .optional "strength" decodeBson fun strength c => { c with strength },
  .optional "alternate" decodeBson fun alternate c => { c with alternate },
  .optional "maxVariable" decodeBson fun maxVariable c => { c with maxVariable },
  .optional "normalization" decodeBson fun normalization c => { c with normalization },
  .optional "caseLevel" decodeBson fun caseLevel c => { c with caseLevel },
  .optional "numericOrdering" decodeBson fun numericOrdering c => { c with numericOrdering },
  .optional "backwards" decodeBson fun backwards c => { c with backwards }]

instance : Inhabited Collation := ⟨unset⟩
instance : FromBson Collation := ⟨decodeRecord unset fields⟩
instance : Destination Collation where

def toServer (c : Collation) : Except Error ServerCollation :=
  (ServerCollation.ofDocument c.toDocument).mapError .decode

def ofServer (c : ServerCollation) : Except Error Collation :=
  (decodeBson (Bson.ofDocument c.toDocument)).mapError .decode

end Collation
end DocClient
