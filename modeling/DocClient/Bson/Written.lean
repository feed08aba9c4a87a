import DocClient.Bson.Basic

/-!
What becomes of a tree when it is written out. The options of a regular expression are written in order,
so that what is read back has them in order. Names, patterns and options end at a NUL where they are
written, so that none of them may hold one.
-/
namespace DocClient

namespace Bson

/-- The letters of options in ascending order. -/
def sortedOptions (options : String) : String :=
  String.ofList (options.toList.mergeSort fun a b => a ≤ b)

mutual

/-- The tree as it is read back. -/
def written : Bson → Bson
  | .regex pattern options => .regex pattern (sortedOptions options)
  | .array items => .array (writtenItems items)
  | .document fields => .document (writtenFields fields)
  | .codeWithScope source scope => .codeWithScope source (writtenFields scope)
  | b => b

def writtenItems : List Bson → List Bson
  | [] => []
  | b :: rest => written b :: writtenItems rest

def writtenFields : List (String × Bson) → List (String × Bson)
  | [] => []
  | (k, b) :: rest => (k, written b) :: writtenFields rest

end

/-- Text that can be written up to a NUL. -/
def isTerminable (s : String) : Bool := s.toList.all fun c => c.toNat ≠ 0

mutual

def isWritable : Bson → Bool
  | .regex pattern options => isTerminable pattern && isTerminable options
  | .array items => areWritable items
  | .document fields => fieldsWritable fields
  | .codeWithScope _ scope => fieldsWritable scope
  | _ => true

def areWritable : List Bson → Bool
  | [] => true
  | b :: rest => isWritable b && areWritable rest

def fieldsWritable : List (String × Bson) → Bool
  | [] => true
  | (k, b) :: rest => isTerminable k && isWritable b && fieldsWritable rest

end

end Bson

namespace Document

def written (doc : Document) : Document := ⟨Bson.writtenFields doc.fields⟩

def isWritable (doc : Document) : Bool := Bson.fieldsWritable doc.fields

end Document
end DocClient
