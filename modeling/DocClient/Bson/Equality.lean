import DocClient.Bson.Basic

/-!
Two equalities of trees. `same` is the one that programs see: numbers by value, documents as sets of
fields. Equality of the trees themselves is decidable by `beq`.
-/
namespace DocClient.Bson

mutual

/-- Equal as data: doubles numerically, documents whatever their order. -/
def same : Bson → Bson → Bool
  | .null, .null | .minKey, .minKey | .maxKey, .maxKey | .undefined, .undefined => true
  | .boolean a, .boolean b => a = b
  | .int32 a, .int32 b => a = b
  | .int64 a, .int64 b => a = b
  | .double a, .double b => a.sameNumber b
  | .string a, .string b => a = b
  | .array a, .array b => sameItems a b
  | .document a, .document b => a.length = b.length && sameFields a b
  | .objectId a, .objectId b => a = b
  | .dateTime a, .dateTime b => a = b
  | .binary s a, .binary t b => s = t && a = b
  | .regex p o, .regex q r => p = q && o = r
  | .timestamp t i, .timestamp u j => t = u && i = j
  | .decimal128 a, .decimal128 b => a = b
  | .symbol a, .symbol b => a = b
  | .code a, .code b => a = b
  | .codeWithScope a s, .codeWithScope b t => a = b && s.length = t.length && sameFields s t
  | .dbPointer p a, .dbPointer q b => p = q && a = b
  | _, _ => false

def sameItems : List Bson → List Bson → Bool
  | [], [] => true
  | a :: as, b :: bs => same a b && sameItems as bs
  | _, _ => false

def sameFields : List (String × Bson) → List (String × Bson) → Bool
  | [], _ => true
  | (k, a) :: rest, others =>
    (match Fields.get? others k with
      | some b => same a b
      | none => false) && sameFields rest others

end

mutual

def beq : Bson → Bson → Bool
  | .null, .null | .minKey, .minKey | .maxKey, .maxKey | .undefined, .undefined => true
  | .boolean a, .boolean b => a = b
  | .int32 a, .int32 b => a = b
  | .int64 a, .int64 b => a = b
  | .double a, .double b => a = b
  | .string a, .string b => a = b
  | .array a, .array b => beqItems a b
  | .document a, .document b => beqFields a b
  | .objectId a, .objectId b => a = b
  | .dateTime a, .dateTime b => a = b
  | .binary s a, .binary t b => s = t && a = b
  | .regex p o, .regex q r => p = q && o = r
  | .timestamp t i, .timestamp u j => t = u && i = j
  | .decimal128 a, .decimal128 b => a = b
  | .symbol a, .symbol b => a = b
  | .code a, .code b => a = b
  | .codeWithScope a s, .codeWithScope b t => a = b && beqFields s t
  | .dbPointer p a, .dbPointer q b => p = q && a = b
  | _, _ => false

def beqItems : List Bson → List Bson → Bool
  | [], [] => true
  | a :: as, b :: bs => beq a b && beqItems as bs
  | _, _ => false

def beqFields : List (String × Bson) → List (String × Bson) → Bool
  | [], [] => true
  | (k, a) :: as, (l, b) :: bs => k = l && beq a b && beqFields as bs
  | _, _ => false

end

mutual

theorem eq_of_beq (a b : Bson) (h : beq a b = true) : a = b := by
  cases a <;> cases b <;> simp only [beq, Bool.and_eq_true, decide_eq_true_eq, Bool.false_eq_true] at h
  case array.array => rw [eq_of_beqItems _ _ h]
  case document.document => rw [eq_of_beqFields _ _ h]
  case codeWithScope.codeWithScope => rw [h.1, eq_of_beqFields _ _ h.2]
  all_goals simp [h]

theorem eq_of_beqItems (as bs : List Bson) (h : beqItems as bs = true) : as = bs := by
  match as, bs with
  | [], [] => rfl
  | a :: as, b :: bs =>
    simp only [beqItems, Bool.and_eq_true] at h
    rw [eq_of_beq a b h.1, eq_of_beqItems as bs h.2]
  | [], _ :: _ => simp [beqItems] at h
  | _ :: _, [] => simp [beqItems] at h

theorem eq_of_beqFields (as bs : List (String × Bson)) (h : beqFields as bs = true) : as = bs := by
  match as, bs with
  | [], [] => rfl
  | (k, a) :: as, (l, b) :: bs =>
    simp only [beqFields, Bool.and_eq_true, decide_eq_true_eq] at h
    rw [h.1.1, eq_of_beq a b h.1.2, eq_of_beqFields as bs h.2]
  | [], _ :: _ => simp [beqFields] at h
  | _ :: _, [] => simp [beqFields] at h

end

mutual

theorem beq_self (a : Bson) : beq a a = true := by
  cases a <;> simp only [beq, Bool.and_eq_true, decide_eq_true_eq, and_self]
  case array items => exact beqItems_self items
  case document fields => exact beqFields_self fields
  case codeWithScope source scope => exact ⟨trivial, beqFields_self scope⟩

theorem beqItems_self (as : List Bson) : beqItems as as = true := by
  match as with
  | [] => rfl
  | a :: as => simp [beqItems, beq_self a, beqItems_self as]

theorem beqFields_self (as : List (String × Bson)) : beqFields as as = true := by
  match as with
  | [] => rfl
  | (k, a) :: as => simp [beqFields, beq_self a, beqFields_self as]

end

instance : DecidableEq Bson := fun a b =>
  decidable_of_iff (beq a b = true) ⟨eq_of_beq a b, fun h => h ▸ beq_self a⟩

end DocClient.Bson

namespace DocClient

deriving instance DecidableEq for Document

/-- Equal as sets of fields. -/
def Document.same (a b : Document) : Bool := (Bson.ofDocument a).same (Bson.ofDocument b)

end DocClient
