import DocClient.Value.Basic
import DocClient.Bson.Equality

/-!
Two equalities of values: `same`, which programs see, and decidable equality of the trees.
-/
namespace DocClient.Value

mutual

/-- Equal as data: doubles numerically, pairs in order, unordered documents as sets of fields. -/
def same : Value → Value → Bool
  | .null, .null => true
  | .bool a, .bool b => a = b
  | .int32 a, .int32 b => a = b
  | .int64 a, .int64 b => a = b
  | .double a, .double b => a.sameNumber b
  | .string a, .string b => a = b
  | .binary a, .binary b => a = b
  | .objectId a, .objectId b => a = b
  | .time a, .time b => a = b
  | .array a, .array b => sameItems a b
  | .unordered a, .unordered b => a.length = b.length && sameFields a b
  | .ordered a, .ordered b => samePairs a b
  | .other a, .other b => a.same b
  | _, _ => false

def sameItems : List Value → List Value → Bool
  | [], [] => true
  | a :: as, b :: bs => same a b && sameItems as bs
  | _, _ => false

def samePairs : List (String × Value) → List (String × Value) → Bool
  | [], [] => true
  | (k, a) :: as, (l, b) :: bs => k = l && same a b && samePairs as bs
  | _, _ => false

def sameFields : List (String × Value) → List (String × Value) → Bool
  | [], _ => true
  | (k, a) :: rest, others =>
    (match Fields.get? others k with
      | some b => same a b
      | none => false) && sameFields rest others

end

mutual

def beq : Value → Value → Bool
  | .null, .null => true
  | .bool a, .bool b => a = b
  | .int32 a, .int32 b => a = b
  | .int64 a, .int64 b => a = b
  | .double a, .double b => a = b
  | .string a, .string b => a = b
  | .binary a, .binary b => a = b
  | .objectId a, .objectId b => a = b
  | .time a, .time b => a = b
  | .array a, .array b => beqItems a b
  | .unordered a, .unordered b => beqFields a b
  | .ordered a, .ordered b => beqFields a b
  | .other a, .other b => a = b
  | _, _ => false

def beqItems : List Value → List Value → Bool
  | [], [] => true
  | a :: as, b :: bs => beq a b && beqItems as bs
  | _, _ => false

def beqFields : List (String × Value) → List (String × Value) → Bool
  | [], [] => true
  | (k, a) :: as, (l, b) :: bs => k = l && beq a b && beqFields as bs
  | _, _ => false

end

mutual

theorem eq_of_beq (a b : Value) (h : beq a b = true) : a = b := by
  cases a <;> cases b <;> simp only [beq, decide_eq_true_eq, Bool.false_eq_true] at h
  case array.array => rw [eq_of_beqItems _ _ h]
  case unordered.unordered => rw [eq_of_beqFields _ _ h]
  case ordered.ordered => rw [eq_of_beqFields _ _ h]
  all_goals simp [h]

theorem eq_of_beqItems (as bs : List Value) (h : beqItems as bs = true) : as = bs := by
  match as, bs with
  | [], [] => rfl
  | a :: as, b :: bs =>
    simp only [beqItems, Bool.and_eq_true] at h
    rw [eq_of_beq a b h.1, eq_of_beqItems as bs h.2]
  | [], _ :: _ => simp [beqItems] at h
  | _ :: _, [] => simp [beqItems] at h

theorem eq_of_beqFields (as bs : List (String × Value)) (h : beqFields as bs = true) : as = bs := by
  match as, bs with
  | [], [] => rfl
  | (k, a) :: as, (l, b) :: bs =>
    simp only [beqFields, Bool.and_eq_true, decide_eq_true_eq] at h
    rw [h.1.1, eq_of_beq a b h.1.2, eq_of_beqFields as bs h.2]
  | [], _ :: _ => simp [beqFields] at h
  | _ :: _, [] => simp [beqFields] at h

end

mutual

theorem beq_self (a : Value) : beq a a = true := by
  cases a <;> simp only [beq, decide_eq_true_eq]
  case array items => exact beqItems_self items
  case unordered fields => exact beqFields_self fields
  case ordered pairs => exact beqFields_self pairs

theorem beqItems_self (as : List Value) : beqItems as as = true := by
  match as with
  | [] => rfl
  | a :: as => simp [beqItems, beq_self a, beqItems_self as]

theorem beqFields_self (as : List (String × Value)) : beqFields as as = true := by
  match as with
  | [] => rfl
  | (k, a) :: as => simp [beqFields, beq_self a, beqFields_self as]

end

instance : DecidableEq Value := fun a b =>
  decidable_of_iff (beq a b = true) ⟨eq_of_beq a b, fun h => h ▸ beq_self a⟩

end DocClient.Value

namespace DocClient

deriving instance DecidableEq for UnorderedDoc, OrderedDoc

end DocClient
