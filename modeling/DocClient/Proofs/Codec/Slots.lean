import DocClient.Proofs.Destination

/-! Decoding into a place, whatever its type. Main statement: `Slot.decodes_whole`, by which a place is given a whole
result or keeps what it held, and a list is given one result for each value or keeps what it held. -/
namespace DocClient

/-- A value that is missing is told from one that cannot be decoded, and a place of the type gets all of a result or
nothing, whatever it held before. -/
structure DecodesWhole (α : Type) [Destination α] : Prop where
  missing (v : Value) (previous : α) : (decodeInto v previous).1 = .error .notFound ↔ v.isNull = true
  whole (v : Value) :
    (∃ a : α, ∀ previous, decodeInto v previous = (.ok (), a)) ∨
      ∃ e, ∀ previous : α, decodeInto v previous = (.error e, previous)

/-- A list of the type gets one item for each value in their order, or keeps its own if any value cannot be decoded.
A value is decoded as it is on its own, but that null is a value as any other. -/
structure DecodesEach (α : Type) [Destination α] : Prop where
  alone (v : Value) : v.isNull = false → decode v = (decodeFresh v : Except Error α)
  succeeds (vs : List Value) (previous : List α) :
    (decodeEachInto vs previous).1 = .ok () ↔ ∀ v ∈ vs, ∃ a : α, decodeFresh v = .ok a
  replaced (vs : List Value) (previous held : List α) : decodeEachInto vs previous = (.ok (), held) →
    List.Forall₂ (fun v a => decodeFresh v = .ok a) vs held
  kept (vs : List Value) (previous held : List α) (e : Error) : decodeEachInto vs previous = (.error e, held) →
    held = previous ∧ ∃ before v after, vs = before ++ v :: after ∧
      (∀ v' ∈ before, ∃ a : α, decodeFresh v' = .ok a) ∧ (decodeFresh v : Except Error α) = .error e

theorem decodesWhole (α : Type) [Destination α] [CandidDestination α] : DecodesWhole α where
  missing v previous := by
    rw [← decode_eq_notFound_iff (α := α)]
    constructor
    · intro hmissing
      exact (assigned_eq_error_iff.mp (Prod.ext hmissing rfl)).1
    · intro hdecode
      exact congrArg Prod.fst (assigned_eq_error_iff.mpr ⟨hdecode, rfl⟩)
  whole v := by
    cases hdecode : (decode v : Except Error α) with
    | ok a => exact .inl ⟨a, fun _ => assigned_eq_ok_iff.mpr hdecode⟩
    | error e => exact .inr ⟨e, fun _ => assigned_eq_error_iff.mpr ⟨hdecode, rfl⟩⟩

theorem decodesEach (α : Type) [Destination α] : DecodesEach α where
  alone v hnull := if_neg (by simp [hnull])
  succeeds vs previous := by
    rw [← exists_eachItem_eq_ok_iff]
    constructor
    · intro h
      exact ⟨_, assigned_eq_ok_iff.mp (Prod.ext h rfl)⟩
    · rintro ⟨held, h⟩
      exact congrArg Prod.fst (assigned_eq_ok_iff.mpr h)
  replaced vs previous held h := eachItem_eq_ok_iff.mp (assigned_eq_ok_iff.mp h)
  kept vs previous held e h := by
    obtain ⟨hfails, rfl⟩ := assigned_eq_error_iff.mp h
    exact ⟨rfl, eachItem_eq_error_iff.mp hfails⟩

/-- Null is missing on its own, and in a sequence of values one of them. -/
example (previous : Value) (held : List Value) :
    decodeInto .null previous = (.error .notFound, previous) ∧
      decodeEachInto [.null] held = (.ok (), [.null]) := ⟨rfl, rfl⟩

/-- The types that values are decoded into: those that need no codec, lists, and whatever has a codec. -/
inductive Slot : Type 1
  | value
  | unordered
  | ordered
  | document
  | time
  | objectId
  | list (item : Slot)
  | codec (α : Type) [FromBson α]

namespace Slot

def Held : Slot → Type
  | value => Value
  | unordered => UnorderedDoc
  | ordered => OrderedDoc
  | document => Document
  | time => Time
  | objectId => ObjectId
  | list item => List item.Held
  | codec α => α

instance destination : (s : Slot) → Destination s.Held
  | value => inferInstanceAs (Destination Value)
  | unordered => inferInstanceAs (Destination UnorderedDoc)
  | ordered => inferInstanceAs (Destination OrderedDoc)
  | document => inferInstanceAs (Destination Document)
  | time => inferInstanceAs (Destination Time)
  | objectId => inferInstanceAs (Destination ObjectId)
  | list item =>
    have := item.destination
    inferInstanceAs (Destination (List item.Held))
  | @codec _ inst => { toFromBson := inst }

theorem candid (s : Slot) : CandidDestination s.Held := by
  induction s with
  | value => exact inferInstanceAs (CandidDestination Value)
  | unordered => exact inferInstanceAs (CandidDestination UnorderedDoc)
  | ordered => exact inferInstanceAs (CandidDestination OrderedDoc)
  | document => exact inferInstanceAs (CandidDestination Document)
  | time => exact inferInstanceAs (CandidDestination Time)
  | objectId => exact inferInstanceAs (CandidDestination ObjectId)
  | list item ih => exact inferInstanceAs (CandidDestination (List item.Held))
  | codec => exact .ofCodec rfl rfl

/-- Decoding is all or nothing for every type of place. -/
theorem decodes_whole (s : Slot) : DecodesWhole s.Held ∧ DecodesEach s.Held := by
  have hcandid := s.candid
  exact ⟨decodesWhole s.Held, decodesEach s.Held⟩

end Slot
end DocClient
