import DocClient.Example.Records
import DocClient.Proofs.Outcomes
import DocClient.Proofs.Refusal

/-! Lists that are decoded as one value, and item by item. Main statement: `decoded_alike_iff`, by which the two
agree for the types whose lists are assigned as their items are, and for ordered documents only if both fail or
there are none. -/
namespace DocClient

/-- The codec reads a list item by item, and reports the first item that it cannot read. -/
theorem readBack_array {α : Type} [FromBson α] (vs : List Value) :
    (readBack (.array vs) : Except Error (List α)) = eachItem readBack vs := by
  change (decodeItems decodeBson (Bson.writtenItems (Value.outboundItems vs))).mapError Error.decode = _
  induction vs with
  | nil => rfl
  | cons v rest ih =>
    rw [Value.outboundItems, Bson.writtenItems, decodeItems, eachItem, ← ih]
    unfold readBack
    cases decodeBson (α := α) v.outbound.written with
    | error cause => rfl
    | ok a => cases decodeItems (α := α) decodeBson (Bson.writtenItems (Value.outboundItems rest)) <;> rfl

/-! ### Types whose lists are assigned as their items are -/

/-- Lists of a type are assigned directly exactly if its values are, and item by item in the same way. -/
class AssignedAlike (α : Type) [Destination α] : Prop where
  same : Destination.assignList (α := α) = Destination.assign.map Value.toList

namespace AssignedAlike

/-- Neither the values nor the lists of a type that the codec reads are assigned directly. -/
theorem ofCodec {α : Type} [Destination α] (h : Destination.assign (α := α) = none)
    (hlist : Destination.assignList (α := α) = none) : AssignedAlike α :=
  ⟨hlist.trans (congrArg (Option.map Value.toList) h.symm)⟩

instance : AssignedAlike Value := ⟨rfl⟩
instance : AssignedAlike UnorderedDoc := ⟨rfl⟩
instance : AssignedAlike ObjectId := ⟨rfl⟩
instance : AssignedAlike Time := ⟨rfl⟩
instance : AssignedAlike Int32 := ofCodec rfl rfl
instance : AssignedAlike String := ofCodec rfl rfl

end AssignedAlike

/-- A list is decoded as one value and item by item to the same, the errors included. -/
def DecodedAlike (α : Type) [Destination α] (vs : List Value) : Prop :=
  decode (.array vs) = (decodeEach vs : Except Error (List α))

theorem AssignedAlike.decodedAlike (α : Type) [Destination α] [AssignedAlike α] (vs : List Value) :
    DecodedAlike α vs := by
  have hsame := AssignedAlike.same (α := α)
  have hwhole : decode (.array vs) = (decodeFresh (.array vs) : Except Error (List α)) := rfl
  unfold DecodedAlike
  rw [hwhole]
  unfold decodeEach decodeFresh
  cases hassign : Destination.assign (α := α) with
  | none =>
    have hlist : Destination.assign (α := List α) = none :=
      hsame.trans (congrArg (Option.map Value.toList) hassign)
    rw [hlist]
    exact readBack_array vs
  | some f =>
    have hlist : Destination.assign (α := List α) = some (Value.toList f) :=
      hsame.trans (congrArg (Option.map Value.toList) hassign)
    rw [hlist]
    rfl

/-! ### Lists of ordered documents -/

namespace Value

/-- A list of records of a name and a value, the form of an ordered document inside a record. -/
def ListsPairs (v : Value) : Prop :=
  ∃ items, v.outbound.written = .array items ∧ ∀ b ∈ items, ∃ e : DocElem, decodeBson b = .ok e

theorem exists_toOrderedDoc_iff {v : Value} : (∃ d, v.toOrderedDoc = .ok d) ↔ v.isDocument = true := by
  unfold toOrderedDoc isDocument
  split <;> simp [notAs]

end Value

theorem readBack_eq_ok_iff {α : Type} [FromBson α] {v : Value} {a : α} :
    readBack v = .ok a ↔ decodeBson v.outbound.written = .ok a :=
  mapError_eq_ok_iff

/-- The codec reads an ordered document from the list of its pairs. -/
theorem exists_readBack_orderedDoc_iff {v : Value} :
    (∃ d : OrderedDoc, readBack v = .ok d) ↔ v.ListsPairs := by
  simp only [readBack_eq_ok_iff]
  unfold Value.ListsPairs
  generalize v.outbound.written = b
  constructor
  · rintro ⟨d, hd⟩
    obtain ⟨elems, helems, -⟩ := bind_eq_ok_iff.mp hd
    cases b with
    | array items =>
      have hitems : decodeItems decodeBson items = .ok elems := helems
      rw [decodeItems_eq_eachItem] at hitems
      exact ⟨items, rfl, exists_eachItem_eq_ok_iff.mp ⟨elems, hitems⟩⟩
    | _ => cases helems
  · rintro ⟨items, rfl, hitems⟩
    obtain ⟨elems, helems⟩ := exists_eachItem_eq_ok_iff.mpr hitems
    exact ⟨_, bind_eq_ok_iff.mpr ⟨elems, (decodeItems_eq_eachItem decodeBson items).trans helems, rfl⟩⟩

/-- A document is sent as a document, and not as a list of pairs. -/
theorem Value.not_listsPairs_of_isDocument {v : Value} (h : v.isDocument = true) : ¬ v.ListsPairs := by
  rintro ⟨items, hitems, -⟩
  unfold isDocument at h
  split at h <;> cases h <;> cases hitems

theorem lists_of_orderedDoc_iff (vs : List Value) :
    (decode (.array vs) : Except Error (List OrderedDoc)).toOption = (decodeEach vs).toOption ↔
      vs = [] ∨ (∃ v ∈ vs, ¬ v.ListsPairs) ∧ ∃ v ∈ vs, v.isDocument = false := by
  have hwhole : (decode (.array vs) : Except Error (List OrderedDoc)) = eachItem readBack vs := readBack_array vs
  have heach : (decodeEach vs : Except Error (List OrderedDoc)) = eachItem Value.toOrderedDoc vs := rfl
  have hnone : ∀ (v : Value) (d e : OrderedDoc), readBack v = .ok d → v.toOrderedDoc ≠ .ok e := by
    intro v d e hd he
    exact v.not_listsPairs_of_isDocument (Value.exists_toOrderedDoc_iff.mp ⟨e, he⟩)
      (exists_readBack_orderedDoc_iff.mp ⟨d, hd⟩)
  rw [hwhole, heach, toOption_eachItem_eq_iff hnone]
  simp only [exists_readBack_orderedDoc_iff, Value.exists_toOrderedDoc_iff, Bool.not_eq_true]

/-- A list of pairs is an ordered document, which a list of values is not. -/
theorem lists_of_docElem_iff (vs : List Value) :
    (decode (.array vs) : Except Error (List DocElem)).toOption = (decodeEach vs).toOption ↔
      ∃ v ∈ vs, ∀ e : DocElem, readBack v ≠ .ok e := by
  have hwhole : (decode (.array vs) : Except Error (List DocElem)).toOption = none := rfl
  have heach : (decodeEach vs : Except Error (List DocElem)) = eachItem readBack vs := rfl
  rw [hwhole, heach]
  calc
    none = (eachItem readBack vs : Except Error (List DocElem)).toOption
      ↔ ¬ ∃ elems : List DocElem, eachItem readBack vs = .ok elems := by
        cases (eachItem readBack vs : Except Error (List DocElem)) <;> simp [Except.toOption]
    _ ↔ ∃ v ∈ vs, ∀ e : DocElem, readBack v ≠ .ok e := by
        rw [exists_eachItem_eq_ok_iff]
        push Not
        rfl

/-- A list is decoded as one value and item by item to the same if its items are values, unordered documents,
identifiers, times, integers, texts, or of any type that the codec reads. A list of ordered documents is decoded
alike only if it is empty, or fails both ways. A list of the pairs of a document is decoded alike only if it fails
both ways. -/
theorem decoded_alike_iff (vs : List Value) :
    (DecodedAlike Value vs ∧ DecodedAlike UnorderedDoc vs ∧ DecodedAlike ObjectId vs ∧ DecodedAlike Time vs ∧
      DecodedAlike Int32 vs ∧ DecodedAlike String vs ∧
      ∀ (ρ : Type) [Destination ρ], Destination.assign (α := ρ) = none → Destination.assignList (α := ρ) = none →
        DecodedAlike ρ vs) ∧
      ((decode (.array vs) : Except Error (List OrderedDoc)).toOption = (decodeEach vs).toOption ↔
        vs = [] ∨ (∃ v ∈ vs, ¬ v.ListsPairs) ∧ ∃ v ∈ vs, v.isDocument = false) ∧
      ((decode (.array vs) : Except Error (List DocElem)).toOption = (decodeEach vs).toOption ↔
        ∃ v ∈ vs, ∀ e : DocElem, readBack v ≠ .ok e) := by
  refine ⟨?_, lists_of_orderedDoc_iff vs, lists_of_docElem_iff vs⟩
  have hrecord (ρ : Type) [Destination ρ] (h : Destination.assign (α := ρ) = none)
      (hlist : Destination.assignList (α := ρ) = none) : DecodedAlike ρ vs := by
    have halike : AssignedAlike ρ := .ofCodec h hlist
    exact AssignedAlike.decodedAlike ρ vs
  exact ⟨AssignedAlike.decodedAlike Value vs, AssignedAlike.decodedAlike UnorderedDoc vs,
    AssignedAlike.decodedAlike ObjectId vs, AssignedAlike.decodedAlike Time vs, AssignedAlike.decodedAlike Int32 vs,
    AssignedAlike.decodedAlike String vs, hrecord⟩

/-- A person in a list is decoded alike, and integers are neither documents nor lists of pairs. -/
theorem decoded_alike_of_person :
    let ada : Value := .unordered [("age", .int32 36), ("name", .string "Ada")]
    decodeEach [ada] = (.ok [⟨.empty, "Ada", 36, none⟩] : Except Error (List Example.User)) ∧
      decode (.array [ada]) = (.ok [⟨.empty, "Ada", 36, none⟩] : Except Error (List Example.User)) ∧
      (decode (.array [.int32 1]) : Except Error (List OrderedDoc)).toOption = (decodeEach [.int32 1]).toOption := by
  intro ada
  obtain ⟨⟨-, -, -, -, -, -, hrecord⟩, -⟩ := decoded_alike_iff [ada]
  have heach : decodeEach [ada] = (.ok [⟨.empty, "Ada", 36, none⟩] : Except Error (List Example.User)) := rfl
  have hpairs : ¬ (Value.int32 1).ListsPairs := fun ⟨_, hitems, _⟩ => nomatch hitems
  refine ⟨heach, (hrecord Example.User rfl rfl).trans heach, ?_⟩
  apply (decoded_alike_iff [.int32 1]).2.1.mpr
  exact .inr ⟨⟨_, List.mem_singleton_self _, hpairs⟩, _, List.mem_singleton_self _, rfl⟩

/-- An ordered document in a list is decoded item by item, and not with the list. -/
theorem ordered_item_refused :
    decodeEach [.ordered [("a", .int32 1)]] = .ok [(⟨[("a", .int32 1)]⟩ : OrderedDoc)] ∧
      (decode (.array [.ordered [("a", .int32 1)]]) : Except Error (List OrderedDoc)).toOption = none :=
  ⟨rfl, rfl⟩

end DocClient
