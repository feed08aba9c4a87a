import DocClient.Proofs.Outcomes

/-! Decoding does not report a value as missing that is there, and of a document only that it cannot be decoded.
The places that are assigned directly and those that the codec reads all do so. Main statements:
`decode_ne_notFound` and `failsOnly_decode_ofDocument`. -/
namespace DocClient

/-- Whatever is wrong with a value, a place of the type does not report it as missing. -/
class CandidDestination (α : Type) [Destination α] : Prop where
  assign : ∀ f ∈ Destination.assign (α := α), ∀ v, f v ≠ .error .notFound
  assignList : ∀ f ∈ Destination.assignList (α := α), ∀ v, f v ≠ .error .notFound

theorem eachItem_ne_notFound {α : Type} {f : Value → Except Error α} (h : ∀ v, f v ≠ .error .notFound)
    (vs : List Value) : eachItem f vs ≠ .error .notFound := by
  intro he
  obtain ⟨-, v, -, -, -, hv⟩ := eachItem_eq_error_iff.mp he
  exact h v hv

section Decoding

variable {α : Type} [Destination α]

theorem readBack_ne_notFound (v : Value) : (readBack v : Except Error α) ≠ .error .notFound := by
  unfold readBack
  cases decodeBson (α := α) v.outbound.written <;> nofun

theorem decode_ne_notFound [CandidDestination α] {v : Value} (h : v.isNull = false) :
    (decode v : Except Error α) ≠ .error .notFound := by
  unfold decode decodeFresh
  rw [if_neg (by simp [h])]
  cases hassign : Destination.assign (α := α) with
  | none => exact readBack_ne_notFound v
  | some f => exact CandidDestination.assign f hassign v

theorem decode_eq_notFound_iff [CandidDestination α] {v : Value} :
    (decode v : Except Error α) = .error .notFound ↔ v.isNull = true := by
  refine ⟨fun hmissing => ?_, fun hnull => if_pos hnull⟩
  by_contra hnull
  exact decode_ne_notFound (Bool.eq_false_iff.mpr hnull) hmissing

/-- The codec says what it could not read. -/
theorem CandidDestination.ofCodec (h : Destination.assign (α := α) = none)
    (hlist : Destination.assignList (α := α) = none) : CandidDestination α where
  assign f hf := by cases h.symm.trans hf
  assignList f hf := by cases hlist.symm.trans hf

end Decoding

/-- Whatever is wrong with a document, a place of the type reports that it cannot be decoded. -/
class DecodingDestination (α : Type) [Destination α] : Prop where
  assign : ∀ f ∈ Destination.assign (α := α), ∀ doc, FailsOnly (fun e => e.kind = .decode) (f (.ofDocument doc))
  assignList : ∀ f ∈ Destination.assignList (α := α), ∀ doc, FailsOnly (fun e => e.kind = .decode) (f (.ofDocument doc))

/-- The codec says that it could not decode. -/
theorem DecodingDestination.ofCodec {α : Type} [Destination α] (h : Destination.assign (α := α) = none)
    (hlist : Destination.assignList (α := α) = none) : DecodingDestination α where
  assign f hf := by cases h.symm.trans hf
  assignList f hf := by cases hlist.symm.trans hf

namespace Value

theorem notAs_ne_notFound {α : Type} (v : Value) (purpose : Purpose) :
    (v.notAs purpose : Except Error α) ≠ .error .notFound := nofun

theorem toUnorderedDoc_ne_notFound (v : Value) : v.toUnorderedDoc ≠ .error .notFound := by
  unfold toUnorderedDoc
  split
  · nofun
  · nofun
  · exact notAs_ne_notFound _ _

theorem toOrderedDoc_ne_notFound (v : Value) : v.toOrderedDoc ≠ .error .notFound := by
  unfold toOrderedDoc
  split
  · nofun
  · nofun
  · nofun
  · exact notAs_ne_notFound _ _

theorem toItems_ne_notFound (v : Value) : v.toItems ≠ .error .notFound := by
  unfold toItems
  split
  · nofun
  · exact notAs_ne_notFound _ _

theorem toList_ne_notFound {α : Type} {assign : Value → Except Error α} (h : ∀ v, assign v ≠ .error .notFound)
    (v : Value) : v.toList assign ≠ .error .notFound := by
  intro he
  obtain hitems | ⟨items, -, hitem⟩ := bind_eq_error_iff.mp he
  · exact toItems_ne_notFound v hitems
  · exact eachItem_ne_notFound h items hitem

theorem toDocument_ne_notFound (v : Value) : v.toDocument ≠ .error .notFound := by
  unfold toDocument
  split
  · nofun
  · split <;> nofun

theorem toTime_ne_notFound (v : Value) : v.toTime ≠ .error .notFound := by
  unfold toTime
  split
  · nofun
  · exact notAs_ne_notFound _ _

theorem toObjectId_ne_notFound (v : Value) : v.toObjectId ≠ .error .notFound := by
  unfold toObjectId
  split
  · nofun
  · nofun
  · split <;> nofun
  · exact notAs_ne_notFound _ _

end Value

namespace CandidDestination

instance : CandidDestination Value where
  assign := by rintro _ ⟨⟩ v; nofun
  assignList := by rintro _ ⟨⟩; exact Value.toList_ne_notFound nofun

instance : CandidDestination UnorderedDoc where
  assign := by rintro _ ⟨⟩; exact Value.toUnorderedDoc_ne_notFound
  assignList := by rintro _ ⟨⟩; exact Value.toList_ne_notFound Value.toUnorderedDoc_ne_notFound

instance : CandidDestination OrderedDoc where
  assign := by rintro _ ⟨⟩; exact Value.toOrderedDoc_ne_notFound
  assignList := nofun

instance : CandidDestination Document where
  assign := by rintro _ ⟨⟩; exact Value.toDocument_ne_notFound
  assignList := nofun

instance : CandidDestination Time where
  assign := by rintro _ ⟨⟩; exact Value.toTime_ne_notFound
  assignList := by rintro _ ⟨⟩; exact Value.toList_ne_notFound Value.toTime_ne_notFound

instance : CandidDestination ObjectId where
  assign := by rintro _ ⟨⟩; exact Value.toObjectId_ne_notFound
  assignList := by rintro _ ⟨⟩; exact Value.toList_ne_notFound Value.toObjectId_ne_notFound

instance : CandidDestination DocElem where
  assign := nofun
  assignList := by
    rintro _ ⟨⟩ v he
    exact Value.toOrderedDoc_ne_notFound v (map_eq_error_iff.mp he)

instance {α : Type} [Destination α] [CandidDestination α] : CandidDestination (List α) where
  assign := CandidDestination.assignList
  assignList := nofun

instance {α : Type} [FromBson α] : CandidDestination (Dictionary String α) := ofCodec rfl rfl
instance {α : Type} [FromBson α] : CandidDestination (Option α) := ofCodec rfl rfl
instance : CandidDestination Bson := ofCodec rfl rfl
instance : CandidDestination Bool := ofCodec rfl rfl
instance : CandidDestination Int32 := ofCodec rfl rfl
instance : CandidDestination Int64 := ofCodec rfl rfl
instance : CandidDestination Double := ofCodec rfl rfl
instance : CandidDestination String := ofCodec rfl rfl

end CandidDestination

namespace DecodingDestination

/-- A document is no list. -/
theorem failsOnly_toList {α : Type} {assign : Value → Except Error α} (doc : Document) :
    FailsOnly (fun e => e.kind = .decode) ((Value.ofDocument doc).toList assign) := failsOnly_error rfl

instance : DecodingDestination Value where
  assign := by rintro _ ⟨⟩ doc; exact failsOnly_ok _
  assignList := by rintro _ ⟨⟩; exact failsOnly_toList

instance : DecodingDestination UnorderedDoc where
  assign := by rintro _ ⟨⟩ doc; exact failsOnly_ok _
  assignList := by rintro _ ⟨⟩; exact failsOnly_toList

instance : DecodingDestination OrderedDoc where
  assign := by rintro _ ⟨⟩ doc; exact failsOnly_ok _
  assignList := nofun

instance : DecodingDestination Document where
  assign := by rintro _ ⟨⟩ doc; exact failsOnly_ok _
  assignList := nofun

instance : DecodingDestination Time where
  assign := by rintro _ ⟨⟩ doc; exact failsOnly_error rfl
  assignList := by rintro _ ⟨⟩; exact failsOnly_toList

instance : DecodingDestination ObjectId where
  assign := by rintro _ ⟨⟩ doc; exact failsOnly_error rfl
  assignList := by rintro _ ⟨⟩; exact failsOnly_toList

instance : DecodingDestination DocElem where
  assign := nofun
  assignList := by rintro _ ⟨⟩ doc; exact failsOnly_ok _

instance {α : Type} [Destination α] [DecodingDestination α] : DecodingDestination (List α) where
  assign := DecodingDestination.assignList
  assignList := nofun

instance {α : Type} [FromBson α] : DecodingDestination (Dictionary String α) := ofCodec rfl rfl
instance {α : Type} [FromBson α] : DecodingDestination (Option α) := ofCodec rfl rfl
instance : DecodingDestination Bson := ofCodec rfl rfl
instance : DecodingDestination Bool := ofCodec rfl rfl
instance : DecodingDestination Int32 := ofCodec rfl rfl
instance : DecodingDestination Int64 := ofCodec rfl rfl
instance : DecodingDestination Double := ofCodec rfl rfl
instance : DecodingDestination String := ofCodec rfl rfl

end DecodingDestination
end DocClient
