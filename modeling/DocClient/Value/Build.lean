import DocClient.Codec.Encode

/-!
Plain values taken into value trees, without the codec, and the documents built of them.
-/
namespace DocClient

class ToValue (α : Type) where
  toValue : α → Value

export ToValue (toValue)

instance : ToValue Value := ⟨id⟩
instance : ToValue Bool := ⟨.bool⟩
instance : ToValue Int32 := ⟨.int32⟩
instance : ToValue Int64 := ⟨.int64⟩
instance : ToValue UInt32 := ⟨fun n => .int64 (Int64.ofInt n.toNat)⟩

/-- A word above the signed range wraps around. -/
instance : ToValue UInt64 := ⟨fun n => .int64 n.toInt64⟩

instance : ToValue Double := ⟨.double⟩
instance : ToValue String := ⟨.string⟩
instance : ToValue ObjectId := ⟨.objectId⟩
instance : ToValue Time := ⟨.time⟩
instance : ToValue UnorderedDoc := ⟨fun m => .unordered m.fields⟩
instance : ToValue OrderedDoc := ⟨fun d => .ordered d.pairs⟩
instance : ToValue Bson := ⟨Bson.inbound⟩
instance : ToValue Document := ⟨Value.ofDocument⟩
instance : ToValue (Dictionary String Value) := ⟨fun d => Value.ofPairs d.entries⟩

instance {α : Type} [ToValue α] : ToValue (Option α) :=
  ⟨fun
    | none => .null
    | some a => toValue a⟩

instance {α : Type} [ToValue α] : ToValue (List α) := ⟨fun as => .array (as.map toValue)⟩

instance : ToValue Bytes := ⟨.binary⟩

def entry {α : Type} [ToValue α] (name : String) (a : α) : String × Value := (name, toValue a)

end DocClient
