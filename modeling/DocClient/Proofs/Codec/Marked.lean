import DocClient.Proofs.Conversion
import DocClient.Proofs.Outcomes

/-! Documents with marked names, which the codec takes for the extended form of another node. A tree without them is
read as it is, and no other tree is: `visited_eq_self_iff`. A document with a marked name is read as a
node that is no document, if at all (`visited_document`), and is written as a document unless it is the extended form
of another node (`eq_of_ofFields`). -/
namespace DocClient.Bson

/-! ### Trees without marked names -/

/-- Whether a node is a document with a marked name. -/
def isMarked : Bson → Bool
  | .document fields => fields.any fun p => isMark p.1
  | _ => false

theorem isMarked_document_iff {fields : Fields Bson} :
    (Bson.document fields).isMarked = false ↔ ∀ p ∈ fields, isMark p.1 = false := by
  simp only [isMarked, List.any_eq_false, Bool.not_eq_true]

theorem isMarked_written (b : Bson) : b.written.isMarked = b.isMarked := by
  cases b with
  | document fields =>
    rw [written, isMarked, isMarked, writtenFields_eq_mapValues, Fields.mapValues, List.any_map]
    rfl
  | _ => rfl

/-- Whether no document of a tree has a marked name, those in the scope of code included. -/
def isUnmarked (b : Bson) : Bool := b.everyNode true fun node => !node.isMarked

theorem isUnmarked_array_iff {items : List Bson} :
    (Bson.array items).isUnmarked = true ↔ ∀ b ∈ items, b.isUnmarked = true := everyItem_iff

theorem isUnmarked_document_iff {fields : Fields Bson} :
    (Bson.document fields).isUnmarked = true ↔ ∀ p ∈ fields, isMark p.1 = false ∧ p.2.isUnmarked = true := by
  rw [isUnmarked, everyNode, Bool.and_eq_true, Bool.not_eq_true', isMarked_document_iff, everyField_iff, ← forall₂_and]
  rfl

theorem isUnmarked_codeWithScope (source : String) (scope : List (String × Bson)) :
    (Bson.codeWithScope source scope).isUnmarked = (Bson.document scope).isUnmarked := rfl

/-- Whether a node has a form of its own in plain data. -/
def isPlain : Bson → Bool
  | .null | .boolean _ | .string _ | .array _ | .document _ => true
  | _ => false

theorem isUnmarked_written (b : Bson) : b.written.isUnmarked = b.isUnmarked :=
  everyNode_written (fun node => congrArg (!·) node.isMarked_written) b

/-! ### What marked names stand for -/

theorem isMark_code : isMark "$code" = true := by decide

theorem isMark_scope : isMark "$scope" = true := by decide

theorem isPlain_of_readMark {name : String} {b node : Bson} (h : b.readMark name = .ok node) :
    node.isPlain = false := by
  unfold readMark at h
  split at h
  all_goals first
    | obtain ⟨_, -, rfl⟩ := map_eq_ok_iff.mp h
      rfl
    | cases h

theorem isPlain_of_readCode {source node : Bson} {rest : List Visit} (h : readCode source rest = .ok node) :
    node.isPlain = false := by
  obtain ⟨text, -, hrest⟩ := bind_eq_ok_iff.mp h
  cases rest with
  | nil =>
    obtain rfl := Except.ok.inj hrest
    rfl
  | cons next rest =>
    dsimp only at hrest
    split at hrest
    · obtain ⟨scope, -, hnode⟩ := bind_eq_ok_iff.mp hrest
      obtain rfl := Except.ok.inj hnode
      rfl
    · cases hrest

theorem isPlain_of_readScope {scope : Except DecodeCause Bson} {node : Bson} {rest : List Visit}
    (h : readScope scope rest = .ok node) : node.isPlain = false := by
  obtain ⟨fields, -, hrest⟩ := bind_eq_ok_iff.mp h
  cases rest with
  | nil => cases hrest
  | cons next rest =>
    dsimp only at hrest
    split at hrest
    · obtain ⟨text, -, hnode⟩ := bind_eq_ok_iff.mp hrest
      obtain rfl := Except.ok.inj hnode
      rfl
    · cases hrest

/-- A field with a marked name makes the document a node that is none, or it cannot be read. -/
theorem isPlain_of_readFields {field : Visit} {rest : List Visit} (hmark : isMark field.name = true) {node : Bson}
    (h : readFields (field :: rest) = .ok node) : node.isPlain = false := by
  unfold readFields at h
  split_ifs at h
  · exact isPlain_of_readCode h
  · exact isPlain_of_readScope h
  · exact isPlain_of_readMark h

/-- A field with another name is kept, if what follows it is. -/
theorem readFields_cons {field : Visit} (hmark : isMark field.name = false) (rest : List Visit) :
    readFields (field :: rest) = field.seen >>= fun b => readFields rest >>= fun node =>
      match node with
      | .document fields => .ok (.document ((field.name, b) :: fields))
      | node => .ok node := by
  have hcode : field.name ≠ "$code" := by
    rintro hname
    rw [hname, isMark_code] at hmark
    cases hmark
  have hscope : field.name ≠ "$scope" := by
    rintro hname
    rw [hname, isMark_scope] at hmark
    cases hmark
  have hplain : ¬ isMark field.name = true := by simp [hmark]
  rw [readFields]
  exact (if_neg hcode).trans ((if_neg hscope).trans (if_neg hplain))

/-! ### Reading -/

theorem eq_document_of_toDocument {b : Bson} {doc : Document} (h : b.toDocument = .ok doc) :
    b = .document doc.fields := by
  unfold toDocument at h
  split at h
  · rw [← Except.ok.inj h]
  · cases h

/-- What the codec makes of the fields of a document one by one. -/
def VisitedFields (fields out : Fields Bson) : Prop :=
  List.Forall₂ (fun p q => isMark p.1 = false ∧ q.1 = p.1 ∧ p.2.visited = .ok q.2) fields out

theorem VisitedFields.names {fields out : Fields Bson} (h : VisitedFields fields out) :
    Fields.names out = Fields.names fields := by
  induction h with
  | nil => rfl
  | cons hpq hrest ih =>
    unfold Fields.names at ih ⊢
    rw [List.map_cons, List.map_cons, hpq.2.1, ih]

/-- What the codec makes of a document is a document with a value made for each name, or a node that is none if there
is a marked name. -/
theorem readFields_visits {fields : Fields Bson} {node : Bson} (h : readFields (visits fields) = .ok node) :
    (∃ out, node = .document out ∧ VisitedFields fields out) ∨
      node.isPlain = false ∧ ∃ p ∈ fields, isMark p.1 = true := by
  induction fields generalizing node with
  | nil => exact .inl ⟨[], (Except.ok.inj h).symm, .nil⟩
  | cons p rest ih =>
    obtain ⟨k, b⟩ := p
    rw [visits] at h
    by_cases hmark : isMark k = true
    · exact .inr ⟨isPlain_of_readFields hmark h, _, List.mem_cons_self, hmark⟩
    · rw [Bool.not_eq_true] at hmark
      rw [readFields_cons hmark] at h
      obtain ⟨seen, hseen, hlater⟩ := bind_eq_ok_iff.mp h
      obtain ⟨last, hlast, hnode⟩ := bind_eq_ok_iff.mp hlater
      rcases ih hlast with ⟨out, rfl, hout⟩ | ⟨hplain, q, hq, hmarked⟩
      · obtain rfl := Except.ok.inj hnode
        exact .inl ⟨_, rfl, .cons ⟨hmark, rfl, hseen⟩ hout⟩
      · have hsame : last = node := by
          cases last <;> first | exact Except.ok.inj hnode | cases hplain
        exact .inr ⟨hsame ▸ hplain, q, List.mem_cons_of_mem _ hq, hmarked⟩

theorem visited_document {fields : Fields Bson} {node : Bson} (h : visited (.document fields) = .ok node) :
    (∃ out, node = .document out ∧ VisitedFields fields out) ∨
      node.isPlain = false ∧ (Bson.document fields).isMarked = true := by
  rw [visited] at h
  rw [isMarked, List.any_eq_true]
  exact readFields_visits h

theorem readFields_of_visitedFields {fields out : Fields Bson} (h : VisitedFields fields out) :
    readFields (visits fields) = .ok (.document out) := by
  induction h with
  | nil => rfl
  | @cons p q rest out hpq hrest ih =>
    obtain ⟨hmark, hname, hseen⟩ := hpq
    have hcons : visits (p :: rest) = ⟨p.1, p.2, p.2.visited⟩ :: visits rest := rfl
    rw [hcons, readFields_cons hmark, hseen, ih, ← hname]
    rfl

mutual

theorem visited_of_isUnmarked {b : Bson} (h : b.isUnmarked = true) : b.visited = .ok b := by
  cases b with
  | array items =>
    rw [visited, visitedItems_of_isUnmarked (isUnmarked_array_iff.mp h)]
    rfl
  | document fields => rw [visited, readFields_of_visitedFields (visitedFields_self (isUnmarked_document_iff.mp h))]
  | codeWithScope source scope =>
    rw [isUnmarked_codeWithScope] at h
    rw [visited, readFields_of_visitedFields (visitedFields_self (isUnmarked_document_iff.mp h))]
    rfl
  | _ => rfl

theorem visitedItems_of_isUnmarked {items : List Bson} (h : ∀ b ∈ items, b.isUnmarked = true) :
    visitedItems items = .ok items := by
  match items with
  | [] => rfl
  | b :: rest =>
    obtain ⟨hfirst, hrest⟩ := List.forall_mem_cons.mp h
    rw [visitedItems, visited_of_isUnmarked hfirst, visitedItems_of_isUnmarked hrest]
    rfl

theorem visitedFields_self {fields : List (String × Bson)}
    (h : ∀ p ∈ fields, isMark p.1 = false ∧ p.2.isUnmarked = true) : VisitedFields fields fields := by
  match fields with
  | [] => exact .nil
  | (k, b) :: rest =>
    obtain ⟨⟨hmark, hb⟩, hrest⟩ := List.forall_mem_cons.mp h
    exact .cons ⟨hmark, rfl, visited_of_isUnmarked hb⟩ (visitedFields_self hrest)

end

theorem inboundOrdered_ne_of_not_isPlain {b : Bson} (h : b.isPlain = false) (pairs : Fields Value) :
    b.inboundOrdered ≠ .ordered pairs := by
  cases b with
  | document => cases h
  | binary subtype bytes =>
    rw [inboundOrdered]
    split <;> rintro ⟨⟩
  | _ => rintro ⟨⟩

mutual

/-- A tree is changed by the codec beyond what it is as a value, unless no document of it has a marked name. -/
theorem isUnmarked_of_inboundOrdered {b seen : Bson} (h : b.visited = .ok seen)
    (hsame : seen.inboundOrdered = b.inboundOrdered) : b.isUnmarked = true := by
  cases b with
  | array items =>
    rw [visited] at h
    obtain ⟨out, hout, rfl⟩ := map_eq_ok_iff.mp h
    rw [inboundOrdered, inboundOrdered, Value.array.injEq] at hsame
    exact isUnmarked_array_iff.mpr (isUnmarked_of_inboundOrderedItems hout hsame)
  | document fields =>
    rw [inboundOrdered] at hsame
    rcases visited_document h with ⟨out, rfl, hout⟩ | ⟨hplain, -⟩
    · rw [inboundOrdered, Value.ordered.injEq] at hsame
      exact isUnmarked_document_iff.mpr (isUnmarked_of_inboundOrderedFields hout hsame)
    · exact absurd hsame (inboundOrdered_ne_of_not_isPlain hplain _)
  | codeWithScope source scope =>
    rw [visited] at h
    obtain ⟨doc, hdoc, hseen⟩ := bind_eq_ok_iff.mp h
    obtain ⟨node, hnode, hfields⟩ := bind_eq_ok_iff.mp hdoc
    obtain rfl := Except.ok.inj hseen
    have hscope : doc.fields = scope := (Bson.codeWithScope.inj (Value.other.inj hsame)).2
    rw [eq_document_of_toDocument hfields, hscope] at hnode
    rw [isUnmarked_codeWithScope]
    rcases readFields_visits hnode with ⟨out, hdocument, hout⟩ | hplain
    · rw [← Bson.document.inj hdocument] at hout
      exact isUnmarked_document_iff.mpr (isUnmarked_of_inboundOrderedFields hout rfl)
    · cases hplain.1
  | _ => rfl

theorem isUnmarked_of_inboundOrderedItems {items seen : List Bson} (h : visitedItems items = .ok seen)
    (hsame : inboundOrderedItems seen = inboundOrderedItems items) : ∀ b ∈ items, b.isUnmarked = true := by
  match items with
  | [] => nofun
  | b :: rest =>
    rw [visitedItems] at h
    obtain ⟨first, hfirst, hlater⟩ := bind_eq_ok_iff.mp h
    obtain ⟨others, hothers, hseen⟩ := bind_eq_ok_iff.mp hlater
    obtain rfl := Except.ok.inj hseen
    rw [inboundOrderedItems, inboundOrderedItems, List.cons.injEq] at hsame
    exact List.forall_mem_cons.mpr ⟨isUnmarked_of_inboundOrdered hfirst hsame.1,
      isUnmarked_of_inboundOrderedItems hothers hsame.2⟩

theorem isUnmarked_of_inboundOrderedFields {fields : List (String × Bson)} {out : Fields Bson}
    (h : VisitedFields fields out) (hsame : inboundOrderedFields out = inboundOrderedFields fields) :
    ∀ p ∈ fields, isMark p.1 = false ∧ p.2.isUnmarked = true := by
  match fields with
  | [] => nofun
  | (k, b) :: rest =>
    obtain ⟨q, out, ⟨hmark, -, hseen⟩, hrest, rfl⟩ := List.forall₂_cons_left_iff.mp h
    rw [inboundOrderedFields, inboundOrderedFields, List.cons.injEq, Prod.mk.injEq] at hsame
    exact List.forall_mem_cons.mpr ⟨⟨hmark, isUnmarked_of_inboundOrdered hseen hsame.1.2⟩,
      isUnmarked_of_inboundOrderedFields hrest hsame.2⟩

end

/-- The codec reads a tree as it is exactly if no document of it has a marked name. -/
theorem visited_eq_self_iff {b : Bson} : b.visited = .ok b ↔ b.isUnmarked = true :=
  ⟨fun h => isUnmarked_of_inboundOrdered h rfl, visited_of_isUnmarked⟩

/-- Whether a node holds other nodes. -/
def hasParts : Bson → Bool
  | .array _ | .document _ | .codeWithScope .. => true
  | _ => false

theorem visited_of_not_hasParts {b : Bson} (h : b.hasParts = false) : b.visited = .ok b := by
  cases b <;> first | rfl | cases h

/-- What the codec makes of a node with parts has parts, unless the node is a document with a marked name. -/
theorem hasParts_of_visited {b node : Bson} (hparts : b.hasParts = true) (hmarked : b.isMarked = false)
    (h : b.visited = .ok node) : node.hasParts = true := by
  cases b with
  | array items =>
    rw [visited] at h
    obtain ⟨out, -, rfl⟩ := map_eq_ok_iff.mp h
    rfl
  | document fields =>
    rcases visited_document h with ⟨out, rfl, -⟩ | ⟨-, hmark⟩
    · rfl
    · cases hmark.symm.trans hmarked
  | codeWithScope source scope =>
    rw [visited] at h
    obtain ⟨doc, -, hnode⟩ := bind_eq_ok_iff.mp h
    obtain rfl := Except.ok.inj hnode
    rfl
  | _ => cases hparts

theorem visitedItems_eq_eachItem (items : List Bson) : visitedItems items = eachItem visited items := by
  induction items with
  | nil => rfl
  | cons b rest ih => rw [visitedItems, eachItem, ih]

/-- An ordered field that is read from a document is made of what the codec makes of the document's fields. -/
theorem exists_of_read_orderedField {fields : Fields Bson} {d : OrderedDoc}
    (h : OrderedField.read (.document fields) = .ok d) : ∃ out, VisitedFields fields out ∧ d = .ofDocument ⟨out⟩ := by
  obtain ⟨node, hnode, hd⟩ := bind_eq_ok_iff.mp h
  rcases visited_document hnode with ⟨out, rfl, hout⟩ | ⟨hplain, -⟩
  · exact ⟨out, hout, (Except.ok.inj hd).symm⟩
  · unfold OrderedField.ofBson at hd
    split at hd
    · cases hplain
    · cases hplain
    · cases hd

/-! ### Writing -/

theorem isPlain_of_ofMarked? {name : String} {b node : Bson} (h : ofMarked? name b = some node) :
    node.isPlain = false := by
  unfold ofMarked? at h
  split at h
  all_goals first
    | obtain ⟨_, -, rfl⟩ := Option.map_eq_some_iff.mp h
      rfl
    | split at h
      · obtain rfl := Option.some.inj h
        rfl
      · cases h
    | cases h

theorem isPlain_of_ofExtended? {fields : Fields Bson} {node : Bson} (h : ofExtended? fields = some node) :
    node.isPlain = false := by
  unfold ofExtended? at h
  split at h
  · exact isPlain_of_ofMarked? h
  · obtain ⟨source, -, hscope⟩ := Option.bind_eq_some_iff.mp h
    obtain ⟨scope, -, hnode⟩ := Option.bind_eq_some_iff.mp hscope
    obtain rfl := Option.some.inj hnode
    rfl
  · cases h

/-- What is written as a document has the fields that were there. -/
theorem eq_of_ofFields {fields out : Fields Bson} (h : ofFields fields = .document out) : fields = out := by
  unfold ofFields at h
  cases hnode : ofExtended? fields with
  | none =>
    rw [hnode] at h
    exact Bson.document.inj h
  | some node =>
    rw [hnode] at h
    have hplain := isPlain_of_ofExtended? hnode
    rw [show node = .document out from h] at hplain
    cases hplain

theorem names_serializedFields (fields : Fields Bson) :
    Fields.names (serializedFields fields) = Fields.names fields := by
  induction fields with
  | nil => rfl
  | cons p rest ih => exact congrArg (p.1 :: ·) ih

end DocClient.Bson
