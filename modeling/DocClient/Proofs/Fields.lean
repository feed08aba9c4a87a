import DocClient.Bson.Written
import Mathlib.Data.List.Nodup

/-! Lists of named values under appending and putting, and documents under writing. -/
namespace DocClient

namespace Fields

variable {α : Type}

@[simp] theorem get?_cons (k : String) (v : α) (rest : Fields α) (name : String) :
    get? ((k, v) :: rest) name = if k = name then some v else get? rest name := rfl

theorem get?_append (fields more : Fields α) (name : String) :
    get? (fields ++ more) name = (get? fields name).or (get? more name) := by
  induction fields with
  | nil => simp
  | cons p rest ih =>
    obtain ⟨k, v⟩ := p
    by_cases h : k = name <;> simp [h, ih]

theorem get?_eq_none_iff {fields : Fields α} {name : String} :
    get? fields name = none ↔ name ∉ names fields := by
  induction fields with
  | nil => simp
  | cons p rest ih =>
    obtain ⟨k, v⟩ := p
    by_cases h : k = name
    · simp [h]
    · simp [h, ih, Ne.symm h]

theorem distinct_iff {fields : Fields α} : distinct fields = true ↔ (names fields).Nodup := by
  induction fields with
  | nil => simp [distinct]
  | cons p rest ih =>
    obtain ⟨k, v⟩ := p
    rw [distinct, Bool.and_eq_true, ih, names_cons, List.nodup_cons, ← get?_eq_none_iff]
    simp [has]

theorem put_of_notMem {fields : Fields α} {name : String} (v : α) (h : name ∉ names fields) :
    put fields name v = fields ++ [(name, v)] := by
  induction fields with
  | nil => rfl
  | cons p rest ih =>
    obtain ⟨k, w⟩ := p
    simp only [names_cons, List.mem_cons, not_or] at h
    have hk : k ≠ name := fun hk => h.1 hk.symm
    simp [put, hk, ih h.2]

theorem put_ne_nil (fields : Fields α) (name : String) (v : α) : put fields name v ≠ [] := by
  cases fields with
  | nil => simp [put]
  | cons p rest =>
    obtain ⟨k, w⟩ := p
    by_cases h : k = name <;> simp [put, h]

theorem mem_put {fields : Fields α} {name : String} {v : α} {p : String × α} (h : p ∈ put fields name v) :
    p = (name, v) ∨ p ∈ fields := by
  induction fields with
  | nil => exact .inl (List.mem_singleton.mp h)
  | cons q rest ih =>
    obtain ⟨k, w⟩ := q
    rw [put] at h
    split at h
    next hk =>
      obtain rfl | hp := List.mem_cons.mp h
      · exact .inl (hk ▸ rfl)
      · exact .inr (List.mem_cons_of_mem _ hp)
    next =>
      obtain rfl | hp := List.mem_cons.mp h
      · exact .inr List.mem_cons_self
      · exact (ih hp).imp_right (List.mem_cons_of_mem _)

private theorem foldl_put (pairs fields : Fields α) (h : (names (fields ++ pairs)).Nodup) :
    pairs.foldl (fun fields (k, v) => fields.put k v) fields = fields ++ pairs := by
  induction pairs generalizing fields with
  | nil => simp
  | cons p rest ih =>
    obtain ⟨k, v⟩ := p
    have hk : k ∉ names fields := by
      intro hmem
      simp only [names, List.map_append, List.map_cons] at h
      exact (List.nodup_append.mp h).2.2 k hmem k (by simp) rfl
    simp only [List.foldl_cons, put_of_notMem v hk]
    rw [ih (fields ++ [(k, v)]) (by simpa using h)]
    simp

/-- Pairs of distinct names are collected as they are. -/
theorem collect_of_nodup {pairs : Fields α} (h : (names pairs).Nodup) : collect pairs = pairs := by
  have := foldl_put pairs [] (by simpa using h)
  simpa [collect] using this

section Places

variable {name : String} {before after : Fields α}

/-- What is read under a name stands at the first place of the name. -/
theorem exists_of_get? {fields : Fields α} {v : α} (h : fields.get? name = some v) :
    ∃ before after, fields = before ++ (name, v) :: after ∧ name ∉ names before := by
  induction fields with
  | nil => cases h
  | cons p rest ih =>
    obtain ⟨k, w⟩ := p
    rw [get?_cons] at h
    by_cases hk : k = name
    · subst hk
      rw [if_pos rfl] at h
      cases h
      exact ⟨[], rest, rfl, List.not_mem_nil⟩
    · rw [if_neg hk] at h
      obtain ⟨before, after, rfl, hbefore⟩ := ih h
      refine ⟨(k, w) :: before, after, rfl, ?_⟩
      rw [names_cons, List.mem_cons, not_or]
      exact ⟨Ne.symm hk, hbefore⟩

theorem mem_of_get? {fields : Fields α} {v : α} (h : get? fields name = some v) : (name, v) ∈ fields := by
  obtain ⟨before, after, rfl, -⟩ := exists_of_get? h
  exact List.mem_append_cons_self

/-- A value is replaced at the first place of its name. -/
theorem put_append_cons (w v : α) (h : name ∉ names before) :
    put (before ++ (name, w) :: after) name v = before ++ (name, v) :: after := by
  induction before with
  | nil => exact if_pos rfl
  | cons p rest ih =>
    obtain ⟨k, u⟩ := p
    rw [names_cons, List.mem_cons, not_or] at h
    rw [List.cons_append, put, if_neg (Ne.symm h.1), ih h.2, List.cons_append]

theorem get?_append_cons (v : α) (h : name ∉ names before) :
    get? (before ++ (name, v) :: after) name = some v := by
  rw [get?_append, get?_eq_none_iff.mpr h, Option.none_or, get?_cons, if_pos rfl]

/-- The fields of every other name. -/
def others (fields : Fields α) (name : String) : Fields α := fields.filter fun p => p.1 ≠ name

theorem others_cons_self (v : α) (fields : Fields α) : others ((name, v) :: fields) name = others fields name :=
  List.filter_cons_of_neg (by simp)

theorem others_append_cons (v : α) :
    others (before ++ (name, v) :: after) name = others before name ++ others after name := by
  unfold others
  rw [List.filter_append, List.filter_cons_of_neg (by simp)]

end Places

theorem get?_putSorted (fields : Fields α) (name other : String) (v : α) :
    get? (putSorted fields name v) other = if name = other then some v else get? fields other := by
  induction fields with
  | nil => rfl
  | cons p rest ih =>
    obtain ⟨k, w⟩ := p
    rw [putSorted]
    by_cases hk : name = k
    · rw [if_pos hk]
      by_cases ho : name = other
      · simp [ho]
      · simp [ho, ← hk]
    rw [if_neg hk]
    by_cases hlt : name < k
    · rw [if_pos hlt]
      rfl
    · rw [if_neg hlt, get?_cons, ih, get?_cons]
      by_cases ho : name = other
      · simp [ho, Ne.symm (ho ▸ hk)]
      · simp [ho]

end Fields

namespace Bson

theorem fieldsWritable_append (fields more : Fields Bson) :
    fieldsWritable (fields ++ more) = (fieldsWritable fields && fieldsWritable more) := by
  induction fields with
  | nil => simp [fieldsWritable]
  | cons p rest ih => simp [fieldsWritable, ih, Bool.and_assoc]

/-- A field that may be missing can be written if its document can. -/
theorem fieldsWritable_optional {name : String} {doc : Option Document} (hname : isTerminable name = true)
    (h : ∀ d ∈ doc, d.isWritable = true) :
    fieldsWritable (doc.map fun d => (name, Bson.ofDocument d)).toList = true := by
  cases doc with
  | none => rfl
  | some d =>
    have hd : fieldsWritable d.fields = true := h d rfl
    simp [fieldsWritable, isWritable, ofDocument, hname, hd]

/-- Putting a writable value under a writable name keeps a list writable. -/
theorem fieldsWritable_put {fields : Fields Bson} {name : String} {b : Bson}
    (h : fieldsWritable fields = true) (hname : isTerminable name = true) (hb : b.isWritable = true) :
    fieldsWritable (Fields.put fields name b) = true := by
  induction fields with
  | nil => simp [fieldsWritable, hname, hb]
  | cons p rest ih =>
    obtain ⟨k, v⟩ := p
    simp only [fieldsWritable, Bool.and_eq_true] at h
    by_cases hk : k = name
    · simp [Fields.put, hk, fieldsWritable, hname, hb, h.2]
    · simp [Fields.put, hk, fieldsWritable, h.1.1, h.1.2, ih h.2]

theorem get?_writtenFields (fields : Fields Bson) (name : String) :
    Fields.get? (writtenFields fields) name = (Fields.get? fields name).map written := by
  induction fields with
  | nil => simp [writtenFields]
  | cons p rest ih =>
    obtain ⟨k, b⟩ := p
    by_cases h : k = name <;> simp [writtenFields, h, ih]

@[simp] theorem names_writtenFields (fields : Fields Bson) :
    Fields.names (writtenFields fields) = Fields.names fields := by
  induction fields with
  | nil => rfl
  | cons p rest ih =>
    obtain ⟨k, b⟩ := p
    simp [writtenFields, ih]

theorem writtenItems_eq_map (items : List Bson) : writtenItems items = items.map written := by
  induction items with
  | nil => rfl
  | cons b rest ih => simp [writtenItems, ih]

theorem areWritable_eq_all (items : List Bson) : areWritable items = items.all isWritable := by
  induction items with
  | nil => rfl
  | cons b rest ih => simp [areWritable, ih]

theorem isTerminable_sortedOptions (options : String) :
    isTerminable (sortedOptions options) = isTerminable options := by
  unfold isTerminable sortedOptions
  rw [String.toList_ofList]
  exact (List.mergeSort_perm _ _).all_eq

theorem fieldsWellFormed_iff {fields : Fields Bson} :
    fieldsWellFormed fields = true ↔ ∀ p ∈ fields, p.2.isWellFormed = true := by
  induction fields with
  | nil => exact iff_of_true rfl nofun
  | cons p rest ih => rw [fieldsWellFormed, Bool.and_eq_true, ih, List.forall_mem_cons]

mutual

theorem isWritable_written (b : Bson) : b.written.isWritable = b.isWritable := by
  cases b with
  | regex pattern options => rw [written, isWritable, isWritable, isTerminable_sortedOptions]
  | array items => rw [written, isWritable, isWritable, areWritable_writtenItems items]
  | document fields => rw [written, isWritable, isWritable, fieldsWritable_writtenFields fields]
  | codeWithScope source scope => rw [written, isWritable, isWritable, fieldsWritable_writtenFields scope]
  | _ => rfl

theorem areWritable_writtenItems (items : List Bson) : areWritable (writtenItems items) = areWritable items := by
  match items with
  | [] => rfl
  | b :: rest => rw [writtenItems, areWritable, areWritable, isWritable_written b, areWritable_writtenItems rest]

theorem fieldsWritable_writtenFields (fields : List (String × Bson)) :
    fieldsWritable (writtenFields fields) = fieldsWritable fields := by
  match fields with
  | [] => rfl
  | (k, b) :: rest =>
    rw [writtenFields, fieldsWritable, fieldsWritable, isWritable_written b, fieldsWritable_writtenFields rest]

end

@[simp] theorem asDocument?_ofDocument (doc : Document) : (ofDocument doc).asDocument? = some doc := rfl

@[simp] theorem written_ofDocument (doc : Document) :
    (ofDocument doc).written = ofDocument doc.written := by
  simp [ofDocument, written, Document.written]

@[simp] theorem isWritable_ofDocument (doc : Document) :
    (ofDocument doc).isWritable = doc.isWritable := by
  simp [ofDocument, isWritable, Document.isWritable]

end Bson

namespace Document

theorem nodup_names {doc : Document} (h : doc.isWellFormed = true) : doc.names.Nodup := by
  rw [isWellFormed, Bson.ofDocument, Bson.isWellFormed, Bool.and_eq_true] at h
  exact Fields.distinct_iff.mp h.1

/-- What a well-formed document has under a name is well-formed. -/
theorem isWellFormed_of_get? {doc : Document} (h : doc.isWellFormed = true) {name : String} {b : Bson}
    (hget : doc.get? name = some b) : b.isWellFormed = true := by
  rw [isWellFormed, Bson.ofDocument, Bson.isWellFormed, Bool.and_eq_true] at h
  exact Bson.fieldsWellFormed_iff.mp h.2 (name, b) (Fields.mem_of_get? hget)

theorem get?_written (doc : Document) (name : String) :
    doc.written.get? name = (doc.get? name).map Bson.written :=
  Bson.get?_writtenFields doc.fields name

theorem names_written (doc : Document) : doc.written.names = doc.names := Bson.names_writtenFields doc.fields

theorem get?_putSome (doc : Document) (name other : String) (b : Option Bson) :
    (doc.putSome name b).get? other = if other = name then b.or (doc.get? name) else doc.get? other := by
  cases b with
  | none => split <;> simp_all [putSome]
  | some b =>
    split
    next h =>
      subst h
      exact Fields.get?_put_self doc.fields other b
    next h => exact Fields.get?_put_of_ne doc.fields b h

/-- The first field stays when another one is put. -/
theorem head?_putSome {doc : Document} {first name : String} {v : Bson} {b : Option Bson}
    (h : doc.fields.head? = some (first, v)) (hne : first ≠ name) :
    (doc.putSome name b).fields.head? = some (first, v) := by
  cases b with
  | none => exact h
  | some b =>
    obtain ⟨_ | ⟨p, rest⟩⟩ := doc
    · cases h
    · obtain rfl : p = (first, v) := Option.some.inj h
      exact congrArg List.head? (if_neg hne)

theorem isWritable_putSome {doc : Document} {name : String} {b : Option Bson}
    (h : doc.isWritable = true) (hname : Bson.isTerminable name = true)
    (hb : ∀ v ∈ b, v.isWritable = true) : (doc.putSome name b).isWritable = true := by
  cases b with
  | none => exact h
  | some v => exact Bson.fieldsWritable_put h hname (hb v rfl)

theorem fields_putSome_ne_nil {doc : Document} {name : String} {b : Option Bson} (h : doc.fields ≠ []) :
    (doc.putSome name b).fields ≠ [] := by
  cases b with
  | none => exact h
  | some v => exact Fields.put_ne_nil doc.fields name v

def documentsUnder (doc : Document) (name : String) : List Document :=
  match doc.get? name with
  | some (.array items) => items.filterMap Bson.asDocument?
  | _ => []

end Document
end DocClient
