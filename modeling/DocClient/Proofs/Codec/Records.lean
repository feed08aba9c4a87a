import DocClient.Proofs.Conversion
import DocClient.Proofs.Outcomes

/-! Records that the codec reads from documents, field by field. Main statement: `DeclaresField.toOption_decode`, by
which a record is decoded with what its field is read from in the document, as long as the other fields can be
read. -/
namespace DocClient

namespace RecordField

variable {ρ τ : Type} {records : List (RecordField ρ)} {name : String} {read : Bson → Except DecodeCause τ}
  {held : ρ → τ}

section Frame

variable {α : Type} {other : String} {readOther : Bson → Except DecodeCause α} {set : α → ρ → ρ}
  (h : ∀ a r, held (set a r) = held r)

include h

/-- What a record holds elsewhere stays when a field is set to what was read. -/
theorem frame_mandatory (b : Bson) (r r' : ρ) (hset : (mandatory other readOther set).set b r = .ok r') :
    held r' = held r := by
  obtain ⟨a, -, rfl⟩ := map_eq_ok_iff.mp hset
  exact h a r

theorem frame_optional (b : Bson) (r r' : ρ) (hset : (optional other readOther set).set b r = .ok r') :
    held r' = held r := by
  have hmandatory : (mandatory other readOther set).set b r = .ok r' := hset
  exact frame_mandatory h b r r' hmandatory

end Frame

/-- Setting other fields leaves a field alone. -/
theorem setAll_frame (hother : ∀ f ∈ records, f.name ≠ name → ∀ b r r', f.set b r = .ok r' → held r' = held r)
    {shown : Fields Bson} (hname : name ∉ Fields.names shown) {r r' : ρ} (h : setAll records shown r = .ok r') :
    held r' = held r := by
  induction shown generalizing r with
  | nil => exact congrArg held (Except.ok.inj h).symm
  | cons p rest ih =>
    obtain ⟨k, b⟩ := p
    obtain ⟨hk, hrest⟩ := not_or.mp (mt List.mem_cons.mpr hname)
    unfold setAll at h
    cases hfind : records.find? (fun f => f.name = k) with
    | none =>
      rw [hfind] at h
      exact ih hrest h
    | some f =>
      rw [hfind] at h
      have hf : f.name = k := by simpa using List.find?_some hfind
      obtain ⟨r₁, hset, hlater⟩ := bind_eq_ok_iff.mp h
      rw [ih hrest hlater]
      exact hother f (List.mem_of_find?_eq_some hfind) (fun hname => hk (hname.symm.trans hf)) b r r₁ hset

/-- A field that a document names once is read from what the document has there. -/
theorem setAll_reads {set : τ → ρ → ρ} {required : Bool}
    (hfind : records.find? (fun f => f.name = name) = some ⟨name, fun b r => (read b).map (set · r), required⟩)
    (hset : ∀ a r, held (set a r) = a)
    (hother : ∀ f ∈ records, f.name ≠ name → ∀ b r r', f.set b r = .ok r' → held r' = held r)
    {shown : Fields Bson} (hnodup : (Fields.names shown).Nodup) {b : Bson} (hget : Fields.get? shown name = some b)
    {r r' : ρ} (h : setAll records shown r = .ok r') : read b = .ok (held r') := by
  induction shown generalizing r with
  | nil => cases hget
  | cons p rest ih =>
    obtain ⟨k, v⟩ := p
    obtain ⟨hk, hrest⟩ := List.nodup_cons.mp hnodup
    unfold setAll at h
    rw [Fields.get?_cons] at hget
    by_cases hkey : k = name
    · rw [if_pos hkey] at hget
      obtain rfl := Option.some.inj hget
      subst hkey
      simp only [hfind] at h
      obtain ⟨r₁, hread, hlater⟩ := bind_eq_ok_iff.mp h
      obtain ⟨a, ha, rfl⟩ := map_eq_ok_iff.mp hread
      rw [ha, setAll_frame hother hk hlater, hset]
    · rw [if_neg hkey] at hget
      cases hother_field : records.find? (fun f => f.name = k) with
      | none =>
        rw [hother_field] at h
        exact ih hrest hget h
      | some f =>
        rw [hother_field] at h
        obtain ⟨r₁, -, hlater⟩ := bind_eq_ok_iff.mp h
        exact ih hrest hget hlater

/-- All fields that a document names are set if what it has under each name can be read. -/
theorem exists_setAll {shown : Fields Bson}
    (h : ∀ p ∈ shown, ∀ f, records.find? (fun f => f.name = p.1) = some f → ∀ r, ∃ r', f.set p.2 r = .ok r') (r : ρ) :
    ∃ r', setAll records shown r = .ok r' := by
  induction shown generalizing r with
  | nil => exact ⟨r, rfl⟩
  | cons p rest ih =>
    obtain ⟨k, b⟩ := p
    obtain ⟨hhead, hrest⟩ := List.forall_mem_cons.mp h
    unfold setAll
    cases hfind : records.find? (fun f => f.name = k) with
    | none => exact ih hrest r
    | some f =>
      obtain ⟨r₁, hr₁⟩ := hhead f hfind r
      obtain ⟨r', hr'⟩ := ih hrest r₁
      exact ⟨r', by simp only [hr₁, bind, Except.bind, hr']⟩

end RecordField

/-- A record that is read from a document has in a field what the document has there. -/
theorem reads_of_decodeRecord {ρ τ : Type} {default : ρ} {records : List (RecordField ρ)} {name : String}
    {read : Bson → Except DecodeCause τ} {held : ρ → τ} {set : τ → ρ → ρ} {required : Bool}
    (hfind : records.find? (fun f => f.name = name) = some ⟨name, fun b r => (read b).map (set · r), required⟩)
    (hset : ∀ a r, held (set a r) = a)
    (hother : ∀ f ∈ records, f.name ≠ name → ∀ b r r', f.set b r = .ok r' → held r' = held r)
    {fields : Fields Bson} {b : Bson} {r : ρ} (h : decodeRecord default records (.document fields) = .ok r)
    (hnodup : (Fields.names fields).Nodup) (hget : Fields.get? fields name = some b) :
    read b = .ok (held r) := by
  have hshown : (Bson.document fields).shownFields? = some fields := rfl
  unfold decodeRecord at h
  simp only [hshown] at h
  obtain ⟨r₁, hall, hlast⟩ := bind_eq_ok_iff.mp h
  have hsame : r₁ = r := by
    split at hlast
    · cases hlast
    · exact Except.ok.inj hlast
  rw [← hsame]
  exact RecordField.setAll_reads hfind hset hother hnodup hget hall

theorem exists_decodeRecord {ρ : Type} {default : ρ} {records : List (RecordField ρ)} {fields : Fields Bson}
    (h : ∀ p ∈ fields, ∀ f, records.find? (fun f => f.name = p.1) = some f → ∀ r, ∃ r', f.set p.2 r = .ok r')
    (hrequired : ∀ f ∈ records, f.required = true → f.name ∈ Fields.names fields) :
    ∃ r, decodeRecord default records (.document fields) = .ok r := by
  have hshown : (Bson.document fields).shownFields? = some fields := rfl
  obtain ⟨r, hr⟩ := RecordField.exists_setAll h default
  refine ⟨r, ?_⟩
  unfold decodeRecord
  simp only [hshown, hr, bind, Except.bind]
  have hnone : records.find? (fun f => f.required && !Fields.has fields f.name) = none := by
    rw [List.find?_eq_none]
    intro f hf
    by_cases hreq : f.required = true
    · have hhas : Fields.has fields f.name = true := by
        rw [Fields.has, Option.isSome_iff_ne_none]
        exact fun hget => Fields.get?_eq_none_iff.mp hget (hrequired f hf hreq)
      simp [hhas]
    · simp [hreq]
  rw [hnone]

/-- A type of records that the codec reads, one of whose fields is declared with a reading. -/
structure DeclaresField (ρ : Type) [Destination ρ] {τ : Type} (name : String) (read : Bson → Except DecodeCause τ)
    (held : ρ → τ) where
  default : ρ
  records : List (RecordField ρ)
  set : τ → ρ → ρ
  required : Bool
  decoded : Destination.assign (α := ρ) = none
  reads : ∀ b, (decodeBson b : Except DecodeCause ρ) = decodeRecord default records b
  field : records.find? (fun f => f.name = name) = some ⟨name, fun b r => (read b).map (set · r), required⟩
  held_set : ∀ a r, held (set a r) = a
  frame : ∀ f ∈ records, f.name ≠ name → ∀ b r r', f.set b r = .ok r' → held r' = held r

namespace DeclaresField

variable {ρ τ : Type} [Destination ρ] {name : String} {read : Bson → Except DecodeCause τ} {held : ρ → τ}

/-- Whether the other fields of a record can be read from a document. -/
def OthersReadable (decl : DeclaresField ρ name read held) (doc : Document) : Prop :=
  ∀ f ∈ decl.records, f.name ≠ name → (f.required = true → f.name ∈ doc.names) ∧
    ∀ b, doc.get? f.name = some b → ∀ r, ∃ r', f.set b r = .ok r'

section Decoding

variable {src : Value} {doc : Document} {b : Bson} (decl : DeclaresField ρ name read held)
  (hsrc : src.outbound = .ofDocument doc) (hnodup : doc.names.Nodup) (hget : doc.get? name = some b)

include hsrc in
/-- A value that is sent as a document is decoded by what the codec makes of it. -/
theorem decode_eq : (decode src : Except Error ρ) =
    (decodeRecord decl.default decl.records (Bson.ofDocument doc.written)).mapError .decode := by
  have hfresh : (decode src : Except Error ρ) = readBack src := by
    unfold decode decodeFresh
    rw [decl.decoded]
    cases src with
    | null => cases hsrc
    | _ => rfl
  rw [hfresh, readBack, hsrc, Bson.written_ofDocument, decl.reads]

include decl hsrc hnodup hget

/-- The field of a record that is decoded was read from what the document has there. -/
theorem reads_of_decode {r : ρ} (hr : decode src = .ok r) : read b.written = .ok (held r) := by
  rw [decl.decode_eq hsrc, mapError_eq_ok_iff] at hr
  have hseen : doc.written.names.Nodup := by rwa [Document.names_written]
  have hfield : doc.written.get? name = some b.written := by rw [Document.get?_written, hget, Option.map_some]
  exact reads_of_decodeRecord decl.field decl.held_set decl.frame hr hseen hfield

/-- A record is decoded if its field and the others can be read. -/
theorem exists_decode (hothers : decl.OthersReadable doc.written) (hread : ∃ a, read b.written = .ok a) :
    ∃ r : ρ, decode src = .ok r := by
  have hseen : doc.written.names.Nodup := by rwa [Document.names_written]
  have hfield : doc.written.get? name = some b.written := by rw [Document.get?_written, hget, Option.map_some]
  have hdecoded : ∃ r, decodeRecord decl.default decl.records (Bson.ofDocument doc.written) = .ok r := by
    refine exists_decodeRecord ?_ ?_
    · rintro ⟨k, b'⟩ hmem f hfind r
      have hk : f.name = k := by simpa using List.find?_some hfind
      have hfound : doc.written.get? k = some b' := (Fields.get?_eq_some_iff hseen).mpr hmem
      by_cases hname : k = name
      · subst hname
        obtain rfl := Option.some.inj (hfind.symm.trans decl.field)
        obtain rfl := Option.some.inj (hfound.symm.trans hfield)
        obtain ⟨a, ha⟩ := hread
        exact ⟨decl.set a r, map_eq_ok_iff.mpr ⟨a, ha, rfl⟩⟩
      · exact (hothers f (List.mem_of_find?_eq_some hfind) (hk ▸ hname)).2 b' (hk ▸ hfound) r
    · intro f hf hrequired
      by_cases hname : f.name = name
      · have hsome : Fields.get? doc.written.fields name ≠ none := by
          rw [show Fields.get? doc.written.fields name = some b.written from hfield]
          nofun
        rw [hname]
        exact not_not.mp (mt Fields.get?_eq_none_iff.mpr hsome)
      · exact (hothers f hf hname).1 hrequired
  obtain ⟨r, hr⟩ := hdecoded
  exact ⟨r, (decl.decode_eq hsrc).trans (mapError_eq_ok_iff.mpr hr)⟩

/-- A record is decoded with what its field is read from in the document, or not at all. -/
theorem toOption_decode (hothers : decl.OthersReadable doc.written) :
    (decode src : Except Error ρ).toOption.map held = (read b.written).toOption := by
  cases hr : (decode src : Except Error ρ) with
  | ok r =>
    rw [decl.reads_of_decode hsrc hnodup hget hr]
    rfl
  | error e =>
    cases hread : read b.written with
    | ok a =>
      obtain ⟨r, hok⟩ := decl.exists_decode hsrc hnodup hget hothers ⟨a, hread⟩
      cases hr.symm.trans hok
    | error cause => rfl

end Decoding

end DeclaresField

end DocClient
