import DocClient.Index.Key
import DocClient.Proofs.Ascending
import DocClient.Proofs.Outcomes

/-! Key documents in the short spelling of their fields. Main statement: `reads_back_spelled`, by which the
spelling of a key that was read is read as the same key, but for the fields of text indexes, which only weights
can spell. -/
namespace DocClient

/-! ### One field -/

/-- A name and a kind that a field of a key can state. -/
inductive KeyField : String → Bson → Prop
  | ascending {name : String} (named : name.toList ≠ []) : KeyField name ascending
  | descending {name : String} (named : name.toList ≠ []) : KeyField name descending
  | special {name kind : String} (named : name.toList ≠ []) (kinded : kind.toList ≠ [])
      (plain : ':' ∉ kind.toList) : KeyField name (.string kind)

/-- A name that is read as more than a name if nothing stands before it. -/
def beginsWithMarker (name : String) : Bool :=
  match name.toList with
  | '-' :: _ | '+' :: _ | '$' :: _ | '@' :: _ :: _ => true
  | _ => false

/-- A field under which a text index is kept. -/
def isTextField (name : String) (kind : Bson) : Bool :=
  (name = "_fts" && kind = .string "text") || name = "_ftsx"

theorem splitAtColon_eq_some_iff {s before after : List Char} :
    splitAtColon s = some (before, after) ↔ s = before ++ ':' :: after ∧ ':' ∉ before := by
  induction s generalizing before with
  | nil => simp [splitAtColon]
  | cons c rest ih =>
    rw [splitAtColon]
    by_cases hc : c = ':'
    · subst hc
      cases before with
      | nil => simp [eq_comm]
      | cons d before => simp +contextual [eq_comm]
    · rw [if_neg hc, Option.map_eq_some_iff]
      constructor
      · rintro ⟨⟨before', after'⟩, hrest, hsame⟩
        cases hsame
        obtain ⟨rfl, hbefore⟩ := ih.mp hrest
        exact ⟨rfl, by simp [hbefore, Ne.symm hc]⟩
      · rintro ⟨hs, hbefore⟩
        cases before with
        | nil => exact absurd (List.cons.inj hs).1 hc
        | cons d before =>
          obtain ⟨rfl, hrest⟩ := List.cons.inj hs
          rw [List.mem_cons, not_or] at hbefore
          exact ⟨(before, after), ih.mpr ⟨hrest, hbefore.2⟩, rfl⟩

theorem keyField_of_parseSortField {field name : String} {kind : Bson}
    (h : parseSortField field = .ok (name, kind)) : KeyField name kind := by
  unfold parseSortField at h
  split at h
  next before order hfield =>
    by_cases hempty : before = []
    · simp [hempty] at h
    · rw [if_neg (by simpa using hempty)] at h
      cases h
      split at hfield <;> cases hfield
      · exact .descending (by simpa using hempty)
      · exact .ascending (by simpa using hempty)
      · exact .ascending (by simpa using hempty)

theorem keyField_of_parseIndexField {field name : String} {kind : Bson}
    (h : parseIndexField field = .ok (name, kind)) : KeyField name kind := by
  unfold parseIndexField at h
  split at h
  next special hfield =>
    split at h
    next before after hsplit =>
      by_cases hempty : before = [] ∨ after = []
      · simp_all
      · rw [if_neg (by simpa using hempty)] at h
        cases h
        obtain ⟨hbefore, hafter⟩ := not_or.mp hempty
        refine .special (by simpa using hafter) (by simpa using hbefore) ?_
        simpa using (splitAtColon_eq_some_iff.mp hsplit).2
    next => cases h
  next c rest hfield =>
    cases h
    exact .special (by simp) (by decide) (by decide)
  next => exact keyField_of_parseSortField h

/-! ### Reading a spelling -/

theorem parseIndexField_special {name kind : String} (named : name.toList ≠ []) (kinded : kind.toList ≠ [])
    (plain : ':' ∉ kind.toList) :
    parseIndexField ("$" ++ kind ++ ":" ++ name) = .ok (name, .string kind) := by
  have hfield : ("$" ++ kind ++ ":" ++ name).toList = '$' :: (kind.toList ++ ':' :: name.toList) := by
    simp
  have hsplit : splitAtColon (kind.toList ++ ':' :: name.toList) = some (kind.toList, name.toList) :=
    splitAtColon_eq_some_iff.mpr ⟨rfl, plain⟩
  simp [parseIndexField, hfield, hsplit, named, kinded]

theorem parseIndexField_descending {name : String} (named : name.toList ≠ []) :
    parseIndexField ("-" ++ name) = .ok (name, descending) := by
  have hfield : ("-" ++ name).toList = '-' :: name.toList := by simp
  simp [parseIndexField, parseSortField, hfield, named]

theorem parseIndexField_plain {name : String} (named : name.toList ≠ []) (h : beginsWithMarker name = false) :
    parseIndexField name = .ok (name, ascending) := by
  have hsort : parseSortField name = .ok (name, ascending) := by
    unfold parseSortField
    split
    next before order hread =>
      split at hread
      next rest hname => simp [beginsWithMarker, hname] at h
      next rest hname => simp [beginsWithMarker, hname] at h
      next =>
        cases hread
        rw [if_neg (by simpa using named), String.ofList_toList]
  unfold parseIndexField
  split
  next rest hname => simp [beginsWithMarker, hname] at h
  next c rest hname => simp [beginsWithMarker, hname] at h
  next => exact hsort

/-- The spelling of a field that is none of a text index. -/
def spelling (name : String) (kind : Bson) : String :=
  match kind with
  | .string kind => "$" ++ kind ++ ":" ++ name
  | kind => if isDescending kind then "-" ++ name else name

theorem indexFieldsOf_none (name : String) (kind : Bson) :
    indexFieldsOf none name kind = if isTextField name kind then [] else [spelling name kind] := by
  unfold indexFieldsOf isTextField
  by_cases hfts : (name = "_fts" && kind = .string "text") = true
  · simp [hfts]
  by_cases hftsx : name = "_ftsx"
  · simp [hftsx]
  have hneither : ¬ ((name = "_fts" && kind = .string "text") || name = "_ftsx") = true := by
    rw [Bool.or_eq_true, decide_eq_true_eq]
    exact not_or.mpr ⟨hfts, hftsx⟩
  dsimp only
  rw [if_neg hfts, if_neg hftsx, if_neg hneither]
  unfold spelling
  cases kind with
  | string kind => rfl
  | _ => dsimp only; split <;> rfl

theorem parseIndexField_spelling {name : String} {kind : Bson} (h : KeyField name kind)
    (hplain : kind = ascending → beginsWithMarker name = false) :
    parseIndexField (spelling name kind) = .ok (name, kind) := by
  cases h with
  | ascending named => exact parseIndexField_plain named (hplain rfl)
  | descending named => exact parseIndexField_descending named
  | special named kinded plain => exact parseIndexField_special named kinded plain

/-! ### Whole keys -/

/-- Fields that are spelled one by one are put into a document one after the other. -/
theorem collectFields_map {parse : String → Except Error (String × Bson)} {spell : String × Bson → String}
    {fields : Fields Bson} (h : ∀ p ∈ fields, parse (spell p) = .ok p) {before : Fields Bson}
    (hnames : (Fields.names (before ++ fields)).Nodup) :
    collectFields parse (fields.map spell) ⟨before⟩ = .ok ⟨before ++ fields⟩ := by
  induction fields generalizing before with
  | nil => simp [collectFields]
  | cons p rest ih =>
    obtain ⟨name, kind⟩ := p
    obtain ⟨hp, hrest⟩ := List.forall_mem_cons.mp h
    have hnew : name ∉ Fields.names before := by
      intro hmem
      rw [Fields.names, List.map_append, List.map_cons] at hnames
      exact (List.nodup_append.mp hnames).2.2 name hmem name List.mem_cons_self rfl
    have hput : (⟨before⟩ : Document).put name kind = ⟨before ++ [(name, kind)]⟩ :=
      congrArg Document.mk (Fields.put_of_notMem kind hnew)
    rw [List.append_cons] at hnames
    rw [List.map_cons, collectFields, hp]
    change collectFields parse (rest.map spell) ((⟨before⟩ : Document).put name kind) = _
    rw [hput, ih hrest hnames, ← List.append_cons]

/-- A key as it is read: no name twice, and only fields that can be stated. -/
structure IsKey (keys : Document) : Prop where
  names : keys.names.Nodup
  fields : ∀ p ∈ keys.fields, KeyField p.1 p.2

theorem isKey_put {keys : Document} {name : String} {kind : Bson} (h : IsKey keys) (hfield : KeyField name kind) :
    IsKey (keys.put name kind) where
  names := Fields.nodup_put keys.fields h.names name kind
  fields := by
    intro p hp
    obtain rfl | hp := Fields.mem_put hp
    · exact hfield
    · exact h.fields p hp

theorem isKey_of_collectFields {fields : List String} {keys keys' : Document} (hkeys : IsKey keys)
    (h : collectFields parseIndexField fields keys = .ok keys') : IsKey keys' := by
  induction fields generalizing keys with
  | nil =>
    cases h
    exact hkeys
  | cons field rest ih =>
    rw [collectFields] at h
    obtain ⟨⟨name, kind⟩, hfield, hrest⟩ := bind_eq_ok_iff.mp h
    exact ih (isKey_put hkeys (keyField_of_parseIndexField hfield)) hrest

theorem isKey_of_parseIndexKey {fields : List String} {keys : Document} (h : parseIndexKey fields = .ok keys) :
    IsKey keys ∧ keys.fields ≠ [] := by
  obtain ⟨keys', hcollect, hkeys⟩ := bind_eq_ok_iff.mp h
  by_cases hempty : keys'.isEmpty = true
  · rw [if_pos hempty] at hkeys
    cases hkeys
  · rw [if_neg hempty] at hkeys
    cases hkeys
    have hempty' : IsKey .empty := ⟨List.nodup_nil, by simp [Document.empty]⟩
    refine ⟨isKey_of_collectFields hempty' hcollect, ?_⟩
    simpa [Document.isEmpty] using hempty

/-- A key without the fields of text indexes. -/
def withoutText (keys : Document) : Document := ⟨keys.fields.filter fun p => !isTextField p.1 p.2⟩

theorem indexFields_none (keys : Document) :
    indexFields keys none = (withoutText keys).fields.map fun p => spelling p.1 p.2 := by
  unfold indexFields withoutText
  simp only [indexFieldsOf_none]
  induction keys.fields with
  | nil => rfl
  | cons p rest ih =>
    rw [List.flatMap_cons, ih]
    by_cases h : isTextField p.1 p.2 = true <;> simp [h]

/-- The spelling of a key that was read is read as the same key without the fields of text indexes, and refused if
it had no others, unless a name in it that is to be ascending begins with a marker. -/
theorem reads_back_spelled {fields : List String} {keys : Document} (h : parseIndexKey fields = .ok keys)
    (hplain : ∀ p ∈ keys.fields, p.2 = ascending → beginsWithMarker p.1 = false) :
    parseIndexKey (indexFields keys none) =
        (if (withoutText keys).isEmpty then .error (.invalidArgument .emptyIndexKey) else .ok (withoutText keys)) ∧
      ((∀ p ∈ keys.fields, isTextField p.1 p.2 = false) → parseIndexKey (indexFields keys none) = .ok keys) := by
  obtain ⟨hkey, hne⟩ := isKey_of_parseIndexKey h
  have hread : parseIndexKey (indexFields keys none) =
      if (withoutText keys).isEmpty then .error (.invalidArgument .emptyIndexKey) else .ok (withoutText keys) := by
    have hparse : ∀ p ∈ (withoutText keys).fields, parseIndexField (spelling p.1 p.2) = .ok p := by
      intro p hp
      have hmem := List.mem_of_mem_filter hp
      exact parseIndexField_spelling (hkey.fields p hmem) (hplain p hmem)
    have hnames : (Fields.names ([] ++ (withoutText keys).fields)).Nodup :=
      hkey.names.sublist (List.filter_sublist.map Prod.fst)
    have hcollect := collectFields_map hparse hnames
    unfold parseIndexKey
    rw [indexFields_none]
    exact congrArg (· >>= _) hcollect
  refine ⟨hread, ?_⟩
  intro htext
  have hsame : withoutText keys = keys := by
    unfold withoutText
    rw [List.filter_eq_self.mpr (by simpa using htext)]
  rw [hread, hsame, if_neg (by simpa [Document.isEmpty] using hne)]

/-- Fields of every form are read back, and the one of a text index is not. -/
theorem reads_back_five :
    let fields := ["a", "+b", "-+c", "@d", "$hashed:e:f", "_ftsx"]
    let keys : Document := ⟨[("a", ascending), ("b", ascending), ("+c", descending), ("d", .string "2d"),
      ("e:f", .string "hashed"), ("_ftsx", ascending)]⟩
    parseIndexKey fields = .ok keys ∧ parseIndexKey (indexFields keys none) = .ok ⟨keys.fields.dropLast⟩ := by
  intro fields keys
  have hread : parseIndexKey fields = .ok keys := by cbv
  exact ⟨hread, (reads_back_spelled hread (by decide)).1⟩

/-- A field of the name under which a text index is kept is accepted, and not spelled. -/
theorem text_field_not_read_back :
    parseIndexKey ["_ftsx"] = .ok ⟨[("_ftsx", ascending)]⟩ ∧
      parseIndexKey (indexFields ⟨[("_ftsx", ascending)]⟩ none) = .error (.invalidArgument .emptyIndexKey) := by
  constructor <;> cbv

end DocClient
