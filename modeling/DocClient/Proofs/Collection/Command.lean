import DocClient.Collection.Indexes
import DocClient.Collection.Write
import DocClient.Proofs.Wire.Cursor

/-! The commands that write to a collection, as they are sent: what a reader finds in them, and when they
can be sent at all. -/
namespace DocClient

/-- A command of a name that is meant for a collection. -/
def Command.IsFor (k : Command) (name : String) (c : Collection) : Prop :=
  k.database = c.database.name ∧ k.body.fields.head? = some (name, .string c.name)

instance (k : Command) (name : String) (c : Collection) : Decidable (k.IsFor name c) :=
  inferInstanceAs (Decidable (_ ∧ _))

/-- A command has one name and one collection. -/
theorem Command.IsFor.unique {k : Command} {name other : String} {c d : Collection}
    (h : k.IsFor name c) (h' : k.IsFor other d) : name = other ∧ c.name = d.name := by
  have := h.2.symm.trans h'.2
  simpa using this

/-- A further batch is asked for under the cursor, not under a collection. -/
theorem Command.AsksForMore.not_isFor {k : Command} (h : k.AsksForMore) (name : String) (c : Collection) :
    ¬ k.IsFor name c := by
  rintro ⟨-, hfor⟩
  obtain ⟨id, hid⟩ := h
  cases hid.symm.trans hfor

/-- The documents that a command inserts into a collection. -/
def Command.insertedInto (k : Command) (c : Collection) : List Document :=
  if k.IsFor "insert" c then k.body.documentsUnder "documents" else []

namespace Database

/-- The fields that the write concern adds to a body. -/
def concernFields (db : Database) : Except Error (Fields Bson) :=
  match db.writeConcern with
  | none => .ok []
  | some concern =>
    match concern.toDocument with
    | .error _ => .error (.transport .unencodable)
    | .ok doc => .ok (if doc.isEmpty then [] else [("writeConcern", .ofDocument doc)])

theorem withConcern_eq (db : Database) {body : Document} (h : "writeConcern" ∉ body.names) :
    db.withConcern body = db.concernFields.map fun extra => ⟨body.fields ++ extra⟩ := by
  unfold withConcern concernFields
  cases db.writeConcern with
  | none => simp [Except.map]
  | some concern =>
    dsimp only
    cases concern.toDocument with
    | error fault => rfl
    | ok doc =>
      by_cases hdoc : doc.isEmpty
      · simp [hdoc, Except.map]
      · simp only [hdoc, Except.map, Document.put, Fields.put_of_notMem _ h]
        rfl

private theorem acknowledgmentBson_isWritable {a : Acknowledgment} {b : Bson}
    (h : WriteConcern.acknowledgmentBson a = .ok b) : b.isWritable = true := by
  cases a with
  | servers count =>
    simp only [WriteConcern.acknowledgmentBson] at h
    split at h
    · cases h
      rfl
    · cases h
  | majority =>
    cases h
    rfl
  | custom name =>
    cases h
    rfl

private theorem millisBson_isWritable {millis : UInt64} {b : Bson}
    (h : WriteConcern.millisBson millis = .ok b) : b.isWritable = true := by
  unfold WriteConcern.millisBson at h
  split at h
  · cases h
    rfl
  · split at h
    · cases h
      rfl
    · cases h

private theorem mapM_forall {α β ε : Type} {f : α → Except ε β} {P : β → Prop}
    (hf : ∀ a b, f a = .ok b → P b) {a : Option α} {b : Option β} (h : a.mapM f = .ok b) :
    ∀ v ∈ b, P v := by
  cases a with
  | none =>
    cases h
    nofun
  | some a =>
    rw [Option.mapM_some] at h
    obtain ⟨v, hv, rfl⟩ := map_eq_ok_iff.mp h
    rintro _ ⟨⟩
    exact hf a v hv

theorem toDocument_isWritable {concern : WriteConcern} {doc : Document}
    (h : concern.toDocument = .ok doc) : doc.isWritable = true := by
  unfold WriteConcern.toDocument at h
  obtain ⟨w, hw, hrest⟩ := bind_eq_ok_iff.mp h
  obtain ⟨timeout, ht, hdoc⟩ := bind_eq_ok_iff.mp hrest
  obtain rfl := Except.ok.inj hdoc
  have hempty : Document.empty.isWritable = true := rfl
  have hfirst : (Document.empty.putSome "w" w).isWritable = true :=
    Document.isWritable_putSome hempty (by decide)
      (mapM_forall (fun _ _ => acknowledgmentBson_isWritable) hw)
  have hsecond : ((Document.empty.putSome "w" w).putSome "wtimeout" timeout).isWritable = true :=
    Document.isWritable_putSome hfirst (by decide)
      (mapM_forall (fun _ _ => millisBson_isWritable) ht)
  refine Document.isWritable_putSome hsecond (by decide) ?_
  intro v hv
  obtain ⟨j, -, rfl⟩ := Option.map_eq_some_iff.mp hv
  rfl

/-- The write concern adds its document under one name, or nothing at all. -/
theorem eq_of_concernFields {db : Database} {extra : Fields Bson} (h : db.concernFields = .ok extra) :
    extra = [] ∨ ∃ concern doc, WriteConcern.toDocument concern = .ok doc ∧
      extra = [("writeConcern", .ofDocument doc)] := by
  unfold concernFields at h
  cases hc : db.writeConcern with
  | none =>
    simp only [hc, Except.ok.injEq] at h
    exact .inl h.symm
  | some concern =>
    simp only [hc] at h
    cases hd : concern.toDocument with
    | error fault => simp [hd] at h
    | ok doc =>
      simp only [hd, Except.ok.injEq] at h
      subst h
      by_cases hdoc : doc.isEmpty
      · exact .inl (if_pos hdoc)
      · exact .inr ⟨concern, doc, hd, if_neg hdoc⟩

theorem concernFields_writable {db : Database} {extra : Fields Bson} (h : db.concernFields = .ok extra) :
    Bson.fieldsWritable extra = true := by
  obtain rfl | ⟨concern, doc, hdoc, rfl⟩ := eq_of_concernFields h
  · rfl
  · have hname : Bson.isTerminable "writeConcern" = true := by decide
    simp [Bson.fieldsWritable, hname, toDocument_isWritable hdoc]

theorem eq_of_sent {db : Database} {readPreference : ReadPreference} {body : Document} {k : Command}
    (h : db.sent readPreference body = .ok k) : k = Command.written ⟨db.name, body, readPreference⟩ := by
  unfold sent at h
  split at h
  · cases h
  · exact (Except.ok.inj h).symm

/-- The write concern adds a field of one name. -/
theorem get?_of_concernFields {db : Database} {extra : Fields Bson} (h : db.concernFields = .ok extra)
    {key : String} (hkey : key ≠ "writeConcern") : Fields.get? extra key = none := by
  obtain rfl | ⟨concern, doc, -, rfl⟩ := eq_of_concernFields h
  · rfl
  · simp [hkey.symm]

/-- A body that is not empty and can be written can be sent. -/
theorem sent_eq_ok (db : Database) (readPreference : ReadPreference) {body : Document}
    (hne : body.fields ≠ []) (hw : body.isWritable = true) :
    db.sent readPreference body = .ok (Command.written ⟨db.name, body, readPreference⟩) := by
  have hcheck : Command.check ⟨db.name, body, readPreference⟩ = .ok () := by
    simp [Command.check, Document.isEmpty, hne, hw]
  simp [sent, hcheck]

end Database

namespace Collection

/-- What is sent of a body is meant for the collection that is named first in it. -/
theorem isFor_of_sent {c : Collection} {name : String} {body : Document} {readPreference : ReadPreference}
    {k : Command} (hhead : body.fields.head? = some (name, .string c.name))
    (hk : c.database.sent readPreference body = .ok k) : k.IsFor name c := by
  obtain ⟨rest, hrest⟩ := List.head?_eq_some_iff.mp hhead
  rw [Database.eq_of_sent hk]
  refine ⟨rfl, ?_⟩
  simp [Command.written, Document.written, hrest, Bson.writtenFields, Bson.written]

/-- The write command of a name with its fields, as it is sent. -/
def writeCommand (c : Collection) (name : String) (fields : Fields Bson) : Except Error Command :=
  c.database.withConcern (c.body name fields) >>= c.database.sent .primary

theorem write_eq_ask {α : Type} (c : Collection) (limit : Deadline) (name : String)
    (fields : Fields Bson) (read : Document → Except DecodeCause α) :
    c.write limit (c.body name fields) read =
      Call.ask (c.writeCommand name fields) limit fun reply => reply.success >>= readReply read := by
  unfold write
  rw [Database.concernedCommand_eq_ask, Call.ask_bind_settled]
  rfl

section WriteCommand

variable {c : Collection} {name : String} {fields : Fields Bson}

private theorem withConcern_body (h : ("writeConcern" :: name :: Fields.names fields).Nodup) :
    c.database.withConcern (c.body name fields) =
      c.database.concernFields.map fun extra => ⟨(name, .string c.name) :: (fields ++ extra)⟩ := by
  obtain ⟨hconcern, hnames⟩ := List.nodup_cons.mp h
  have hpairs : (Fields.names ((name, Bson.string c.name) :: fields)).Nodup := hnames
  have hbody : c.body name fields = ⟨(name, .string c.name) :: fields⟩ := by
    unfold body Document.ofPairs
    rw [Fields.collect_of_nodup hpairs]
  have hnot : "writeConcern" ∉ Document.names ⟨(name, .string c.name) :: fields⟩ := hconcern
  rw [hbody, Database.withConcern_eq _ hnot]
  rfl

variable {k : Command}

private theorem fields_of_writeCommand (h : ("writeConcern" :: name :: Fields.names fields).Nodup)
    (hk : c.writeCommand name fields = .ok k) :
    ∃ extra, c.database.concernFields = .ok extra ∧ k = Command.written
      ⟨c.database.name, ⟨(name, .string c.name) :: (fields ++ extra)⟩, .primary⟩ := by
  unfold writeCommand at hk
  rw [withConcern_body h] at hk
  obtain ⟨body, hbody, hsent⟩ := bind_eq_ok_iff.mp hk
  obtain ⟨extra, hextra, rfl⟩ := map_eq_ok_iff.mp hbody
  exact ⟨extra, hextra, Database.eq_of_sent hsent⟩

/-- Under a write concern that has no form there is no write command. -/
theorem writeCommand_of_concernFields (h : ("writeConcern" :: name :: Fields.names fields).Nodup) {e : Error}
    (hconcern : c.database.concernFields = .error e) : c.writeCommand name fields = .error e := by
  unfold writeCommand
  rw [withConcern_body h, hconcern]
  rfl

theorem isFor_of_writeCommand (h : ("writeConcern" :: name :: Fields.names fields).Nodup)
    (hk : c.writeCommand name fields = .ok k) : k.IsFor name c := by
  obtain ⟨extra, -, rfl⟩ := fields_of_writeCommand h hk
  refine ⟨rfl, ?_⟩
  simp [Command.written, Document.written, Bson.writtenFields, Bson.written]

/-- Beside its name and the write concern, a write command has its fields as they are written. -/
theorem get?_writeCommand (h : ("writeConcern" :: name :: Fields.names fields).Nodup)
    (hk : c.writeCommand name fields = .ok k) {key : String} (hkey : key ≠ "writeConcern") (hname : name ≠ key) :
    k.body.get? key = (Fields.get? fields key).map Bson.written := by
  obtain ⟨extra, hextra, rfl⟩ := fields_of_writeCommand h hk
  have hget : Fields.get? ((name, Bson.string c.name) :: (fields ++ extra)) key = Fields.get? fields key := by
    rw [Fields.get?_cons, if_neg hname, Fields.get?_append, Database.get?_of_concernFields hextra hkey,
      Option.or_none]
  refine (Document.get?_written ⟨(name, Bson.string c.name) :: (fields ++ extra)⟩ key).trans ?_
  exact congrArg (Option.map Bson.written) hget

/-- A field of a write command is found in it as it is written. -/
theorem get?_of_writeCommand (h : ("writeConcern" :: name :: Fields.names fields).Nodup)
    (hk : c.writeCommand name fields = .ok k) {key : String} {b : Bson}
    (hb : Fields.get? fields key = some b) : k.body.get? key = some b.written := by
  have hmem : key ∈ Fields.names fields := by
    by_contra hmem
    rw [Fields.get?_eq_none_iff.mpr hmem] at hb
    cases hb
  obtain ⟨hconcern, hnames⟩ := List.nodup_cons.mp h
  have hkey : key ≠ "writeConcern" := fun he => hconcern (he ▸ List.mem_cons_of_mem _ hmem)
  have hname : name ≠ key := fun he => (List.nodup_cons.mp hnames).1 (he ▸ hmem)
  rw [get?_writeCommand h hk hkey hname, hb]
  rfl

/-- A write command can be sent when its fields can be written and the write concern has a form. -/
theorem exists_writeCommand (h : ("writeConcern" :: name :: Fields.names fields).Nodup)
    {extra : Fields Bson} (hextra : c.database.concernFields = .ok extra)
    (hname : Bson.isTerminable name = true) (hfields : Bson.fieldsWritable fields = true) :
    ∃ k, c.writeCommand name fields = .ok k := by
  have hw : Document.isWritable ⟨(name, .string c.name) :: (fields ++ extra)⟩ = true := by
    simp [Document.isWritable, Bson.fieldsWritable, Bson.fieldsWritable_append, Bson.isWritable, hname,
      hfields, Database.concernFields_writable hextra]
  unfold writeCommand
  rw [withConcern_body h, hextra]
  exact ⟨_, Database.sent_eq_ok _ _ (by simp) hw⟩

end WriteCommand

end Collection
end DocClient
