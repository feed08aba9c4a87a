import DocClient.Proofs.Query.Requests
import DocClient.Proofs.Query.Upsert

/-! What requests ask first when nothing keeps them from being sent: filters, options and updates can be written,
and the write concern has a form. Main statements: `Collection.asks_updateMatches` for updates,
`Query.Sendable.asks_one` and its like for searches and counts, and `Query.Changeable.carriesOut_change` for changes
of one document. -/
namespace DocClient

/-! ### Updates of a collection -/

/-- A document that can be sent as an update. -/
structure Document.CanUpdate (doc : Document) : Prop where
  isWritable : doc.isWritable = true
  operates : doc.names.head?.any isOperator = true

namespace Collection

theorem checkUpdate_eq_ok_iff {doc : Document} :
    checkUpdate doc = .ok () ↔ doc.names.head?.any isOperator = true := by
  unfold checkUpdate
  cases doc.names with
  | nil => simp
  | cons name rest => simp

/-- An update is sent. -/
theorem asks_updateMatches {c : Collection} {extra : Fields Bson} {filter update : Document} {multi upsert : Bool}
    (hextra : c.database.concernFields = .ok extra) (hfilter : filter.isWritable = true) (hupdate : update.CanUpdate) :
    (c.updateMatches filter update multi upsert).run.Asks fun k => k.IsFor "update" c := by
  have hterm : ∀ name ∈ ["q", "u", "updates", "ordered"], Bson.isTerminable name = true := by decide
  simp only [List.forall_mem_cons] at hterm
  have hpairs : (Document.ofPairs [("q", .ofDocument filter), ("u", .ofDocument update)]).isWritable = true := by
    have hfields : Document.ofPairs [("q", .ofDocument filter), ("u", .ofDocument update)] =
        ⟨[("q", .ofDocument filter), ("u", .ofDocument update)]⟩ :=
      congrArg Document.mk (Fields.collect_of_nodup (show ["q", "u"].Nodup by decide))
    have hwritable : Bson.fieldsWritable filter.fields = true ∧ Bson.fieldsWritable update.fields = true :=
      ⟨hfilter, hupdate.isWritable⟩
    simp [hfields, Document.isWritable, Bson.fieldsWritable, hterm, hwritable]
  have hflag : ∀ flag : Bool, ∀ v ∈ (if flag then some (Bson.boolean true) else none), v.isWritable = true := by
    rintro (_ | _) v ⟨⟩
    rfl
  have hentry := Document.isWritable_putSome (Document.isWritable_putSome hpairs
    (show Bson.isTerminable "multi" = true by decide) (hflag multi)) (show Bson.isTerminable "upsert" = true by decide)
    (hflag upsert)
  have hnames : ∀ b : Bson, ("writeConcern" :: "update" ::
      Fields.names [("updates", b), ("ordered", .boolean true)]).Nodup := by
    intro b
    change ["writeConcern", "update", "updates", "ordered"].Nodup
    decide
  have hwrite : ∀ entry : Document, entry.isWritable = true → ∃ k, c.writeCommand "update"
      [("updates", .array [.ofDocument entry]), ("ordered", .boolean true)] = .ok k := by
    intro entry hentry
    refine exists_writeCommand (hnames _) hextra (by decide) ?_
    simp [Bson.fieldsWritable, Bson.isWritable, Bson.areWritable, hterm, hentry]
  obtain ⟨k, hk⟩ := hwrite _ hentry
  refine Call.asks_settled_bind (checkUpdate_eq_ok_iff.mpr hupdate.operates) (Call.asks_bind ?_)
  rw [write_eq_ask]
  exact Call.asks_ask hk (isFor_of_writeCommand (hnames _) hk)

end Collection

namespace Query

variable {q : Query} {body : Document}

/-! ### Searches and counts -/

theorem head?_searchBody (h : q.searchBody = .ok body) :
    body.fields.head? = some ("find", .string q.collection.name) := by
  obtain ⟨skip, -, rfl⟩ := eq_of_searchBody h
  rw [Collection.body_find]
  iterate 3 refine Document.head?_putSome ?_ (by decide)
  rfl

theorem asks_searchOne {c : Collection} (hhead : body.fields.head? = some ("find", .string c.name))
    (hw : body.isWritable = true) : (searchOne c body).run.Asks fun k => k.IsFor "find" c := by
  have hbody : firstBody body =
      (body.putSome "limit" (some (.int64 1))).putSome "singleBatch" (some (.boolean true)) := rfl
  have hfirst : (firstBody body).fields.head? = some ("find", .string c.name) := by
    rw [hbody]
    exact Document.head?_putSome (Document.head?_putSome hhead (by decide)) (by decide)
  have hwritable : (firstBody body).isWritable = true := by
    rw [hbody]
    refine Document.isWritable_putSome (Document.isWritable_putSome hw (by decide) ?_) (by decide) ?_
    · rintro _ ⟨⟩
      rfl
    · rintro _ ⟨⟩
      rfl
  have hne : (firstBody body).fields ≠ [] := by
    intro hnil
    rw [hnil] at hfirst
    cases hfirst
  have hk := c.database.sent_eq_ok c.database.readPreference hne hwritable
  unfold searchOne
  rw [Database.openCursor_eq_ask]
  exact Call.asks_bind (Call.asks_ask hk (Collection.isFor_of_sent hfirst hk))

theorem asks_firstOfFilter (hfilter : q.filter.isWritable = true) :
    q.firstOfFilter.run.Asks fun k => k.IsFor "find" q.collection := by
  have hhead : (q.collection.body "find" [("filter", .ofDocument q.filter)]).fields.head? =
      some ("find", .string q.collection.name) := by
    rw [Collection.body_find]
    rfl
  exact asks_searchOne hhead (isWritable_body_find hfilter)

namespace Sendable

variable (h : q.Sendable)
include h

theorem asks_one {α : Type} [Destination α] :
    (q.one : Call α).run.Asks fun k => k.IsFor "find" q.collection := by
  obtain ⟨all, hall⟩ := h.exists_allBody
  obtain ⟨body, hbody, -⟩ := bind_eq_ok_iff.mp hall
  have hfirst : q.first.run.Asks fun k => k.IsFor "find" q.collection :=
    Call.asks_settled_bind hbody (asks_searchOne (head?_searchBody hbody) (h.isWritable_searchBody hbody))
  exact Call.asks_settled_bind (check_of_err h.err) (Call.asks_bind hfirst)

theorem asks_iter : q.iter.Asks fun k => k.IsFor "find" q.collection := by
  obtain ⟨k, hk⟩ := h.exists_listCommand
  unfold iter
  rw [openCursor_eq_ask]
  exact Program.Asks.bind (Call.asks_ask hk (Command.isFor_of_listing? (listing?_of_listCommand hk)))

theorem asks_all {α : Type} [Destination α] (previous : List α) :
    (q.all previous).Asks fun k => k.IsFor "find" q.collection := h.asks_iter.bind

theorem asks_count : q.count.run.Asks fun k => k.IsFor "aggregate" q.collection := by
  obtain ⟨k, hk⟩ := h.exists_countCommand
  rw [count_eq_ask]
  exact Call.asks_ask hk (Command.isFor_of_stages? (stages?_of_countCommand hk))

end Sendable

end Query

/-! ### Changes of one document -/

namespace Change

/-- A change that is a removal, or an update that can be sent. -/
def Writable (change : Change) : Prop :=
  change.remove = false → ∃ doc, updateDocument change.update = .ok doc ∧ doc.CanUpdate

/-- The command that a change begins with. One that may insert looks first whether it will. -/
def firstCommand (change : Change) : String :=
  if change.remove = false ∧ change.upsert = true then "find" else "findAndModify"

end Change

/-- A change that is read has its update in the command. -/
theorem Command.of_modification? {k : Command} {c : Collection} {m : Modification} (h : k.modification? c = some m) :
    k.IsFor "findAndModify" c ∧ k.document? "update" = m.update := by
  unfold modification? at h
  split at h
  case isFalse => cases h
  case isTrue hfor =>
    refine ⟨hfor, ?_⟩
    split at h
    case h_1 hupdate => exact hupdate.trans (congrArg Modification.update (Option.some.inj h))
    case h_2 hupdate => exact hupdate.trans (congrArg Modification.update (Option.some.inj h))
    case h_3 => cases h

namespace Query

variable {q : Query} {doc : Document} {change : Change}

/-- A query by which a document can be changed. -/
structure Changeable (q : Query) : Prop where
  err : q.err = none
  filter : q.filter.isWritable = true
  order : ∀ order ∈ q.order, order.isWritable = true
  projection : ∀ projection ∈ q.projection, projection.isWritable = true
  concern : ∃ extra, q.collection.database.concernFields = .ok extra

theorem Sendable.changeable (h : q.Sendable) : q.Changeable := ⟨h.err, h.filter, h.order, h.projection, h.concern⟩

/-- A program sends a change of one document, unless a search comes before it and fails. -/
structure CarriesOut {α : Type} (q : Query) (change : Change) (update : Document) (p : Program α) : Prop where
  asks : p.Asks fun k => k.IsFor change.firstCommand q.collection
  sends : ∀ log a, p.Plays log a →
    (∃ x ∈ log, x.command.IsFor "findAndModify" q.collection ∧ x.command.document? "update" = some update.written) ∨
      change.upsert = true ∧ ∃ e, q.firstOfFilter.run.Plays log (.error e)

/-- What is made of the outcome of a change is no matter if nothing is sent for it. -/
theorem CarriesOut.bind {α β : Type} {p : Program α} {f : α → Program β} (h : q.CarriesOut change doc p)
    (hf : ∀ a, ∃ b, f a = .done b) : q.CarriesOut change doc (p.bind f) where
  asks := h.asks.bind
  sends := by
    intro log b hplays
    obtain ⟨a, first, rest, rfl, hp, hrest⟩ := Program.plays_bind.mp hplays
    obtain ⟨b', hdone⟩ := hf a
    rw [hdone] at hrest
    obtain ⟨rfl, -⟩ := Program.plays_done.mp hrest
    rw [List.append_nil]
    exact h.sends first a hp

theorem CarriesOut.apply {α : Type} [Destination α] (h : q.CarriesOut change doc (q.change change).run)
    (previous : α) : q.CarriesOut change doc (q.apply change previous) := by
  refine h.bind ?_
  rintro (e | ⟨info, _ | v⟩)
  · exact ⟨_, rfl⟩
  · exact ⟨_, rfl⟩
  · rcases hdecoded : decodeInto v previous with ⟨_ | u, a⟩
    · exact ⟨_, by simp only [hdecoded]; rfl⟩
    · exact ⟨_, by simp only [hdecoded]; rfl⟩

theorem CarriesOut.applyInfo (h : q.CarriesOut change doc (q.change change).run) :
    q.CarriesOut change doc (q.applyInfo change).run := by
  have hrun : (q.applyInfo change).run = (q.change change).run.bind fun r => .done (r.map Prod.fst) := by
    unfold Query.applyInfo
    rw [Call.run_bind]
    refine congrArg _ (funext fun r => ?_)
    cases r <;> rfl
  rw [hrun]
  exact h.bind fun r => ⟨_, rfl⟩

namespace Changeable

variable (h : q.Changeable)
include h

/-- A removal is sent. -/
theorem asks_removeFirst : q.removeFirst.run.Asks fun k => k.IsFor "findAndModify" q.collection := by
  obtain ⟨extra, hextra⟩ := h.concern
  have hordered : Database.checkWritable q.order.toList = .ok () := by
    unfold Database.checkWritable
    rw [if_pos]
    simpa using h.order
  have hterm : ∀ name ∈ ["query", "remove", "sort"], Bson.isTerminable name = true := by decide
  simp only [List.forall_mem_cons] at hterm
  have hfields : Bson.fieldsWritable (Collection.removeFields q.filter q.order) = true := by
    have hsort := Bson.fieldsWritable_optional hterm.2.2.1 h.order
    simp [Collection.removeFields, Bson.fieldsWritable, Bson.isWritable, hterm, h.filter, hsort]
  obtain ⟨k, hk⟩ := Collection.exists_writeCommand Collection.nodup_removeFields hextra (by decide) hfields
  refine Call.asks_settled_bind hordered (Call.asks_bind ?_)
  rw [Collection.findAndModify_eq_ask]
  exact Call.asks_ask hk (Collection.isFor_of_writeCommand Collection.nodup_removeFields hk)

theorem exists_updateCommand (hdoc : doc.CanUpdate) (change : Change) : ∃ k, q.updateCommand doc change = .ok k := by
  obtain ⟨extra, hextra⟩ := h.concern
  have hoptions : q.checkOptions = .ok () := checkOptions_of_isWritable h.order h.projection
  have hterm : ∀ name ∈ ["query", "update", "new", "upsert", "sort", "fields"], Bson.isTerminable name = true := by
    decide
  simp only [List.forall_mem_cons] at hterm
  have hfields : Bson.fieldsWritable (Collection.updateFields q.filter doc change.returnNew change.upsert q.order
      q.projection) = true := by
    have hsort := Bson.fieldsWritable_optional (show Bson.isTerminable "sort" = true by decide) h.order
    have hshown := Bson.fieldsWritable_optional (show Bson.isTerminable "fields" = true by decide) h.projection
    simp [Collection.updateFields, Bson.fieldsWritable, Bson.fieldsWritable_append, Bson.isWritable, hterm, h.filter,
      hdoc.isWritable, hsort, hshown]
  obtain ⟨k, hk⟩ := Collection.exists_writeCommand Collection.nodup_updateFields hextra (by decide) hfields
  refine ⟨k, ?_⟩
  unfold updateCommand
  rw [Collection.checkUpdate_eq_ok_iff.mpr hdoc.operates, hoptions]
  exact hk

/-- An update is sent. -/
theorem asks_updateFirst (hdoc : doc.CanUpdate) (change : Change) :
    (q.updateFirst doc change).run.Asks fun k =>
      k.IsFor "findAndModify" q.collection ∧ k.document? "update" = some doc.written := by
  obtain ⟨k, hk⟩ := h.exists_updateCommand hdoc change
  rw [updateFirst_eq_ask]
  exact Call.asks_ask hk (Command.of_modification? (modification?_of_updateCommand hk))

/-- A change that may insert begins with a search, and any other with its command. -/
theorem asks_change (hchange : change.Writable) :
    (q.change change).run.Asks fun k => k.IsFor change.firstCommand q.collection := by
  cases hremove : change.remove with
  | true =>
    unfold Query.change Change.firstCommand
    rw [hremove, if_pos rfl, if_neg (fun hupsert => Bool.noConfusion hupsert.1)]
    exact Call.asks_settled_bind (check_of_err h.err) h.asks_removeFirst
  | false =>
    obtain ⟨doc, hmade, hdoc⟩ := hchange hremove
    rw [change_of_not_remove hremove]
    refine Call.asks_settled_bind (check_of_err h.err) (Call.asks_settled_bind hmade ?_)
    cases hupsert : change.upsert with
    | true =>
      rw [willInsert_of_upsert hupsert, show change.firstCommand = "find" from if_pos ⟨hremove, hupsert⟩]
      exact Call.asks_bind (Call.asks_bind (asks_firstOfFilter h.filter))
    | false =>
      rw [willInsert_of_not_upsert hupsert, show change.firstCommand = "findAndModify" from if_neg (by simp [hupsert])]
      rw [Call.settled_ok_bind]
      exact Call.asks_bind ((h.asks_updateFirst hdoc change).mono fun k hk => hk.1)

/-- An update of one document is carried out. -/
theorem carriesOut_change (hremove : change.remove = false) (hmade : updateDocument change.update = .ok doc)
    (hdoc : doc.CanUpdate) : q.CarriesOut change doc (q.change change).run where
  asks := h.asks_change fun _ => ⟨doc, hmade, hdoc⟩
  sends := by
    intro log r hplays
    rw [change_of_not_remove hremove, check_of_err h.err, hmade, Call.settled_ok_bind, Call.settled_ok_bind] at hplays
    have hupdated : ∀ inserting, (q.updateFirst doc change >>= q.conclude change inserting).run.Asks fun k =>
        k.IsFor "findAndModify" q.collection ∧ k.document? "update" = some doc.written :=
      fun inserting => Call.asks_bind (h.asks_updateFirst hdoc change)
    cases hupsert : change.upsert with
    | false =>
      rw [willInsert_of_not_upsert hupsert, Call.settled_ok_bind] at hplays
      exact .inl ((hupdated false).exists_of_plays hplays)
    | true =>
      rw [willInsert_of_upsert hupsert] at hplays
      obtain ⟨e, hlooked, -⟩ | ⟨inserting, looked, rest, rfl, -, hrest⟩ := Call.plays_bind.mp hplays
      · obtain ⟨e', hfailed, -⟩ | ⟨found, first, last, -, -, hlast⟩ := Call.plays_bind.mp hlooked
        · exact .inr ⟨rfl, e', hfailed⟩
        · cases (Program.plays_done.mp hlast).2
      · obtain ⟨x, hx, hsent⟩ := (hupdated inserting).exists_of_plays hrest
        exact .inl ⟨x, List.mem_append_right _ hx, hsent⟩

end Changeable
end Query
end DocClient
