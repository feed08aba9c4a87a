import DocClient.Proofs.Collection.Carrying
import DocClient.Proofs.Conversion
import DocClient.Proofs.Query.Asking

/-! What is made of a value that is given as an update. Main statement: `Value.exists_updatesWith`, by which every
value becomes one document with an operator among its names, and every way of updating hands on this document. If
nothing else keeps it from being sent, it is. -/
namespace DocClient

/-- The names at the top of a value, also of a server document that is taken as it is. -/
def Value.topNames : Value → List String
  | .unordered fields => Fields.names fields
  | .ordered pairs => Fields.names pairs
  | .other (.document fields) => Fields.names fields
  | _ => []

namespace Command

/-- The updates in a command, as a reader finds them. Searches and requests for further batches have none; a
command of any other name is one whose update cannot be read. -/
def updates (k : Command) : List (Option Document) :=
  match k.body.names.head? with
  | some "update" => (k.body.itemsUnder "updates").map (·.documentIn "u")
  | some "findAndModify" => [(Bson.ofDocument k.body).documentIn "update"]
  | some "find" => []
  | some "getMore" => []
  | _ => [none]

/-- Whatever a command updates, it updates with one document. This one begins with an operator, so that nothing
is replaced. -/
def UpdatesBy (doc : Document) (k : Command) : Prop :=
  ∀ update ∈ k.updates, update = some doc.written ∧ doc.names.head?.any isOperator = true

end Command

/-- A selector and an update that nothing keeps from being sent. -/
structure Collection.CanUpdate {α : Type} [Argument α] (c : Collection) (selector : α) (doc : Document) : Prop where
  selects : ∃ filter, liftDocument selector = .ok filter ∧ filter.isWritable = true
  updates : doc.CanUpdate
  concern : ∃ extra, c.database.concernFields = .ok extra

/-- Every update of a collection hands on one document. -/
structure Collection.UpdatesBy {α β : Type} [Argument α] [Argument β] (c : Collection) (selector : α) (changes : β)
    (doc : Document) : Prop where
  update : c.update selector changes = do
    let filter ← Call.settled (liftDocument selector)
    let _ ← c.updateMatches filter doc false false
  updateAll : c.updateAll selector changes = do
    let filter ← Call.settled (liftDocument selector)
    let result ← c.updateMatches filter doc true false
    return { updated := result.modified, matched := result.matched }
  upsert : c.upsert selector changes = do
    let filter ← Call.settled (liftDocument selector)
    let result ← c.updateMatches filter doc false true
    return { updated := result.modified, matched := result.matched,
             upsertedId := result.upsertedId.map Bson.inbound }
  sent : (c.update selector changes).run.SendsOnly (Command.UpdatesBy doc)
  sent_all : (c.updateAll selector changes).run.SendsOnly (Command.UpdatesBy doc)
  sent_upsert : (c.upsert selector changes).run.SendsOnly (Command.UpdatesBy doc)
  /-- What nothing keeps from being sent is sent. -/
  asked : c.CanUpdate selector doc →
    (c.update selector changes).run.Asks fun k => k.IsFor "update" c ∧ k.updates = [some doc.written]
  asked_all : c.CanUpdate selector doc →
    (c.updateAll selector changes).run.Asks fun k => k.IsFor "update" c ∧ k.updates = [some doc.written]
  asked_upsert : c.CanUpdate selector doc →
    (c.upsert selector changes).run.Asks fun k => k.IsFor "update" c ∧ k.updates = [some doc.written]

/-- A change of one document hands on a document, whatever is made of the outcome. -/
structure Query.ChangesBy (q : Query) (change : Change) (doc : Document) : Prop where
  course : q.change change = do
    Call.settled q.check
    let inserting ← q.willInsert change
    let found ← q.updateFirst doc change
    q.conclude change inserting found
  sent : ∀ {α : Type} [Destination α] (previous : α), (q.apply change previous).SendsOnly (Command.UpdatesBy doc)
  sent_info : (q.applyInfo change).run.SendsOnly (Command.UpdatesBy doc)
  /-- What nothing keeps from being sent is sent, an upsert once it was looked for a match. -/
  carried_out : q.Changeable → doc.CanUpdate → ∀ {α : Type} [Destination α] (previous : α),
    q.CarriesOut change doc (q.apply change previous)
  carried_out_info : q.Changeable → doc.CanUpdate → q.CarriesOut change doc (q.applyInfo change).run

/-- What a value is as an update. -/
structure Value.UpdatesWith (u : Value) (doc : Document) : Prop where
  made : updateDocument u = .ok doc
  /-- A document with an operator is sent as it is. -/
  kept : (∃ name ∈ u.topNames, isOperator name = true) → u.outboundDocument? = some doc
  /-- Any other value, a document or not, is the content of `$set`. -/
  wrapped : (¬ ∃ name ∈ u.topNames, isOperator name = true) → doc = ⟨[("$set", u.outbound)]⟩
  operates : ∃ name ∈ doc.names, isOperator name = true
  wrapped_once : u.wrapInSet.wrapInSet = u.wrapInSet
  /-- Whatever is lifted to the value is handed on as the value is. -/
  collection : ∀ {α β : Type} [Argument α] [Argument β] (c : Collection) (selector : α) (changes : β),
    lift changes = .ok u → c.UpdatesBy selector changes doc
  query : ∀ (q : Query) (change : Change), change.update = u → change.remove = false → q.ChangesBy change doc

/-! ### Operators -/

namespace Value

variable {u : Value} {doc : Document}

theorem hasOperators_eq_any (u : Value) : u.hasOperators = u.topNames.any isOperator := by
  cases u with
  | other b => cases b <;> rfl
  | _ => rfl

theorem hasOperators_iff : u.hasOperators = true ↔ ∃ name ∈ u.topNames, isOperator name = true := by
  rw [hasOperators_eq_any, List.any_eq_true]

/-- A value with names at the top is a document. -/
theorem exists_outboundDocument? {name : String} (h : name ∈ u.topNames) : ∃ doc, u.outboundDocument? = some doc := by
  cases u with
  | unordered fields => exact ⟨_, rfl⟩
  | ordered pairs => exact ⟨_, rfl⟩
  | other b =>
    cases b with
    | document fields => exact ⟨_, rfl⟩
    | _ => cases h
  | _ => cases h

/-- No name at the top is lost on the way out, however often it is there. -/
theorem mem_names_of_outboundDocument? (h : u.outboundDocument? = some doc) {name : String} :
    name ∈ doc.names ↔ name ∈ u.topNames := by
  cases u with
  | unordered fields =>
    obtain rfl := Option.some.inj h
    exact iff_of_eq (congrArg (name ∈ ·) (names_outboundFields fields))
  | ordered pairs =>
    obtain rfl := Option.some.inj h
    change name ∈ Fields.names (Fields.collect (outboundFields pairs)) ↔ name ∈ Fields.names pairs
    rw [Fields.names_collect, List.mem_eraseDups, names_outboundFields]
  | other b =>
    cases b with
    | document fields =>
      obtain rfl := Option.some.inj h
      exact Iff.rfl
    | _ => cases h
  | _ => cases h

theorem wrapInSet_of_hasOperators (h : u.hasOperators = true) : u.wrapInSet = u := if_pos h

theorem wrapInSet_of_plain (h : u.hasOperators = false) : u.wrapInSet = .unordered [("$set", u)] :=
  if_neg (Bool.eq_false_iff.mp h)

@[simp] theorem hasOperators_wrapInSet (u : Value) : u.wrapInSet.hasOperators = true := by
  cases h : u.hasOperators with
  | true => rwa [wrapInSet_of_hasOperators h]
  | false =>
    have hset : isOperator "$set" = true := by decide
    simp [wrapInSet_of_plain h, hasOperators, hset]

@[simp] theorem wrapInSet_wrapInSet (u : Value) : u.wrapInSet.wrapInSet = u.wrapInSet :=
  wrapInSet_of_hasOperators u.hasOperators_wrapInSet

theorem toDocument_of_outboundDocument? (h : u.outboundDocument? = some doc) : u.toDocument = .ok doc := by
  have hnull : u.isNull = false := by
    cases u with
    | null => cases h
    | _ => rfl
  unfold toDocument
  rw [hnull, h]
  rfl

end Value

theorem updateDocument_of_lift {β : Type} [Argument β] {changes : β} {u : Value} (h : lift changes = .ok u) :
    updateDocument changes = u.wrapInSet.toDocument := by
  unfold updateDocument
  rw [h]
  rfl

/-! ### Updates of a collection -/

section Sending

variable {α β : Type} [Argument α] [Argument β] {doc : Document} {k : Command}

theorem Command.updatesBy_of_updates_eq_nil (h : k.updates = []) (doc : Document) : k.UpdatesBy doc := by
  unfold UpdatesBy
  rw [h]
  exact nofun

theorem Command.updatesBy_of_updates_eq (h : k.updates = [some doc.written])
    (hoperates : doc.names.head?.any isOperator = true) : k.UpdatesBy doc := by
  unfold UpdatesBy
  rw [h]
  exact fun update hmem => ⟨List.mem_singleton.mp hmem, hoperates⟩

/-- An update is sent as one update with a document that begins with an operator. -/
theorem Collection.sendsOnly_updateMatches_updates (c : Collection) (filter doc : Document) (multi upsert : Bool) :
    (c.updateMatches filter doc multi upsert).run.SendsOnly fun k =>
      k.updates = [some doc.written] ∧ doc.names.head?.any isOperator = true := by
  apply c.sendsOnly_updateMatches_of
  intro hchecked k entry _ hupdate hk
  refine ⟨?_, checkUpdate_eq_ok_iff.mp hchecked⟩
  have hentry : (Bson.ofDocument entry).documentIn "u" = some doc := by simp [Bson.documentIn, hupdate]
  simp only [Command.updates, hk.command, hk.itemsUnder, List.map_cons, List.map_nil, Bson.documentIn_written,
    hentry, Option.map_some]

theorem Collection.updatesBy_of_updateDocument (c : Collection) (selector : α) {changes : β}
    (h : updateDocument changes = .ok doc) : c.UpdatesBy selector changes doc := by
  have hupdate : c.update selector changes = (Call.settled (liftDocument selector) >>= fun filter =>
      c.updateMatches filter doc false false >>= fun _ => pure ()) := by
    unfold Collection.update
    simp only [h, Call.settled_ok_bind]
  have hall : c.updateAll selector changes = (Call.settled (liftDocument selector) >>= fun filter =>
      c.updateMatches filter doc true false >>= fun result =>
        pure { updated := result.modified, matched := result.matched }) := by
    unfold Collection.updateAll
    simp only [h, Call.settled_ok_bind]
  have hupsert : c.upsert selector changes = (Call.settled (liftDocument selector) >>= fun filter =>
      c.updateMatches filter doc false true >>= fun result =>
        pure { updated := result.modified, matched := result.matched,
               upsertedId := result.upsertedId.map Bson.inbound }) := by
    unfold Collection.upsert
    simp only [h, Call.settled_ok_bind]
  have hsends : ∀ {γ : Type} (multi upsert : Bool) (report : UpdateResult → γ),
      (Call.settled (liftDocument selector) >>= fun filter =>
        c.updateMatches filter doc multi upsert >>= fun result =>
          pure (report result)).run.SendsOnly (Command.UpdatesBy doc) := by
    intro γ multi upsert report
    apply Call.sendsOnly_settled_bind
    intro filter _
    exact Call.sendsOnly_bind ((c.sendsOnly_updateMatches_updates filter doc multi upsert).mono fun k hk =>
      Command.updatesBy_of_updates_eq hk.1 hk.2) fun _ => trivial
  have hasks : c.CanUpdate selector doc → ∀ {γ : Type} (multi upsert : Bool) (report : UpdateResult → γ),
      (Call.settled (liftDocument selector) >>= fun filter =>
        c.updateMatches filter doc multi upsert >>= fun result =>
          pure (report result)).run.Asks fun k => k.IsFor "update" c ∧ k.updates = [some doc.written] := by
    rintro ⟨⟨filter, hlift, hfilter⟩, hdoc, extra, hextra⟩ γ multi upsert report
    refine Call.asks_settled_bind hlift (Call.asks_bind ?_)
    have hsent := (asks_updateMatches hextra hfilter hdoc).and_sendsOnly
      (c.sendsOnly_updateMatches_updates filter doc multi upsert)
    exact hsent.mono fun k hk => ⟨hk.1, hk.2.1⟩
  refine ⟨hupdate, hall, hupsert, ?sent, ?sent_all, ?sent_upsert, ?asked, ?asked_all, ?asked_upsert⟩
  case sent =>
    rw [hupdate]
    exact hsends false false _
  case sent_all =>
    rw [hall]
    exact hsends true false _
  case sent_upsert =>
    rw [hupsert]
    exact hsends false true _
  case asked =>
    rw [hupdate]
    exact fun h => hasks h false false _
  case asked_all =>
    rw [hall]
    exact fun h => hasks h true false _
  case asked_upsert =>
    rw [hupsert]
    exact fun h => hasks h false true _

end Sending

/-! ### Changes of one document -/

section Changing

variable {q : Query} {change : Change} {doc : Document} {k : Command}

theorem Query.sendsOnly_firstOfFilter_updatesBy (q : Query) (doc : Document) :
    q.firstOfFilter.run.SendsOnly (Command.UpdatesBy doc) := by
  refine sendsOnly_firstOfFilter_of (fun k hk => ?_) fun k hk => ?_
  · exact Command.updatesBy_of_updates_eq_nil (by simp [Command.updates, hk.command]) doc
  · exact Command.updatesBy_of_updates_eq_nil (by simp [Command.updates, hk]) doc

theorem Query.sendsOnly_updateFirst_updatesBy (q : Query) (doc : Document) (change : Change) :
    (q.updateFirst doc change).run.SendsOnly (Command.UpdatesBy doc) := by
  apply Call.sendsOnly_settled_bind
  intro _ hchecked
  apply Call.sendsOnly_settled_bind
  intro _ _
  refine q.collection.sendsOnly_findAndModify_of (show _ = some (Bson.ofDocument doc) from ?_)
    (show "update" ≠ "writeConcern" by decide) fun k hk => ?_
  · unfold orderField
    cases q.order <;> cases q.projection <;> rfl
  · refine Command.updatesBy_of_updates_eq ?_ (Collection.checkUpdate_eq_ok_iff.mp hchecked)
    simp [Command.updates, hk.command, Bson.documentIn, hk.field]

theorem Query.changesBy_of_updateDocument (q : Query) (hremove : change.remove = false)
    (h : updateDocument change.update = .ok doc) : q.ChangesBy change doc := by
  have hsends : (q.change change).run.SendsOnly (Command.UpdatesBy doc) := by
    refine sendsOnly_change_of (q.sendsOnly_firstOfFilter_updatesBy doc) (fun hremoving => ?_) fun _ update hupdate => ?_
    · cases hremove.symm.trans hremoving
    · obtain rfl := Except.ok.inj (h.symm.trans hupdate)
      exact q.sendsOnly_updateFirst_updatesBy doc change
  constructor
  case course =>
    rw [change_of_not_remove hremove, h]
    simp only [Call.settled_ok_bind]
  case sent => exact fun previous => sendsOnly_apply_of hsends previous
  case sent_info => exact sendsOnly_applyInfo_of hsends
  case carried_out => exact fun hq hdoc {α} [_] previous => (hq.carriesOut_change hremove h hdoc).apply previous
  case carried_out_info => exact fun hq hdoc => (hq.carriesOut_change hremove h hdoc).applyInfo

end Changing

/-- Every value is an update, by one document that every way of updating hands on. -/
theorem Value.exists_updatesWith (u : Value) : ∃ doc, u.UpdatesWith doc := by
  -- Wrapped or not, the value has an operator at the top, and what has names there is a document.
  obtain ⟨name, hmem, hname⟩ := hasOperators_iff.mp u.hasOperators_wrapInSet
  obtain ⟨doc, hdoc⟩ := exists_outboundDocument? hmem
  have hlifted : ∀ {β : Type} [Argument β] (changes : β), lift changes = .ok u →
      updateDocument changes = .ok doc := fun changes hlift =>
    (updateDocument_of_lift hlift).trans (toDocument_of_outboundDocument? hdoc)
  refine ⟨doc, ?_⟩
  constructor
  case made => exact hlifted u rfl
  case kept =>
    intro hoperators
    rwa [wrapInSet_of_hasOperators (hasOperators_iff.mpr hoperators)] at hdoc
  case wrapped =>
    intro hplain
    rw [wrapInSet_of_plain (Bool.eq_false_iff.mpr fun h => hplain (hasOperators_iff.mp h))] at hdoc
    exact (Option.some.inj hdoc).symm
  case operates => exact ⟨name, (mem_names_of_outboundDocument? hdoc).mpr hmem, hname⟩
  case wrapped_once => exact u.wrapInSet_wrapInSet
  case collection => exact fun c selector changes hlift => c.updatesBy_of_updateDocument selector (hlifted changes hlift)
  case query => exact fun q change hupdate hremove => q.changesBy_of_updateDocument hremove (hupdate ▸ hlifted u rfl)

/-- A name that comes again is set once, to its last value. -/
example : updateDocument (Value.ordered [("a", .int32 1), ("b", .null), ("a", .int32 2)]) =
    .ok ⟨[("$set", .document [("a", .int32 2), ("b", .null)])]⟩ := by rfl

end DocClient
