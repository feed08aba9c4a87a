import DocClient.Proofs.Destination
import DocClient.Proofs.Query.Modification
import DocClient.Proofs.Wire.Sending

/-! Changes that insert a document, and what is reported of them. The identifier of a document that nobody asked
for is looked up again by the filter that selected nothing before. Main statement: `found_iff_of_inserted`, by
which an insertion is reported as missing exactly if the old document is asked for and the filter does not select
the new one. -/
namespace DocClient

/-- A search for one document or a change gets a reply that can be read. -/
structure Exchange.Answered (x : Exchange) (c : Collection) : Prop where
  lookup : x.command.lookup? c ≠ none → ∃ batch, x.reply.batch "firstBatch" = .ok batch
  change : x.command.modification? c ≠ none → ∃ found, x.reply.modified = .ok found

section Answering

variable {x : Exchange} {c : Collection}

theorem Exchange.Answered.of_lookup {l : Lookup} {batch : Batch} (hasks : x.command.lookup? c = some l)
    (hbatch : x.reply.batch "firstBatch" = .ok batch) : x.Answered c where
  lookup _ := ⟨batch, hbatch⟩
  change h := absurd (Command.modification?_of_lookup? hasks) h

theorem Exchange.Answered.of_modification {m : Modification} {found : Option Document}
    (hasks : x.command.modification? c = some m) (hfound : x.reply.modified = .ok found) : x.Answered c where
  lookup h := by
    obtain ⟨l, hl⟩ := Option.ne_none_iff_exists'.mp h
    cases hasks.symm.trans (Command.modification?_of_lookup? hl)
  change _ := ⟨found, hfound⟩

end Answering

theorem Reply.failsOnly_modified (reply : Reply) : FailsOnly Error.OfExchange reply.modified :=
  reply.failsOnly_success.bind fun doc => (failsOnly_readReply readModified doc).bind fun r =>
    r.2.failsOnly_single.bind fun _ => failsOnly_readReply _ _

/-- Nothing comes of exchanges that change nothing. -/
theorem Engine.Served.of_unmodified {e : Engine} {c : Collection} {store store' : Multiset Document}
    {log : List Exchange} {outcomes : List Outcome} (h : e.Served c store log outcomes store')
    (hlog : ∀ x ∈ log, x.command.modification? c = none) : outcomes = [] ∧ store' = store := by
  induction h with
  | nil store => exact ⟨rfl, rfl⟩
  | @cons store middle store' x log first more hx hrest ih =>
    obtain ⟨hunmodified, hlog⟩ := List.forall_mem_cons.mp hlog
    obtain ⟨rfl, rfl⟩ := ih hlog
    obtain ⟨rfl, rfl⟩ | ⟨m, outcome, -, hasks, -⟩ := hx.cases_change
    · exact ⟨rfl, rfl⟩
    · cases hunmodified.symm.trans hasks

/-- Every document that was inserted has an identifier. -/
theorem Engine.Served.identified {e : Engine} {c : Collection} {store store' : Multiset Document}
    {log : List Exchange} {outcomes : List Outcome} {doc : Document} (h : e.Served c store log outcomes store')
    (hmem : .inserted doc ∈ outcomes) : ∃ id, doc.get? "_id" = some id := by
  induction h with
  | nil store => cases hmem
  | @cons store middle store' x log first more hx hrest ih =>
    rcases List.mem_append.mp hmem with hfirst | hmore
    · obtain ⟨rfl, -⟩ | ⟨m, outcome, rfl, -, hchanges, -⟩ := hx.cases_change
      · cases hfirst
      · obtain rfl := List.mem_singleton.mp hfirst
        cases hchanges with
        | inserted update_eq upsert missing done => exact e.identified done
    · exact ih hmore

namespace Query

variable {q : Query} {change : Change} {log : List Exchange}

/-! ### The course of a change -/

/-- What is made of the document that a change gave, or of there being none. -/
def conclude (q : Query) (change : Change) (inserting : Bool) :
    Option Document → Call (ChangeInfo × Option Value)
  | some doc =>
    return (if inserting then { upsertedId := identifierOf doc } else { updated := 1, matched := 1 },
      some (Value.ofDocument doc))
  | none =>
    if inserting && !change.returnNew then do
      match ← q.firstOfFilter with
      | some created => return ({ upsertedId := identifierOf created }, none)
      | none => Call.fail .notFound
    else Call.fail .notFound

theorem change_of_not_remove (hremove : change.remove = false) :
    q.change change = (Call.settled q.check >>= fun _ => Call.settled (updateDocument change.update) >>=
      fun update => q.willInsert change >>= fun inserting => q.updateFirst update change >>=
        q.conclude change inserting) := by
  unfold Query.change
  rw [hremove, if_neg Bool.false_ne_true]
  refine congrArg _ (funext fun _ => congrArg _ (funext fun update => congrArg _ (funext fun inserting =>
    congrArg _ (funext fun found => ?_))))
  cases found <;> rfl

theorem willInsert_of_upsert (h : change.upsert = true) :
    q.willInsert change = q.firstOfFilter >>= fun found => pure found.isNone := if_pos h

theorem willInsert_of_not_upsert (h : change.upsert = false) : q.willInsert change = Call.settled (.ok false) :=
  if_neg (Bool.eq_false_iff.mp h)

/-- The command of an update, unless it is refused. -/
def updateCommand (q : Query) (update : Document) (change : Change) : Except Error Command := do
  Collection.checkUpdate update
  q.checkOptions
  q.collection.writeCommand "findAndModify"
    (Collection.updateFields q.filter update change.returnNew change.upsert q.order q.projection)

theorem updateFirst_eq_ask (q : Query) (update : Document) (change : Change) :
    q.updateFirst update change = Call.ask (q.updateCommand update change) .short Reply.modified := by
  unfold updateFirst
  rw [Collection.findAndModify_eq_ask]
  simp only [Call.settled_bind_ask]
  rfl

theorem modification?_of_updateCommand {update : Document} {k : Command}
    (hk : q.updateCommand update change = .ok k) :
    k.modification? q.collection = some ⟨q.filter.written, some update.written, change.upsert, change.returnNew,
      q.projection.map Document.written⟩ := by
  unfold updateCommand at hk
  obtain ⟨-, -, hchecked⟩ := bind_eq_ok_iff.mp hk
  obtain ⟨-, -, hsent⟩ := bind_eq_ok_iff.mp hchecked
  exact Collection.modification?_of_update hsent

/-- A search for one document changes nothing. -/
theorem sendsOnly_firstOfFilter_unmodified (q : Query) :
    q.firstOfFilter.run.SendsOnly fun k => k.modification? q.collection = none := by
  unfold firstOfFilter searchOne
  rw [Database.openCursor_eq_ask]
  refine Call.sendsOnly_bind (Call.sendsOnly_ask fun k hk => ?_) fun cursor => ?_
  · exact Command.modification?_of_lookup? (lookup?_of_firstOfFilter hk)
  · refine (Cursor.sendsOnly_pullWithin (fun c => ?_) _ cursor).bind fun _ => trivial
    exact if_neg (c.asksForMore_nextBatch.not_isFor _ _)

/-- The command of a search for one document by the filter alone. -/
def searchCommand (q : Query) : Except Error Command :=
  q.collection.database.sent q.collection.database.readPreference
    (firstBody (q.collection.body "find" [("filter", .ofDocument q.filter)]))

/-- A search for one document is refused, or sends one command and pulls from what the reply brings. -/
theorem plays_firstOfFilter {r : Except Error (Option Document)} (h : q.firstOfFilter.run.Plays log r) :
    (∃ e, q.searchCommand = .error e ∧ log = [] ∧ r = .error e) ∨
      ∃ k reply rest, q.searchCommand = .ok k ∧ log = ⟨k, .short, reply⟩ :: rest ∧
        ((∃ e, reply.batch "firstBatch" = .error e ∧ rest = [] ∧ r = .error e) ∨
          ∃ batch d, reply.batch "firstBatch" = .ok batch ∧
            Cursor.Pulls (.ofBatch none q.collection.database.rounds batch) rest r d) := by
  unfold firstOfFilter searchOne at h
  rw [Database.openCursor_eq_ask] at h
  obtain ⟨e, he, rfl, rfl⟩ | ⟨k, reply, rest, hk, rfl, hrest⟩ := Call.plays_ask_bind.mp h
  · exact .inl ⟨e, he, rfl, rfl⟩
  · refine .inr ⟨k, reply, rest, hk, rfl, ?_⟩
    cases hbatch : reply.batch "firstBatch" with
    | error e =>
      rw [hbatch] at hrest
      obtain ⟨rfl, rfl⟩ := Program.plays_done.mp hrest
      exact .inl ⟨e, rfl, rfl, rfl⟩
    | ok batch =>
      simp only [hbatch, Except.map, Call.settled_ok_bind] at hrest
      obtain ⟨⟨outcome, d⟩, pulled, last, rfl, hpull, hlast⟩ := Program.plays_bind.mp hrest
      obtain ⟨rfl, rfl⟩ := Program.plays_done.mp hlast
      rw [List.append_nil]
      exact .inr ⟨batch, d, rfl, Cursor.pulls_of_plays hpull⟩

theorem failsOnly_of_firstOfFilter {r : Except Error (Option Document)} (h : q.firstOfFilter.run.Plays log r) :
    FailsOnly Error.OfExchange r := by
  obtain ⟨e, he, -, rfl⟩ | ⟨k, reply, rest, -, -, ⟨e, he, -, rfl⟩ | ⟨batch, d, -, hpulls⟩⟩ :=
    plays_firstOfFilter h
  · exact failsOnly_error (Database.failsOnly_sent _ _ _ e he)
  · exact failsOnly_error (reply.failsOnly_batch _ e he)
  · exact hpulls.failsOnly

/-- An update that may insert fails before anything is changed, or sends one command that asks for the change
after a search has told whether there is anything to update. -/
theorem plays_change_of_upsert {r : Except Error (ChangeInfo × Option Value)} (hremove : change.remove = false)
    (hupsert : change.upsert = true) (h : (q.change change).run.Plays log r) :
    ((∃ e, r = .error e) ∧ ∀ x ∈ log, x.command.modification? q.collection = none) ∨
      ∃ update seen looked x again, log = looked ++ x :: again ∧ q.firstOfFilter.run.Plays looked (.ok seen) ∧
        x.command.modification? q.collection = some ⟨q.filter.written, some (Document.written update), true,
          change.returnNew, q.projection.map Document.written⟩ ∧
        (Call.settled x.reply.modified >>= q.conclude change seen.isNone).run.Plays again r := by
  rw [change_of_not_remove hremove] at h
  obtain ⟨e, -, rfl, rfl⟩ | ⟨_, -, hchecked⟩ := Call.plays_settled_bind.mp h
  · exact .inl ⟨⟨e, rfl⟩, nofun⟩
  obtain ⟨e, -, rfl, rfl⟩ | ⟨update, -, hlifted⟩ := Call.plays_settled_bind.mp hchecked
  · exact .inl ⟨⟨e, rfl⟩, nofun⟩
  rw [willInsert_of_upsert hupsert] at hlifted
  obtain ⟨e, hlooked, rfl⟩ | ⟨inserting, looked, last, rfl, hlooked, hforeseen⟩ := Call.plays_bind.mp hlifted
  · refine .inl ⟨⟨e, rfl⟩, ?_⟩
    obtain ⟨e', hlooked, -⟩ | ⟨found, third, last, hlog, -, hlast⟩ := Call.plays_bind.mp hlooked
    · exact q.sendsOnly_firstOfFilter_unmodified.of_plays hlooked
    · cases (Program.plays_done.mp hlast).2
  obtain ⟨seen, searched, none, rfl, hseen, hnone⟩ := Call.plays_bind_ok.mp hlooked
  obtain ⟨rfl, hinserting⟩ := Program.plays_done.mp hnone
  obtain rfl := Except.ok.inj hinserting
  rw [updateFirst_eq_ask] at hforeseen
  obtain ⟨e, -, rfl, rfl⟩ | ⟨k, reply, again, hk, rfl, hagain⟩ := Call.plays_ask_bind.mp hforeseen
  · refine .inl ⟨⟨e, rfl⟩, ?_⟩
    simpa using q.sendsOnly_firstOfFilter_unmodified.of_plays hseen
  · refine .inr ⟨update, seen, searched, ⟨k, .short, reply⟩, again, by rw [List.append_nil], hseen, ?_, hagain⟩
    rw [← hupsert]
    exact modification?_of_updateCommand hk

/-! ### What is reported -/

section Inserting

variable {e : Engine} {store store' : Multiset Document} {outcomes : List Outcome}

/-- A search that can be sent and is answered does not fail. -/
theorem not_plays_error_of_answered {k : Command} {error : Error} (hk : q.searchCommand = .ok k)
    (hserved : e.Served q.collection store log outcomes store')
    (hanswered : ∀ x ∈ log, x.Answered q.collection) : ¬ q.firstOfFilter.run.Plays log (.error error) := by
  intro h
  obtain ⟨_, hrefused, -⟩ | ⟨k', reply, rest, hk', rfl, hrest⟩ := plays_firstOfFilter h
  · cases hk.symm.trans hrefused
  have hlookup := lookup?_of_firstOfFilter hk'
  obtain ⟨hfirst, -⟩ := List.forall_mem_cons.mp hanswered
  obtain ⟨batch, hbatch⟩ := hfirst.lookup (by simp [hlookup])
  obtain ⟨_, hfailed, -⟩ | ⟨batch', d, hbatch', hpulls⟩ := hrest
  · cases hbatch.symm.trans hfailed
  · obtain rfl := Except.ok.inj (hbatch.symm.trans hbatch')
    obtain _ | ⟨hx, -⟩ := hserved
    obtain ⟨-, -, hid, -⟩ := hx.of_lookup hlookup hbatch
    cases hpulls with
    | failed empty open_ next => exact open_ hid
    | more empty open_ next rest => exact open_ hid

/-- What comes of a change that inserted a document: an error because a reply was not to be had, a document that
is not found although it was inserted, or the report of the insertion. -/
inductive Concluded (q : Query) (change : Change) (e : Engine) (log : List Exchange) (doc : Document) :
    Except Error (ChangeInfo × Option Value) → Prop
  | unanswered {error : Error} (ne_notFound : error ≠ .notFound)
      (unanswered : ¬ ∀ x ∈ log, x.Answered q.collection) : Concluded q change e log doc (.error error)
  | missed (old : change.returnNew = false) (unselected : ¬ e.selects q.filter.written doc) :
      Concluded q change e log doc (.error .notFound)
  | reported (given : Document) (new : change.returnNew = true) :
      Concluded q change e log doc (.ok (q.reported e change (.inserted doc), some (Value.ofDocument given)))
  | found (old : change.returnNew = false) (selected : e.selects q.filter.written doc) :
      Concluded q change e log doc (.ok (q.reported e change (.inserted doc), none))

/-- The document that was inserted is looked up by the filter, and found if the filter selects it. -/
theorem concluded_of_looked_again {doc : Document} {before : List Exchange}
    {r : Except Error (ChangeInfo × Option Value)} {k : Command} (hk : q.searchCommand = .ok k)
    (hnew : change.returnNew = false) (missing : ∀ d ∈ store, ¬ e.selects q.filter.written d)
    (hplays : (q.conclude change true none).run.Plays log r)
    (hserved : e.Served q.collection (doc ::ₘ store) log outcomes store') :
    q.Concluded change e (before ++ log) doc r := by
  have hconclude : q.conclude change true none = q.firstOfFilter >>= fun created =>
      match created with
      | some created => pure ({ upsertedId := identifierOf created }, none)
      | none => Call.fail .notFound := by
    unfold conclude
    rw [hnew]
    rfl
  rw [hconclude] at hplays
  obtain ⟨error, hsearched, rfl⟩ | ⟨created, searched, last, rfl, hsearched, hlast⟩ := Call.plays_bind.mp hplays
  · refine .unanswered (failsOnly_of_firstOfFilter hsearched error rfl).ne_notFound fun hanswered => ?_
    exact not_plays_error_of_answered hk hserved (fun y hy => hanswered y (by simp [hy])) hsearched
  obtain ⟨_, _, _, rfl, hserved_searched, -⟩ := Engine.served_append.mp hserved
  obtain ⟨-, -, hsought⟩ := served_firstOfFilter hsearched hserved_searched
  cases created with
  | none =>
    obtain ⟨-, rfl⟩ := Program.plays_done.mp hlast
    obtain ⟨-, hnone⟩ | ⟨_, _, _, h⟩ := hsought
    · exact .missed hnew (hnone doc (Multiset.mem_cons_self doc store))
    · cases h
  | some created =>
    obtain ⟨-, rfl⟩ := Program.plays_done.mp hlast
    obtain ⟨-, -, rfl⟩ := served_created missing hsearched hserved_searched
    obtain ⟨h, -⟩ | ⟨d, hmem, hselects, -⟩ := hsought
    · cases h
    have hreported : q.reported e change (.inserted created) = { upsertedId := identifierOf created } := by
      rw [reported, hnew]
      rfl
    rw [← hreported]
    refine .found hnew ?_
    rcases Multiset.mem_cons.mp hmem with rfl | hold
    · exact hselects
    · exact absurd hselects (missing d hold)

theorem concluded_of_inserted {doc : Document} {r : Except Error (ChangeInfo × Option Value)}
    (hremove : change.remove = false) (hupsert : change.upsert = true)
    (hplays : (q.change change).run.Plays log r)
    (hserved : e.Served q.collection store log [.inserted doc] store') : q.Concluded change e log doc r := by
  obtain ⟨-, hunmodified⟩ | ⟨update, seen, looked, x, again, rfl, hlooked, hasks, hagain⟩ :=
    plays_change_of_upsert hremove hupsert hplays
  · cases (hserved.of_unmodified hunmodified).1
  obtain ⟨first, middle, rest, houtcomes, hserved_looked, hserved_rest⟩ := Engine.served_append.mp hserved
  obtain ⟨rfl, rfl, hseen⟩ := served_firstOfFilter hlooked hserved_looked
  rw [List.nil_append] at houtcomes
  cases hmodified : x.reply.modified with
  | error error =>
    rw [hmodified] at hagain
    obtain ⟨rfl, rfl⟩ := Program.plays_done.mp hagain
    refine .unanswered (x.reply.failsOnly_modified error hmodified).ne_notFound fun hanswered => ?_
    obtain ⟨found, hfound⟩ := (hanswered x (by simp)).change (by simp [hasks])
    cases hmodified.symm.trans hfound
  | ok found =>
    rw [hmodified, Call.settled_ok_bind] at hagain
    obtain _ | ⟨hx, hserved_again⟩ := hserved_rest
    obtain ⟨outcome, rfl, hchanges, rfl⟩ := hx.of_modification hasks hmodified
    obtain ⟨rfl, rfl⟩ := List.cons.inj houtcomes
    cases hchanges with
    | inserted update_eq upsert missing done =>
      obtain rfl : seen = none := by
        obtain ⟨rfl, -⟩ | ⟨d, hmem, hselects, -⟩ := hseen
        · rfl
        · exact absurd hselects (missing d hmem)
      cases hnew : change.returnNew with
      | true =>
        simp only [Engine.given, hnew, if_true] at hagain
        obtain ⟨rfl, rfl⟩ := Program.plays_done.mp hagain
        have hreported : q.reported e change (.inserted doc) =
            { upsertedId := identifierOf (e.shown (q.projection.map Document.written) doc) } := by
          rw [reported, hnew]
          rfl
        rw [← hreported]
        exact .reported _ hnew
      | false =>
        simp only [Engine.given, hnew, Bool.false_eq_true, if_false] at hagain
        obtain ⟨_, -, -, h⟩ | ⟨k, _, _, hk, -⟩ := plays_firstOfFilter hlooked
        · cases h
        rw [List.append_cons]
        exact concluded_of_looked_again hk hnew missing hagain hserved_again

end Inserting

/-- A find-and-modify in either form and how it ends. The places that documents are read into are candid. -/
inductive Reports (q : Query) (change : Change) : List Exchange → Except Error ChangeInfo → Prop
  | applied {α : Type} [Destination α] [CandidDestination α] {log : List Exchange}
      {outcome : Except Error ChangeInfo} {previous held : α}
      (plays : (q.apply change previous).Plays log (outcome, held)) : Reports q change log outcome
  | informed {log : List Exchange} {outcome : Except Error ChangeInfo}
      (plays : (q.applyInfo change).run.Plays log outcome) : Reports q change log outcome

/-- A report is what the change told, unless a document that it gave cannot be read into its place. -/
theorem Reports.cases_change {outcome : Except Error ChangeInfo} (h : q.Reports change log outcome) :
    (∃ error, (q.change change).run.Plays log (.error error) ∧ outcome = .error error) ∨
      ∃ info given, (q.change change).run.Plays log (.ok (info, given)) ∧
        (outcome = .ok info ∨
          ∃ v, given = some v ∧ (v.isNull = false → ∃ error, error ≠ .notFound ∧ outcome = .error error)) := by
  cases h with
  | @applied α _ _ log outcome previous held plays =>
    obtain ⟨r, first, rest, rfl, hchange, hrest⟩ := Program.plays_bind.mp plays
    rcases r with error | ⟨info, _ | v⟩
    · obtain ⟨rfl, hresult⟩ := Program.plays_done.mp hrest
      cases hresult
      rw [List.append_nil]
      exact .inl ⟨error, hchange, rfl⟩
    · obtain ⟨rfl, hresult⟩ := Program.plays_done.mp hrest
      cases hresult
      rw [List.append_nil]
      exact .inr ⟨info, none, hchange, .inl rfl⟩
    · dsimp only [decodeInto] at hrest
      cases hdecoded : decode (α := α) v with
      | ok a =>
        rw [hdecoded] at hrest
        obtain ⟨rfl, hresult⟩ := Program.plays_done.mp hrest
        cases hresult
        rw [List.append_nil]
        exact .inr ⟨info, some v, hchange, .inl rfl⟩
      | error error =>
        rw [hdecoded] at hrest
        obtain ⟨rfl, hresult⟩ := Program.plays_done.mp hrest
        cases hresult
        rw [List.append_nil]
        refine .inr ⟨info, some v, hchange, .inr ⟨v, rfl, fun hv => ⟨error, ?_, rfl⟩⟩⟩
        rintro rfl
        exact decode_ne_notFound hv hdecoded
  | informed plays =>
    obtain ⟨error, hchange, rfl⟩ | ⟨⟨info, given⟩, first, rest, rfl, hchange, hdone⟩ := Call.plays_bind.mp plays
    · exact .inl ⟨error, hchange, rfl⟩
    · obtain ⟨rfl, rfl⟩ := Program.plays_done.mp hdone
      rw [List.append_nil]
      exact .inr ⟨info, given, hchange, .inl rfl⟩

/-- A change that inserted a document is reported as missing only if the old document is asked for and the new one
is not selected by the filter; what is told of it otherwise is the identifier of the new document. If every command
is answered, it is reported as missing exactly then. -/
theorem found_iff_of_inserted {e : Engine} {store store' : Multiset Document} {doc : Document}
    {outcome : Except Error ChangeInfo} (hremove : change.remove = false) (hupsert : change.upsert = true)
    (hreports : q.Reports change log outcome)
    (hserved : e.Served q.collection store log [.inserted doc] store') :
    (outcome = .error .notFound → change.returnNew = false ∧ ¬ e.selects q.filter.written doc) ∧
      (∀ info, outcome = .ok info → change.returnNew = false →
        ∃ id, doc.get? "_id" = some id ∧ info = { upsertedId := some id.inbound }) ∧
      ((∀ x ∈ log, x.Answered q.collection) → change.returnNew = false →
        ((∃ info, outcome = .ok info) ↔ e.selects q.filter.written doc) ∧
          (outcome = .error .notFound ↔ ¬ e.selects q.filter.written doc)) := by
  obtain ⟨id, hid⟩ := hserved.identified (List.mem_singleton_self _)
  obtain ⟨error, hchange, rfl⟩ | ⟨info, given, hchange, hreported⟩ := hreports.cases_change
  · cases concluded_of_inserted hremove hupsert hchange hserved with
    | unanswered ne_notFound unanswered =>
      refine ⟨fun h => absurd (Except.error.inj h) ne_notFound, nofun, fun hanswered => absurd hanswered unanswered⟩
    | missed old unselected =>
      refine ⟨fun _ => ⟨old, unselected⟩, nofun, fun _ _ => ⟨?_, ?_⟩⟩
      · exact iff_of_false nofun unselected
      · exact iff_of_true rfl unselected
  · cases concluded_of_inserted hremove hupsert hchange hserved with
    | reported document new =>
      have hold : change.returnNew ≠ false := by simp [new]
      refine ⟨?_, fun _ _ old => absurd old hold, fun _ old => absurd old hold⟩
      rintro rfl
      obtain h | ⟨v, hv, h⟩ := hreported
      · cases h
      · obtain rfl := Option.some.inj hv
        obtain ⟨error, ne_notFound, herror⟩ := h rfl
        exact absurd (Except.error.inj herror).symm ne_notFound
    | found old selected =>
      obtain rfl | ⟨v, hv, -⟩ := hreported
      · refine ⟨nofun, ?_, fun _ _ => ⟨iff_of_true ⟨_, rfl⟩ selected, iff_of_false nofun (not_not.mpr selected)⟩⟩
        rintro info hinfo -
        refine ⟨id, hid, (Except.ok.inj hinfo).symm.trans ?_⟩
        rw [reported, old, if_neg Bool.false_ne_true, identifierOf, hid, Option.map_some]
      · cases hv

/-- The filter by the identifier alone selects the document that is inserted, and it is found. -/
theorem found_of_created :
    ∃ log outcome store', nameless.Reports (setting false) log outcome ∧
      Engine.plain.Served nameless.collection 0 log [.inserted created] store' ∧ ∃ info, outcome = .ok info := by
  have hselects : Engine.plain.selects nameless.filter.written created := List.forall_mem_singleton.mpr rfl
  obtain ⟨log, hplays, hserved, hanswered⟩ : ∃ log,
      (nameless.applyInfo (setting false)).run.Plays log (.ok { upsertedId := some (.int32 7) }) ∧
        Engine.plain.Served nameless.collection 0 log [.inserted created] (created ::ₘ 0) ∧
          ∀ x ∈ log, x.Answered nameless.collection := by
    refine ⟨_, .send (foundReply []) (.send (modifiedReply .null) (.send (foundReply [.ofDocument created]) (.done _))),
      .cons (serves_missing rfl) (.cons (.change rfl (changes_created false) ?_) (.cons (.lookup rfl ?_) (.nil _))), ?_⟩
    · intro found hfound
      exact (Except.ok.inj hfound).symm
    · intro batch hbatch
      obtain rfl := Except.ok.inj hbatch
      exact ⟨rfl, rfl, created, by simp, hselects, rfl⟩
    · simp only [List.forall_mem_cons]
      exact ⟨.of_lookup rfl rfl, .of_modification rfl rfl, .of_lookup rfl rfl, nofun⟩
  have hreports := Reports.informed hplays
  obtain ⟨-, -, htold⟩ := found_iff_of_inserted rfl rfl hreports hserved
  exact ⟨log, _, _, hreports, hserved, (htold hanswered rfl).1.mpr hselects⟩

/-- A filter by an identifier and by a field that the update sets. -/
def outdated : Query :=
  Collection.search ⟨⟨"app", .primary, none, 1⟩, "people"⟩ ⟨[("_id", .int32 7), ("a", .int32 0)]⟩ none

theorem outdated_unselected : ¬ Engine.plain.selects outdated.filter.written created := fun h => by
  cases h ("a", .int32 0) (List.mem_cons_of_mem _ (List.mem_singleton_self _))

/-- The document is inserted, and reported as missing because the update sets the field that the filter names. -/
theorem missed_although_inserted :
    ∃ log store', (outdated.applyInfo (setting false)).run.Plays log (.error .notFound) ∧
      Engine.plain.Served outdated.collection 0 log [.inserted created] store' := by
  have hinserted : Engine.plain.Changes
      ⟨outdated.filter.written, some ⟨[("$set", .document [("a", .int32 1)])]⟩, true, false, none⟩ 0
        (.inserted created) (created ::ₘ 0) := .inserted rfl rfl (by simp) ⟨_, rfl⟩
  refine ⟨_, _, .send (foundReply []) (.send (modifiedReply .null) (.send (foundReply []) (.done _))),
    .cons (serves_missing rfl) (.cons (.change rfl hinserted ?_) (.cons (.lookup rfl ?_) (.nil _)))⟩
  · intro found hfound
    exact (Except.ok.inj hfound).symm
  · intro batch hbatch
    obtain rfl := Except.ok.inj hbatch
    refine ⟨rfl, fun doc hdoc => ?_⟩
    obtain rfl : doc = created := by simpa using hdoc
    exact outdated_unselected

end Query
end DocClient
