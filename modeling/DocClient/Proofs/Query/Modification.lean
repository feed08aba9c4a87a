import DocClient.Proofs.Query.Search
import DocClient.Query.Change
import Mathlib.Data.Multiset.ZeroCons

/-! Finding one document and changing it, against a server that does what it is asked and says what it did.
Main statement: `Query.tells_one_iff`, by which a change that succeeds is reported as exactly one of a removal,
an update and an insertion, unless the identifier of an inserted document is not shown. -/
namespace DocClient

/-! ### Reading commands and replies -/

/-- A search for one document. -/
structure Lookup where
  filter : Document
  projection : Option Document
  deriving DecidableEq

/-- A change to one document. Without an update it is a removal. -/
structure Modification where
  filter : Document
  update : Option Document
  upsert : Bool
  returnNew : Bool
  projection : Option Document
  deriving DecidableEq

namespace Command

def document? (k : Command) (name : String) : Option Document := (k.body.get? name).bind Bson.asDocument?

def flag (k : Command) (name : String) : Bool := k.body.get? name = some (.boolean true)

/-- The search for one document that a command asks for. -/
def lookup? (k : Command) (c : Collection) : Option Lookup :=
  if k.IsFor "find" c ∧ k.body.get? "limit" = some (.int64 1) ∧ k.flag "singleBatch" ∧
      k.body.get? "skip" = none then
    (k.document? "filter").map fun filter => ⟨filter, k.document? "projection"⟩
  else none

/-- The change that a command asks for. -/
def modification? (k : Command) (c : Collection) : Option Modification :=
  if k.IsFor "findAndModify" c then
    match k.document? "query", k.flag "remove", k.document? "update" with
    | some filter, true, none => some ⟨filter, none, k.flag "upsert", k.flag "new", k.document? "fields"⟩
    | some filter, false, some update =>
      some ⟨filter, some update, k.flag "upsert", k.flag "new", k.document? "fields"⟩
    | _, _, _ => none
  else none

end Command

/-- What the reply to a change gives, unless something is wrong. -/
def Reply.modified (reply : Reply) : Except Error (Option Document) := do
  let doc ← reply.success
  let (value, trouble) ← readReply readModified doc
  trouble.single
  readReply (decodeOption Bson.toDocument) value

/-! ### Servers -/

/-- How a server takes filters, projections and updates. Every document that it creates has an identifier. -/
structure Engine where
  selects : Document → Document → Prop
  shown : Option Document → Document → Document
  updates : (update before after : Document) → Prop
  creates : (filter update created : Document) → Prop
  shown_none : ∀ doc, shown none doc = doc
  identified : ∀ {filter update created}, creates filter update created → ∃ id, created.get? "_id" = some id

/-- What came of a change. -/
inductive Outcome
  | removed (doc : Document)
  | updated (before after : Document)
  | inserted (doc : Document)
  | untouched

namespace Engine

/-- What a search for one document may give. -/
def Finds (e : Engine) (store : Multiset Document) (l : Lookup) : List Document → Prop
  | [] => ∀ doc ∈ store, ¬ e.selects l.filter doc
  | found :: rest => rest = [] ∧ ∃ doc ∈ store, e.selects l.filter doc ∧ found = e.shown l.projection doc

/-- What a change may do to a store. -/
inductive Changes (e : Engine) (m : Modification) : Multiset Document → Outcome → Multiset Document → Prop
  | removed {doc : Document} {rest : Multiset Document} (removal : m.update = none)
      (found : e.selects m.filter doc) : Changes e m (doc ::ₘ rest) (.removed doc) rest
  | updated {update before after : Document} {rest : Multiset Document} (update_eq : m.update = some update)
      (found : e.selects m.filter before) (done : e.updates update before after) :
      Changes e m (before ::ₘ rest) (.updated before after) (after ::ₘ rest)
  | inserted {update doc : Document} {store : Multiset Document} (update_eq : m.update = some update)
      (upsert : m.upsert = true) (missing : ∀ d ∈ store, ¬ e.selects m.filter d)
      (done : e.creates m.filter update doc) : Changes e m store (.inserted doc) (doc ::ₘ store)
  | untouched {store : Multiset Document} (missing : ∀ d ∈ store, ¬ e.selects m.filter d)
      (upsert : m.update = none ∨ m.upsert = false) : Changes e m store .untouched store

/-- The document that a change gives: the old or the new one, as the projection shows it. -/
def given (e : Engine) (m : Modification) : Outcome → Option Document
  | .removed doc => some (e.shown m.projection doc)
  | .updated before after => some (e.shown m.projection (if m.returnNew then after else before))
  | .inserted doc => if m.returnNew then some (e.shown m.projection doc) else none
  | .untouched => none

/-- An exchange with a server that does what it is asked, once at most, and says what it did. Documents are as a
client reads them. A change whose reply does not arrive may have been made or not. -/
inductive Serves (e : Engine) (c : Collection) :
    Multiset Document → Exchange → List Outcome → Multiset Document → Prop
  | lookup {store : Multiset Document} {x : Exchange} {l : Lookup} (asks : x.command.lookup? c = some l)
      (honest : ∀ batch, x.reply.batch "firstBatch" = .ok batch → batch.id = 0 ∧ e.Finds store l batch.documents) :
      Serves e c store x [] store
  | change {store store' : Multiset Document} {x : Exchange} {m : Modification} {outcome : Outcome}
      (asks : x.command.modification? c = some m) (did : e.Changes m store outcome store')
      (honest : ∀ found, x.reply.modified = .ok found → found = e.given m outcome) :
      Serves e c store x [outcome] store'
  | failure {store : Multiset Document} {x : Exchange} {m : Modification}
      (asks : x.command.modification? c = some m) (failed : ∀ found, x.reply.modified ≠ .ok found) :
      Serves e c store x [] store
  | other {store : Multiset Document} {x : Exchange} (no_lookup : x.command.lookup? c = none)
      (no_change : x.command.modification? c = none) : Serves e c store x [] store

/-- Exchanges one after the other, with no other client in between. -/
inductive Served (e : Engine) (c : Collection) :
    Multiset Document → List Exchange → List Outcome → Multiset Document → Prop
  | nil (store : Multiset Document) : Served e c store [] [] store
  | cons {store store' store'' : Multiset Document} {x : Exchange} {log : List Exchange}
      {outcomes more : List Outcome} (first : Serves e c store x outcomes store')
      (rest : Served e c store' log more store'') : Served e c store (x :: log) (outcomes ++ more) store''

end Engine

section Serving

variable {e : Engine} {c : Collection} {store store' : Multiset Document} {log more : List Exchange}
  {outcomes : List Outcome} {x : Exchange}

theorem Engine.served_append : e.Served c store (log ++ more) outcomes store' ↔
    ∃ first middle rest, outcomes = first ++ rest ∧ e.Served c store log first middle ∧
      e.Served c middle more rest store' := by
  induction log generalizing store outcomes with
  | nil =>
    constructor
    · intro h
      exact ⟨[], store, outcomes, rfl, .nil store, h⟩
    · rintro ⟨first, middle, rest, rfl, ⟨⟩, h⟩
      exact h
  | cons x log ih =>
    constructor
    · rintro (_ | ⟨hx, h⟩)
      obtain ⟨first, middle, rest, rfl, hlog, hmore⟩ := ih.mp h
      exact ⟨_, middle, rest, (List.append_assoc _ _ _).symm, .cons hx hlog, hmore⟩
    · rintro ⟨first, middle, rest, rfl, (_ | ⟨hx, hlog⟩), hmore⟩
      rw [List.append_assoc]
      exact .cons hx (ih.mpr ⟨_, middle, rest, rfl, hlog, hmore⟩)

/-- A command asks for a search or for a change, but not for both. -/
theorem Command.modification?_of_lookup? {k : Command} {l : Lookup} (h : k.lookup? c = some l) :
    k.modification? c = none := by
  unfold lookup? at h
  unfold modification?
  split at h
  next hfind => exact if_neg fun hmodify => absurd (hmodify.unique hfind.1).1 (by decide)
  next => cases h

theorem Engine.Serves.of_lookup {l : Lookup} (h : e.Serves c store x outcomes store')
    (hasks : x.command.lookup? c = some l) {batch : Batch} (hbatch : x.reply.batch "firstBatch" = .ok batch) :
    outcomes = [] ∧ store' = store ∧ batch.id = 0 ∧ e.Finds store l batch.documents := by
  have hnone := Command.modification?_of_lookup? hasks
  cases h with
  | lookup asks honest =>
    obtain rfl := Option.some.inj (hasks.symm.trans asks)
    exact ⟨rfl, rfl, honest batch hbatch⟩
  | change asks => cases hnone.symm.trans asks
  | failure asks => cases hnone.symm.trans asks
  | other no_lookup => cases hasks.symm.trans no_lookup

theorem Engine.Serves.of_modification {m : Modification} (h : e.Serves c store x outcomes store')
    (hasks : x.command.modification? c = some m) {found : Option Document} (hfound : x.reply.modified = .ok found) :
    ∃ outcome, outcomes = [outcome] ∧ e.Changes m store outcome store' ∧ found = e.given m outcome := by
  cases h with
  | lookup asks => cases hasks.symm.trans (Command.modification?_of_lookup? asks)
  | change asks did honest =>
    obtain rfl := Option.some.inj (hasks.symm.trans asks)
    exact ⟨_, rfl, did, honest found hfound⟩
  | failure asks failed => exact absurd hfound (failed found)
  | other no_lookup no_change => cases hasks.symm.trans no_change

/-- Something comes of an exchange only if it makes one change that it asks for. -/
theorem Engine.Serves.cases_change (h : e.Serves c store x outcomes store') :
    (outcomes = [] ∧ store' = store) ∨
      ∃ m outcome, outcomes = [outcome] ∧ x.command.modification? c = some m ∧ e.Changes m store outcome store' ∧
        ∀ found, x.reply.modified = .ok found → found = e.given m outcome := by
  cases h with
  | lookup asks honest => exact .inl ⟨rfl, rfl⟩
  | change asks did honest => exact .inr ⟨_, _, rfl, asks, did, honest⟩
  | failure asks failed => exact .inl ⟨rfl, rfl⟩
  | other no_lookup no_change => exact .inl ⟨rfl, rfl⟩

end Serving

/-! ### Calls -/

section Calling

variable {c : Collection} {e : Engine} {store store' : Multiset Document} {log : List Exchange}
  {outcomes : List Outcome}

theorem Collection.findAndModify_eq_ask (c : Collection) (filter : Document) (fields : Fields Bson) :
    c.findAndModify filter fields =
      Call.ask (c.writeCommand "findAndModify" (("query", .ofDocument filter) :: fields)) .short Reply.modified := by
  have hread : (fun (r : Bson × WriteTrouble) => Call.settled r.2.single >>= fun _ =>
      Call.settled (readReply (decodeOption Bson.toDocument) r.1)) =
      fun r => Call.settled (r.2.single >>= fun _ => readReply (decodeOption Bson.toDocument) r.1) := by
    funext r
    cases r.2.single <;> rfl
  change (c.write .short (c.body "findAndModify" (("query", .ofDocument filter) :: fields)) readModified >>= fun r =>
    Call.settled r.2.single >>= fun _ => Call.settled (readReply (decodeOption Bson.toDocument) r.1)) = _
  rw [hread, write_eq_ask, Call.ask_bind_settled]
  refine congrArg _ (funext fun reply => ?_)
  unfold Reply.modified
  cases reply.success <;> rfl

/-- A change that is made is made once, and gives what the server gives. -/
theorem Collection.served_findAndModify {filter : Document} {fields : Fields Bson}
    {found : Option Document} {m : Modification}
    (hreads : ∀ k, c.writeCommand "findAndModify" (("query", .ofDocument filter) :: fields) = .ok k →
      k.modification? c = some m)
    (hplays : (c.findAndModify filter fields).run.Plays log (.ok found))
    (hserved : e.Served c store log outcomes store') :
    ∃ outcome, outcomes = [outcome] ∧ e.Changes m store outcome store' ∧ found = e.given m outcome := by
  rw [findAndModify_eq_ask, Call.plays_ask] at hplays
  obtain ⟨_, -, -, h⟩ | ⟨k, reply, hk, rfl, hfound⟩ := hplays
  · cases h
  obtain _ | ⟨hx, ⟨⟩⟩ := hserved
  rw [List.append_nil]
  exact hx.of_modification (hreads k hk) hfound.symm

theorem Query.lookup?_of_firstOfFilter {q : Query} {readPreference : ReadPreference} {k : Command}
    (hk : q.collection.database.sent readPreference
      (firstBody (q.collection.body "find" [("filter", .ofDocument q.filter)])) = .ok k) :
    k.lookup? q.collection = some ⟨q.filter.written, none⟩ := by
  rw [Collection.body_find, Collection.firstBody_searchFields] at hk
  obtain rfl := Database.eq_of_sent hk
  exact if_pos ⟨⟨rfl, rfl⟩, rfl, rfl, rfl⟩

/-- A search that is served tells what there is and changes nothing. -/
theorem Query.served_firstOfFilter {q : Query} {found : Option Document}
    (hplays : q.firstOfFilter.run.Plays log (.ok found)) (hserved : e.Served q.collection store log outcomes store') :
    outcomes = [] ∧ store' = store ∧
      (found = none ∧ (∀ doc ∈ store, ¬ e.selects q.filter.written doc) ∨
        ∃ doc ∈ store, e.selects q.filter.written doc ∧ found = some doc) := by
  unfold firstOfFilter searchOne at hplays
  rw [Database.openCursor_eq_ask] at hplays
  obtain ⟨cursor, first, rest, rfl, hopen, hpull⟩ := Call.plays_bind_ok.mp hplays
  obtain ⟨_, -, -, h⟩ | ⟨k, reply, hk, rfl, hcursor⟩ := Call.plays_ask.mp hopen
  · cases h
  cases hbatch : reply.batch "firstBatch" with
  | error e => simp [hbatch, Except.map] at hcursor
  | ok batch =>
    simp only [hbatch, Except.map, Except.ok.injEq] at hcursor
    obtain _ | ⟨hx, hrest⟩ := hserved
    obtain ⟨rfl, rfl, hid, hfinds⟩ := hx.of_lookup (lookup?_of_firstOfFilter hk) hbatch
    cases hdocs : batch.documents with
    | nil =>
      have hpulled : Source.pull cursor = .done (.ok none, cursor) := by
        rw [hcursor]
        exact Cursor.pullWithin_of_ended hdocs hid
      rw [hpulled] at hpull
      obtain ⟨rfl, hfound⟩ := Program.plays_done.mp hpull
      obtain ⟨⟩ := hrest
      rw [hdocs] at hfinds
      exact ⟨rfl, rfl, .inl ⟨Except.ok.inj hfound, hfinds⟩⟩
    | cons doc docs =>
      have hpulled : Source.pull cursor = .done (.ok (some doc), { cursor with batch := docs }) := by
        rw [hcursor]
        exact Cursor.pullWithin_of_cons hdocs
      rw [hpulled] at hpull
      obtain ⟨rfl, hfound⟩ := Program.plays_done.mp hpull
      obtain ⟨⟩ := hrest
      rw [hdocs] at hfinds
      obtain ⟨-, stored, hmem, hselects, rfl⟩ := hfinds
      refine ⟨rfl, rfl, .inr ⟨stored, hmem, hselects, ?_⟩⟩
      rw [Except.ok.inj hfound, e.shown_none]

namespace Collection

def updateFields (filter update : Document) (returnNew upsert : Bool) (order projection : Option Document) :
    Fields Bson :=
  ("query", .ofDocument filter) ::
    ([("update", .ofDocument update), ("new", .boolean returnNew), ("upsert", .boolean upsert)] ++
      (order.map fun order => ("sort", Bson.ofDocument order)).toList ++
      (projection.map fun fields => ("fields", Bson.ofDocument fields)).toList)

def removeFields (filter : Document) (order : Option Document) : Fields Bson :=
  ("query", .ofDocument filter) :: ("remove", .boolean true) ::
    (order.map fun order => ("sort", Bson.ofDocument order)).toList

variable {filter update : Document} {returnNew upsert : Bool} {order projection : Option Document} {k : Command}

theorem nodup_updateFields : ("writeConcern" :: "findAndModify" ::
    Fields.names (updateFields filter update returnNew upsert order projection)).Nodup := by
  cases order <;> cases projection <;> simp [updateFields]

theorem nodup_removeFields :
    ("writeConcern" :: "findAndModify" :: Fields.names (removeFields filter order)).Nodup := by
  cases order <;> simp [removeFields]

/-- What a change asks for is read off its fields as they are written. -/
theorem modification?_of_writeCommand {fields : Fields Bson}
    (hnames : ("writeConcern" :: "findAndModify" :: Fields.names fields).Nodup)
    (hk : c.writeCommand "findAndModify" fields = .ok k) :
    k.modification? c =
      Command.modification? ⟨c.database.name, ⟨("findAndModify", .string c.name) :: Bson.writtenFields fields⟩,
        .primary⟩ c := by
  have hget : ∀ key, key ≠ "writeConcern" → "findAndModify" ≠ key → k.body.get? key =
      Document.get? ⟨("findAndModify", .string c.name) :: Bson.writtenFields fields⟩ key := by
    intro key hkey hname
    unfold Document.get?
    rw [Fields.get?_cons, if_neg hname, Bson.get?_writtenFields]
    exact get?_writeCommand hnames hk hkey hname
  unfold Command.modification? Command.document? Command.flag
  rw [if_pos (isFor_of_writeCommand hnames hk), if_pos ⟨rfl, rfl⟩, hget "query" (by decide) (by decide),
    hget "remove" (by decide) (by decide), hget "update" (by decide) (by decide),
    hget "upsert" (by decide) (by decide), hget "new" (by decide) (by decide),
    hget "fields" (by decide) (by decide)]

/-- An update is read as what it asks for. -/
theorem modification?_of_update
    (hk : c.writeCommand "findAndModify" (updateFields filter update returnNew upsert order projection) = .ok k) :
    k.modification? c =
      some ⟨filter.written, some update.written, upsert, returnNew, projection.map Document.written⟩ := by
  refine (modification?_of_writeCommand nodup_updateFields hk).trans ((if_pos ⟨rfl, rfl⟩).trans ?_)
  cases order <;> cases projection <;> cases upsert <;> cases returnNew <;> rfl

/-- A removal is read as one. -/
theorem modification?_of_removal
    (hk : c.writeCommand "findAndModify" (removeFields filter order) = .ok k) :
    k.modification? c = some ⟨filter.written, none, false, false, none⟩ := by
  refine (modification?_of_writeCommand nodup_removeFields hk).trans ((if_pos ⟨rfl, rfl⟩).trans ?_)
  cases order <;> rfl

end Collection

end Calling

/-! ### Reports -/

/-- The sorts of changes that are reported. -/
inductive ChangeKind
  | removal
  | update
  | upsert
  deriving DecidableEq

def Outcome.kind? : Outcome → Option ChangeKind
  | .removed _ => some .removal
  | .updated .. => some .update
  | .inserted _ => some .upsert
  | .untouched => none

/-- A report tells of a change of a sort, and of no other. -/
def ChangeInfo.Tells (info : ChangeInfo) (outcome : Outcome) : ChangeKind → Prop
  | .removal => info = { removed := 1 }
  | .update => info = { updated := 1, matched := 1 }
  | .upsert => ∃ doc id, outcome = .inserted doc ∧ doc.get? "_id" = some id ∧
      info = { upsertedId := some id.inbound }

/-- A change inserts exactly if it is allowed to and nothing is selected. -/
theorem Engine.Changes.inserts_iff {e : Engine} {m : Modification} {store store' : Multiset Document}
    {outcome : Outcome} (h : e.Changes m store outcome store') (hupdate : m.update ≠ none) :
    outcome.kind? = some .upsert ↔ m.upsert = true ∧ ∀ doc ∈ store, ¬ e.selects m.filter doc := by
  cases h with
  | removed removal => exact absurd removal hupdate
  | updated _ found =>
    exact iff_of_false nofun fun h => h.2 _ (Multiset.mem_cons_self _ _) found
  | inserted _ upsert missing => exact iff_of_true rfl ⟨upsert, missing⟩
  | untouched _ upsert =>
    rcases upsert with hnone | hupsert
    · exact absurd hnone hupdate
    · exact iff_of_false nofun fun h => by simp [hupsert] at h

namespace Query

/-- What is reported of an outcome. -/
def reported (q : Query) (e : Engine) (change : Change) : Outcome → ChangeInfo
  | .removed _ => { removed := 1 }
  | .updated .. => { updated := 1, matched := 1 }
  | .inserted doc =>
    { upsertedId := identifierOf (if change.returnNew then e.shown (q.projection.map Document.written) doc else doc) }
  | .untouched => {}

/-- If an inserted document is asked for, its identifier is shown as it is. -/
def Shows (q : Query) (e : Engine) (change : Change) (outcome : Outcome) : Prop :=
  ∀ doc, outcome = .inserted doc → change.returnNew = true →
    identifierOf (e.shown (q.projection.map Document.written) doc) = identifierOf doc

variable {q : Query} {change : Change} {e : Engine} {store store' : Multiset Document} {log : List Exchange}
  {outcomes : List Outcome} {info : ChangeInfo}

/-- The search before an update tells whether it will insert. -/
theorem served_willInsert {inserting : Bool} (hplays : (q.willInsert change).run.Plays log (.ok inserting))
    (hserved : e.Served q.collection store log outcomes store') :
    outcomes = [] ∧ store' = store ∧
      (inserting = true ↔ change.upsert = true ∧ ∀ doc ∈ store, ¬ e.selects q.filter.written doc) := by
  unfold willInsert at hplays
  by_cases hupsert : change.upsert = true
  · rw [if_pos hupsert] at hplays
    obtain ⟨found, looked, rest, rfl, hlooked, hdone⟩ := Call.plays_bind_ok.mp hplays
    obtain ⟨rfl, hinserting⟩ := Program.plays_done.mp hdone
    obtain rfl := Except.ok.inj hinserting
    rw [List.append_nil] at hserved
    obtain ⟨rfl, rfl, ⟨rfl, hmissing⟩ | ⟨doc, hmem, hselects, rfl⟩⟩ := served_firstOfFilter hlooked hserved
    · exact ⟨rfl, rfl, iff_of_true rfl ⟨hupsert, hmissing⟩⟩
    · exact ⟨rfl, rfl, iff_of_false nofun fun h => h.2 doc hmem hselects⟩
  · rw [if_neg hupsert] at hplays
    obtain ⟨rfl, hinserting⟩ := Program.plays_done.mp hplays
    obtain rfl := Except.ok.inj hinserting
    obtain ⟨⟩ := hserved
    exact ⟨rfl, rfl, iff_of_false nofun fun h => hupsert h.1⟩

theorem served_updateFirst {update : Document} {found : Option Document}
    (hplays : (q.updateFirst update change).run.Plays log (.ok found))
    (hserved : e.Served q.collection store log outcomes store') :
    let m : Modification := ⟨q.filter.written, some update.written, change.upsert, change.returnNew,
      q.projection.map Document.written⟩
    ∃ outcome, outcomes = [outcome] ∧ e.Changes m store outcome store' ∧ found = e.given m outcome := by
  unfold updateFirst at hplays
  obtain ⟨_, -, hplays⟩ := Call.plays_settled_bind_ok.mp hplays
  obtain ⟨_, -, hplays⟩ := Call.plays_settled_bind_ok.mp hplays
  exact Collection.served_findAndModify (fun k => Collection.modification?_of_update) hplays hserved

/-- The search after an insertion finds what was inserted, because nothing was selected before. -/
theorem served_created {doc found : Document} (missing : ∀ d ∈ store, ¬ e.selects q.filter.written d)
    (hplays : q.firstOfFilter.run.Plays log (.ok (some found)))
    (hserved : e.Served q.collection (doc ::ₘ store) log outcomes store') :
    outcomes = [] ∧ store' = doc ::ₘ store ∧ found = doc := by
  obtain ⟨rfl, rfl, ⟨hnone, -⟩ | ⟨stored, hmem, hselects, hfound⟩⟩ := served_firstOfFilter hplays hserved
  · cases hnone
  · refine ⟨rfl, rfl, (Option.some.inj hfound).trans ?_⟩
    rcases Multiset.mem_cons.mp hmem with hstored | hold
    · exact hstored
    · exact absurd hselects (missing stored hold)

/-- A removal that succeeds removed a document. -/
theorem served_removeFirst {given : Option Value} (hplays : q.removeFirst.run.Plays log (.ok (info, given)))
    (hserved : e.Served q.collection store log outcomes store') :
    ∃ m doc, outcomes = [.removed doc] ∧ e.Changes m store (.removed doc) store' ∧ info = { removed := 1 } := by
  unfold removeFirst at hplays
  obtain ⟨_, -, hplays⟩ := Call.plays_settled_bind_ok.mp hplays
  obtain ⟨found, modified, rest, rfl, hmodified, hplays⟩ := Call.plays_bind_ok.mp hplays
  obtain ⟨first, middle, after, rfl, hfirst, hafter⟩ := Engine.served_append.mp hserved
  obtain ⟨outcome, rfl, hchanges, rfl⟩ := Collection.served_findAndModify
    (fun k => Collection.modification?_of_removal) hmodified hfirst
  cases hchanges with
  | removed removal found =>
    obtain ⟨rfl, hinfo⟩ := Program.plays_done.mp hplays
    obtain ⟨⟩ := hafter
    exact ⟨_, _, rfl, .removed removal found, congrArg Prod.fst (Except.ok.inj hinfo)⟩
  | updated update_eq => cases update_eq
  | inserted update_eq => cases update_eq
  | untouched => cases (Program.plays_done.mp hplays).2

/-- A change that succeeds was made once, and what came of it is reported. -/
theorem served_change {given : Option Value} (hplays : (q.change change).run.Plays log (.ok (info, given)))
    (hserved : e.Served q.collection store log outcomes store') :
    ∃ m outcome, outcomes = [outcome] ∧ e.Changes m store outcome store' ∧ outcome ≠ .untouched ∧
      info = q.reported e change outcome := by
  unfold Query.change at hplays
  obtain ⟨_, -, hplays⟩ := Call.plays_settled_bind_ok.mp hplays
  by_cases hremove : change.remove = true
  · rw [if_pos hremove] at hplays
    obtain ⟨m, doc, rfl, hchanges, rfl⟩ := served_removeFirst hplays hserved
    exact ⟨m, _, rfl, hchanges, nofun, rfl⟩
  · rw [if_neg hremove] at hplays
    obtain ⟨update, hupdate, hplays⟩ := Call.plays_settled_bind_ok.mp hplays
    obtain ⟨inserting, looked, rest, rfl, hlooked, hplays⟩ := Call.plays_bind_ok.mp hplays
    obtain ⟨found, modified, again, rfl, hmodified, hplays⟩ := Call.plays_bind_ok.mp hplays
    obtain ⟨_, middle, _, rfl, hserved_looked, hserved⟩ := Engine.served_append.mp hserved
    obtain ⟨_, middle', _, rfl, hserved_modified, hserved_again⟩ := Engine.served_append.mp hserved
    obtain ⟨rfl, rfl, hinserting⟩ := served_willInsert hlooked hserved_looked
    obtain ⟨outcome, rfl, hchanges, rfl⟩ := served_updateFirst hmodified hserved_modified
    -- What the search foretold is what the change came to, as nothing happened in between.
    have hforetold := hinserting.trans (hchanges.inserts_iff nofun).symm
    cases hchanges with
    | removed removal => cases removal
    | @updated _ before after kept update_eq found done =>
      obtain rfl : inserting = false := by simpa [Outcome.kind?] using hforetold
      obtain ⟨rfl, hinfo⟩ := Program.plays_done.mp hplays
      obtain ⟨⟩ := hserved_again
      exact ⟨_, _, rfl, .updated update_eq found done, nofun, congrArg Prod.fst (Except.ok.inj hinfo)⟩
    | untouched missing upsert =>
      obtain rfl : inserting = false := by simpa [Outcome.kind?] using hforetold
      cases (Program.plays_done.mp hplays).2
    | @inserted _ doc _ update_eq upsert missing done =>
      obtain rfl : inserting = true := by simpa [Outcome.kind?] using hforetold
      cases hnew : change.returnNew with
      | true =>
        simp only [Engine.given, hnew, if_true] at hplays
        obtain ⟨rfl, hinfo⟩ := Program.plays_done.mp hplays
        obtain ⟨⟩ := hserved_again
        refine ⟨_, _, rfl, .inserted update_eq upsert missing done, nofun, ?_⟩
        rw [reported, hnew]
        exact congrArg Prod.fst (Except.ok.inj hinfo)
      | false =>
        simp only [Engine.given, hnew] at hplays
        obtain ⟨created, looked_again, rest, rfl, hagain, hdone⟩ := Call.plays_bind_ok.mp hplays
        obtain ⟨_, _, _, rfl, hserved_first, hserved_rest⟩ := Engine.served_append.mp hserved_again
        cases created with
        | none => cases (Program.plays_done.mp hdone).2
        | some created =>
          obtain ⟨rfl, rfl, rfl⟩ := served_created missing hagain hserved_first
          obtain ⟨rfl, hinfo⟩ := Program.plays_done.mp hdone
          obtain ⟨⟩ := hserved_rest
          refine ⟨_, _, rfl, .inserted update_eq upsert missing done, nofun, ?_⟩
          rw [reported, hnew]
          exact congrArg Prod.fst (Except.ok.inj hinfo)

/-- What is reported of an outcome tells of its sort, if the identifier can be told. -/
theorem tells_reported_iff {outcome : Outcome}
    (hid : ∀ doc, outcome = .inserted doc → ∃ id, doc.get? "_id" = some id) (kind : ChangeKind) :
    (q.reported e change outcome).Tells outcome kind ↔ outcome.kind? = some kind ∧ q.Shows e change outcome := by
  unfold Shows
  cases outcome with
  | removed doc => cases kind <;> simp [reported, ChangeInfo.Tells, Outcome.kind?]
  | updated before after => cases kind <;> simp [reported, ChangeInfo.Tells, Outcome.kind?]
  | untouched => cases kind <;> simp [reported, ChangeInfo.Tells, Outcome.kind?]
  | inserted doc =>
    cases kind with
    | removal => simp [reported, ChangeInfo.Tells, Outcome.kind?]
    | update => simp [reported, ChangeInfo.Tells, Outcome.kind?]
    | upsert =>
      obtain ⟨id, hid⟩ := hid doc rfl
      have hidentifier : identifierOf doc = some id.inbound := by rw [identifierOf, hid, Option.map_some]
      have htells : (q.reported e change (.inserted doc)).Tells (.inserted doc) .upsert ↔
          identifierOf (if change.returnNew then e.shown (q.projection.map Document.written) doc else doc) =
            identifierOf doc := by
        rw [hidentifier]
        constructor
        · rintro ⟨_, id', ⟨⟩, hid', hinfo⟩
          rw [← Option.some.inj (hid.symm.trans hid')] at hinfo
          exact congrArg ChangeInfo.upsertedId hinfo
        · intro hshown
          exact ⟨doc, id, rfl, hid, congrArg (ChangeInfo.mk 0 0 0) hshown⟩
      rw [htells]
      cases change.returnNew <;> simp [Outcome.kind?]

/-- A change that succeeds is reported as exactly one of a removal, an update and an insertion, and as what it was,
unless the identifier of an inserted document is not shown as it is in the document that is asked for. -/
theorem tells_one_iff (hplays : (q.applyInfo change).run.Plays log (.ok info))
    (hserved : e.Served q.collection store log outcomes store') :
    ∃ outcome, outcomes = [outcome] ∧ (∀ kind, info.Tells outcome kind → outcome.kind? = some kind) ∧
      ((∃! kind, info.Tells outcome kind) ↔ q.Shows e change outcome) := by
  unfold applyInfo at hplays
  obtain ⟨⟨info', given⟩, first, rest, rfl, hchange, hdone⟩ := Call.plays_bind_ok.mp hplays
  obtain ⟨rfl, hinfo⟩ := Program.plays_done.mp hdone
  obtain rfl := Except.ok.inj hinfo
  rw [List.append_nil] at hserved
  obtain ⟨m, outcome, rfl, hchanges, hne, rfl⟩ := served_change hchange hserved
  have hid : ∀ doc, outcome = .inserted doc → ∃ id, doc.get? "_id" = some id := by
    rintro doc rfl
    cases hchanges with
    | inserted _ _ _ done => exact e.identified done
  have htells : ∀ kind, (q.reported e change outcome).Tells outcome kind ↔
      outcome.kind? = some kind ∧ q.Shows e change outcome := tells_reported_iff hid
  obtain ⟨kind, hkind⟩ : ∃ kind, outcome.kind? = some kind := by
    cases outcome with
    | removed doc => exact ⟨_, rfl⟩
    | updated before after => exact ⟨_, rfl⟩
    | inserted doc => exact ⟨_, rfl⟩
    | untouched => exact absurd rfl hne
  refine ⟨outcome, rfl, fun other h => ((htells other).mp h).1, ?_, ?_⟩
  · rintro ⟨other, h, -⟩
    exact ((htells other).mp h).2
  · intro hshows
    refine ⟨kind, (htells kind).mpr ⟨hkind, hshows⟩, fun other h => ?_⟩
    exact Option.some.inj (((htells other).mp h).1.symm.trans hkind)

end Query

/-! ### A plain server -/

/-- A filter selects what has its fields, a projection may leave the identifier out, and an update may do anything. -/
def Engine.plain : Engine where
  selects filter doc := ∀ p ∈ filter.fields, doc.get? p.1 = some p.2
  shown projection doc :=
    if projection.bind (·.get? "_id") = some (.int32 0) then ⟨doc.fields.filter (·.1 ≠ "_id")⟩ else doc
  updates _ _ _ := True
  creates _ _ created := ∃ id, created.get? "_id" = some id
  shown_none _ := rfl
  identified := id

namespace Query

/-- A query by an identifier that its projection leaves out. -/
def nameless : Query :=
  { Collection.search ⟨⟨"app", .primary, none, 1⟩, "people"⟩ ⟨[("_id", .int32 7)]⟩ none with
    projection := some ⟨[("_id", .int32 0)]⟩ }

def setting (returnNew : Bool) : Change := ⟨.ordered [("$set", .ordered [("a", .int32 1)])], true, false, returnNew⟩

def foundReply (docs : List Bson) : Reply :=
  .document ⟨[("ok", .int32 1), ("cursor", .document [("id", .int64 0), ("ns", .string "app.people"),
    ("firstBatch", .array docs)])]⟩

def modifiedReply (value : Bson) : Reply := .document ⟨[("ok", .int32 1), ("value", value)]⟩

/-- The document that a change inserts. -/
def created : Document := ⟨[("_id", .int32 7), ("a", .int32 1)]⟩

/-- On a server without documents, a change inserts one. -/
theorem changes_created (returnNew : Bool) : Engine.plain.Changes
    ⟨⟨[("_id", .int32 7)]⟩, some ⟨[("$set", .document [("a", .int32 1)])]⟩, true, returnNew,
      some ⟨[("_id", .int32 0)]⟩⟩ 0 (.inserted created) (created ::ₘ 0) :=
  .inserted rfl rfl (by simp) ⟨_, rfl⟩

theorem serves_missing {c : Collection} {k : Command} {l : Lookup} (hasks : k.lookup? c = some l) :
    Engine.plain.Serves c 0 ⟨k, .short, foundReply []⟩ [] 0 := by
  refine .lookup hasks fun batch hbatch => ?_
  obtain rfl := Except.ok.inj hbatch
  exact ⟨rfl, by simp [Engine.Finds]⟩

/-- The old document is asked for, of which there is none, and the new one is looked up with its identifier. -/
theorem tells_one_of_created :
    ∃ log info store', (nameless.applyInfo (setting false)).run.Plays log (.ok info) ∧
      Engine.plain.Served nameless.collection 0 log [.inserted created] store' ∧
      ∃! kind, info.Tells (.inserted created) kind := by
  obtain ⟨log, hplays, hserved⟩ : ∃ log,
      (nameless.applyInfo (setting false)).run.Plays log (.ok { upsertedId := some (.int32 7) }) ∧
        Engine.plain.Served nameless.collection 0 log [.inserted created] (created ::ₘ 0) := by
    refine ⟨_, .send (foundReply []) (.send (modifiedReply .null) (.send (foundReply [.ofDocument created]) (.done _))),
      .cons (serves_missing rfl) (.cons (.change rfl (changes_created false) ?_) (.cons (.lookup rfl ?_) (.nil _)))⟩
    · intro found hfound
      exact (Except.ok.inj hfound).symm
    · intro batch hbatch
      obtain rfl := Except.ok.inj hbatch
      exact ⟨rfl, rfl, created, by simp, List.forall_mem_singleton.mpr rfl, rfl⟩
  obtain ⟨outcome, houtcome, -, htells⟩ := tells_one_iff hplays hserved
  obtain rfl := List.singleton_inj.mp houtcome
  exact ⟨log, _, _, hplays, hserved, htells.mpr nofun⟩

/-- The new document is asked for without its identifier, and nothing is reported of its insertion. -/
theorem hidden_identifier_untold :
    ∃ log info store', (nameless.applyInfo (setting true)).run.Plays log (.ok info) ∧
      Engine.plain.Served nameless.collection 0 log [.inserted created] store' ∧
      ¬ ∃! kind, info.Tells (.inserted created) kind := by
  refine ⟨_, {}, created ::ₘ 0,
    .send (foundReply []) (.send (modifiedReply (.document [("a", .int32 1)])) (.done _)), ?_, ?_⟩
  · refine .cons (serves_missing rfl) (.cons (.change rfl (changes_created true) ?_) (.nil _))
    intro found hfound
    exact (Except.ok.inj hfound).symm
  · rintro ⟨kind, hkind, -⟩
    cases kind with
    | removal => exact absurd hkind (by simp [ChangeInfo.Tells])
    | update => exact absurd hkind (by simp [ChangeInfo.Tells])
    | upsert =>
      obtain ⟨_, id, -, -, hinfo⟩ := hkind
      cases congrArg ChangeInfo.upsertedId hinfo

end Query

end DocClient
