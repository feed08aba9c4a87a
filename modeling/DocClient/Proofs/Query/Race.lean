import DocClient.Proofs.Query.Upsert

/-! Two clients that change a document of one collection at the same time. Each of them decides by a search whether
it will insert, and changes afterwards; in between the other one may have its turn. Main statement:
`countP_reportsInsertion_eq_iff`, by which as many insertions are reported as were made exactly if every change came
to what the search before it had foretold. -/
namespace DocClient

/-! ### Two clients and one server -/

inductive Client
  | first
  | second
  deriving DecidableEq

def Client.all : List Client := [.first, .second]

theorem Client.mem_all (k : Client) : k ∈ all := by
  cases k <;> decide

theorem Client.length_le_two {clients : List Client} (h : clients.Nodup) : clients.length ≤ 2 :=
  (List.subperm_of_subset h fun k _ => k.mem_all).length_le

/-- Clients that are counted among all are counted in a list that has each of them once. -/
theorem Client.countP_all_eq {p q : Client → Bool} {clients : List Client} (h : clients.Nodup)
    (hpq : ∀ k, p k = true ↔ q k = true ∧ k ∈ clients) : all.countP p = clients.countP q := by
  rw [List.countP_eq_length_filter, List.countP_eq_length_filter]
  have hall : (all.filter p).Nodup := List.Nodup.filter _ (by decide)
  refine ((List.perm_ext_iff_of_nodup hall (h.filter q)).mpr fun k => ?_).length_eq
  rw [List.mem_filter, List.mem_filter, hpq k]
  exact ⟨fun h => h.2.symm, fun h => ⟨k.mem_all, h.symm⟩⟩

/-- The exchanges of one client. -/
def exchangesOf (k : Client) (log : List (Client × Exchange)) : List Exchange :=
  log.filterMap fun entry => if entry.1 = k then some entry.2 else none

section Exchanging

variable {k : Client} {x : Exchange} {log more : List (Client × Exchange)}

theorem exchangesOf_append : exchangesOf k (log ++ more) = exchangesOf k log ++ exchangesOf k more :=
  List.filterMap_append

@[simp] theorem exchangesOf_cons_self : exchangesOf k ((k, x) :: log) = x :: exchangesOf k log := by
  simp [exchangesOf]

theorem exchangesOf_cons_of_ne {k' : Client} (h : k' ≠ k) : exchangesOf k ((k', x) :: log) = exchangesOf k log := by
  simp [exchangesOf, h]

theorem mem_exchangesOf : x ∈ exchangesOf k log ↔ (k, x) ∈ log := by
  simp [exchangesOf]

end Exchanging

/-- A search that tells of no document. -/
def Exchange.findsNone (x : Exchange) (c : Collection) : Bool :=
  (x.command.lookup? c).isSome && match x.reply.batch "firstBatch" with
    | .ok batch => batch.documents.isEmpty
    | .error _ => false

section Finding

variable {x : Exchange} {c : Collection}

theorem Exchange.findsNone_of_lookup {l : Lookup} {batch : Batch} (hasks : x.command.lookup? c = some l)
    (hbatch : x.reply.batch "firstBatch" = .ok batch) : x.findsNone c = batch.documents.isEmpty := by
  simp [findsNone, hasks, hbatch]

theorem Exchange.findsNone_of_modification {m : Modification} (hasks : x.command.modification? c = some m) :
    x.findsNone c = false := by
  cases hlookup : x.command.lookup? c with
  | none => simp [findsNone, hlookup]
  | some l => cases hasks.symm.trans (Command.modification?_of_lookup? hlookup)

theorem Engine.Finds.isEmpty_iff {e : Engine} {store : Multiset Document} {l : Lookup} {docs : List Document}
    (h : e.Finds store l docs) : docs.isEmpty = true ↔ ∀ doc ∈ store, ¬ e.selects l.filter doc := by
  cases docs with
  | nil => exact iff_of_true rfl h
  | cons found rest =>
    obtain ⟨-, doc, hmem, hselects, -⟩ := h
    exact iff_of_false nofun fun hnone => hnone doc hmem hselects

end Finding

/-- A search of the client told it of no document. -/
def foundNone (k : Client) (c : Collection) (log : List (Client × Exchange)) : Bool :=
  (exchangesOf k log).any (·.findsNone c)

/-- Exchanges of two clients in the order in which one server dealt with them, and what came of them. The reply to a
change that was made arrives. -/
inductive Engine.Shares (e : Engine) (c : Collection) : Multiset Document → List (Client × Exchange) →
    List (Client × Outcome) → Multiset Document → Prop
  | nil (store : Multiset Document) : Shares e c store [] [] store
  | cons {k : Client} {x : Exchange} {store store' store'' : Multiset Document} {log : List (Client × Exchange)}
      {outcomes : List Outcome} {more : List (Client × Outcome)} (first : e.Serves c store x outcomes store')
      (told : outcomes ≠ [] → ∃ found, x.reply.modified = .ok found) (rest : Shares e c store' log more store'') :
      Shares e c store ((k, x) :: log) (outcomes.map (k, ·) ++ more) store''

namespace Engine.Shares

variable {e : Engine} {c : Collection} {store store' : Multiset Document} {log : List (Client × Exchange)}
  {outcomes : List (Client × Outcome)} {k : Client} {x : Exchange}

theorem serves (h : e.Shares c store log outcomes store') (hmem : (k, x) ∈ log) :
    ∃ before given after, e.Serves c before x given after ∧ ∀ outcome ∈ given, (k, outcome) ∈ outcomes := by
  induction h with
  | nil store => cases hmem
  | @cons k' y store middle store' log given more first told rest ih =>
    rcases List.mem_cons.mp hmem with hhead | hlater
    · obtain ⟨rfl, rfl⟩ := Prod.mk.inj hhead
      exact ⟨store, given, middle, first, fun outcome houtcome => List.mem_append_left _ (List.mem_map_of_mem houtcome)⟩
    · obtain ⟨before, given', after, hserves, hgiven⟩ := ih hlater
      exact ⟨before, given', after, hserves, fun outcome houtcome => List.mem_append_right _ (hgiven outcome houtcome)⟩

/-- Whatever came of something came of one change, and its client was told. -/
theorem exists_change {outcome : Outcome} (h : e.Shares c store log outcomes store')
    (hmem : (k, outcome) ∈ outcomes) :
    ∃ x m before after, (k, x) ∈ log ∧ x.command.modification? c = some m ∧ e.Changes m before outcome after ∧
      x.reply.modified = .ok (e.given m outcome) := by
  induction h with
  | nil store => cases hmem
  | @cons k' y store middle store' log given more first told rest ih =>
    rcases List.mem_append.mp hmem with hhead | hlater
    · obtain ⟨outcome', houtcome, hpair⟩ := List.mem_map.mp hhead
      obtain ⟨rfl, rfl⟩ := Prod.mk.inj hpair
      obtain ⟨found, hfound⟩ := told (List.ne_nil_of_mem houtcome)
      obtain ⟨rfl, -⟩ | ⟨m, outcome', rfl, hasks, hchanges, honest⟩ := first.cases_change
      · cases houtcome
      · obtain rfl := List.mem_singleton.mp houtcome
        exact ⟨y, m, _, _, List.mem_cons_self, hasks, hchanges, hfound.trans (congrArg Except.ok (honest found hfound))⟩
    · obtain ⟨x, m, before, after, hx, hchange⟩ := ih hlater
      exact ⟨x, m, before, after, List.mem_cons_of_mem _ hx, hchange⟩

/-- As long as nothing comes of the exchanges, every client is served as if it were alone. -/
theorem served_of_untouched (h : e.Shares c store log [] store') (k : Client) :
    store' = store ∧ e.Served c store (exchangesOf k log) [] store := by
  generalize hnone : ([] : List (Client × Outcome)) = outcomes at h
  induction h with
  | nil store => exact ⟨rfl, .nil store⟩
  | @cons k' y store middle store' log given more first told rest ih =>
    obtain ⟨hgiven, rfl⟩ := List.append_eq_nil_iff.mp hnone.symm
    obtain rfl := List.map_eq_nil_iff.mp hgiven
    obtain ⟨rfl, hserved⟩ := ih rfl
    obtain ⟨-, rfl⟩ | ⟨m, outcome, hsome, -⟩ := first.cases_change
    case inr => cases hsome
    refine ⟨rfl, ?_⟩
    by_cases hk : k' = k
    · subst hk
      rw [exchangesOf_cons_self]
      exact .cons first hserved
    · rw [exchangesOf_cons_of_ne hk]
      exact hserved

/-- The exchange that something came of first, with what was before it and after it. -/
theorem split_first {outcome : Outcome} {rest : List (Client × Outcome)}
    (h : e.Shares c store log ((k, outcome) :: rest) store') :
    ∃ before x m after middle, log = before ++ (k, x) :: after ∧ e.Shares c store before [] store ∧
      x.command.modification? c = some m ∧ e.Changes m store outcome middle ∧ e.Shares c middle after rest store' := by
  generalize houtcomes : (k, outcome) :: rest = outcomes at h
  induction h with
  | nil store => cases houtcomes
  | @cons k' y store middle store' log given more first told later ih =>
    obtain ⟨rfl, rfl⟩ | ⟨m, outcome', rfl, hasks, hchanges, -⟩ := first.cases_change
    · obtain ⟨before, x, m, after, between, rfl, hbefore, hchange⟩ := ih houtcomes
      exact ⟨(k', y) :: before, x, m, after, between, rfl, .cons first told hbefore, hchange⟩
    · obtain ⟨hpair, rfl⟩ := List.cons.inj houtcomes
      obtain ⟨rfl, rfl⟩ := Prod.mk.inj hpair
      exact ⟨[], y, m, log, middle, rfl, .nil store, hasks, hchanges, later⟩

/-- No more comes of the exchanges of a client than it asked for changes. -/
theorem count_le (h : e.Shares c store log outcomes store') (k : Client) :
    (outcomes.map Prod.fst).count k ≤
      (exchangesOf k log).countP fun x => (x.command.modification? c).isSome := by
  induction h with
  | nil store => exact Nat.le_refl 0
  | @cons k' y store middle store' log given more first told later ih =>
    by_cases hk : k' = k
    · subst hk
      rw [exchangesOf_cons_self, List.countP_cons, List.map_append, List.count_append, Nat.add_comm]
      refine Nat.add_le_add ih ?_
      obtain ⟨rfl, -⟩ | ⟨m, outcome, rfl, hasks, -⟩ := first.cases_change
      · exact Nat.zero_le _
      · simp [hasks]
    · rw [exchangesOf_cons_of_ne hk, List.map_append, List.count_append]
      have hnone : (List.map Prod.fst (given.map (k', ·))).count k = 0 := by
        refine List.count_eq_zero.mpr fun hmem => hk ?_
        obtain ⟨⟨j, outcome⟩, hentry, rfl⟩ := List.mem_map.mp hmem
        obtain ⟨outcome', -, hpair⟩ := List.mem_map.mp hentry
        exact (Prod.mk.inj hpair).1
      omega

end Engine.Shares

/-! ### One of the clients -/

section Reading

variable {c d : Collection}

theorem Command.isFor_congr {name : String} (hdatabase : c.database.name = d.database.name) (hname : c.name = d.name)
    (k : Command) : k.IsFor name c ↔ k.IsFor name d := by
  unfold IsFor
  rw [hdatabase, hname]

theorem Command.lookup?_congr (hdatabase : c.database.name = d.database.name) (hname : c.name = d.name)
    (k : Command) : k.lookup? c = k.lookup? d :=
  if_congr (and_congr_left' (isFor_congr hdatabase hname k)) rfl rfl

theorem Command.modification?_congr (hdatabase : c.database.name = d.database.name) (hname : c.name = d.name)
    (k : Command) : k.modification? c = k.modification? d :=
  if_congr (isFor_congr hdatabase hname k) rfl rfl

end Reading

/-- The reply to a change gives a document with its identifier. -/
def Reply.identifies (reply : Reply) : Bool :=
  match reply.modified with
  | .ok (some doc) => (Query.identifierOf doc).isSome
  | _ => false

/-- A result that reports the insertion of a document. -/
def reportsInsertion : Except Error ChangeInfo → Bool
  | .ok info => info.upsertedId.isSome
  | .error _ => false

namespace Query

/-- A query and a change that look for documents of a collection under a filter, insert if there is none, and ask
for the new document. -/
structure Upserts (q : Query) (change : Change) (c : Collection) (filter : Document) : Prop where
  database_name : q.collection.database.name = c.database.name
  collection_name : q.collection.name = c.name
  filter_eq : q.filter = filter
  upsert : change.upsert = true
  returnNew : change.returnNew = true

/-- How a change that may insert goes: nothing is changed, or a removal is asked for, or a search is made and an
update is asked for, which is reported as an insertion if the search told of no document. -/
inductive Course (q : Query) (c : Collection) : List Exchange → Except Error ChangeInfo → Prop
  | failed {log : List Exchange} {e : Error} (unmodified : ∀ x ∈ log, x.command.modification? c = none) :
      Course q c log (.error e)
  | removing {x : Exchange} {m : Modification} {r : Except Error ChangeInfo}
      (asks : x.command.modification? c = some m) (removal : m.update = none)
      (reports : reportsInsertion r = false) : Course q c [x] r
  | updating {y x : Exchange} {batch : Batch} {update : Document} {r : Except Error ChangeInfo}
      (searched : y.command.lookup? c = some ⟨q.filter.written, none⟩)
      (found : y.reply.batch "firstBatch" = .ok batch)
      (asks : x.command.modification? c =
        some ⟨q.filter.written, some update, true, true, q.projection.map Document.written⟩)
      (reports : reportsInsertion r = (batch.documents.isEmpty && x.reply.identifies)) : Course q c [y, x] r

section Calling

variable {q : Query} {change : Change} {c : Collection} {filter : Document} {log : List Exchange}

/-- A removal is asked for by one command, if at all, and is not reported as an insertion. -/
theorem plays_change_of_remove {r : Except Error (ChangeInfo × Option Value)} (hremove : change.remove = true)
    (h : (q.change change).run.Plays log r) :
    (∃ e, log = [] ∧ r = .error e) ∨
      ∃ x m, log = [x] ∧ x.command.modification? q.collection = some m ∧ m.update = none ∧
        reportsInsertion (r.map Prod.fst) = false := by
  unfold Query.change at h
  rw [if_pos hremove] at h
  obtain ⟨e, -, rfl, rfl⟩ | ⟨_, -, hchecked⟩ := Call.plays_settled_bind.mp h
  · exact .inl ⟨e, rfl, rfl⟩
  unfold removeFirst at hchecked
  obtain ⟨e, -, rfl, rfl⟩ | ⟨_, -, hsorted⟩ := Call.plays_settled_bind.mp hchecked
  · exact .inl ⟨e, rfl, rfl⟩
  rw [Collection.findAndModify_eq_ask] at hsorted
  obtain ⟨e, -, rfl, rfl⟩ | ⟨k, reply, last, hk, rfl, hlast⟩ := Call.plays_ask_bind.mp hsorted
  · exact .inl ⟨e, rfl, rfl⟩
  · have hasks : k.modification? q.collection = some ⟨q.filter.written, none, false, false, none⟩ :=
      Collection.modification?_of_removal hk
    refine .inr ⟨⟨k, .short, reply⟩, _, ?_, hasks, rfl, ?_⟩
    all_goals
      rcases hfound : reply.modified with error | _ | doc
      all_goals
        rw [hfound] at hlast
        obtain ⟨rfl, rfl⟩ := Program.plays_done.mp hlast
        rfl

/-- A search that is answered with a whole result sends one command. -/
theorem plays_firstOfFilter_of_whole {seen : Option Document} (h : q.firstOfFilter.run.Plays log (.ok seen))
    (hwhole : ∀ y ∈ log, y.command.lookup? q.collection ≠ none → ∀ batch, y.reply.batch "firstBatch" = .ok batch →
      batch.id = 0) :
    ∃ y batch, log = [y] ∧ y.command.lookup? q.collection = some ⟨q.filter.written, none⟩ ∧
      y.reply.batch "firstBatch" = .ok batch ∧ seen = batch.documents.head? := by
  obtain ⟨_, -, -, h⟩ | ⟨k, reply, rest, hk, rfl, hrest⟩ := plays_firstOfFilter h
  · cases h
  have hlookup := lookup?_of_firstOfFilter hk
  obtain ⟨_, -, -, h⟩ | ⟨batch, d, hbatch, hpulls⟩ := hrest
  · cases h
  have hid := hwhole _ List.mem_cons_self (by simp [hlookup]) batch hbatch
  obtain ⟨rfl, hseen⟩ : rest = [] ∧ seen = batch.documents.head? := by
    cases hpulls with
    | document batch_eq => exact ⟨rfl, (congrArg List.head? batch_eq).symm⟩
    | ended empty id => exact ⟨rfl, (congrArg List.head? empty).symm⟩
    | more empty open_ next rest => exact absurd hid open_
  exact ⟨⟨k, .short, reply⟩, batch, rfl, hlookup, hbatch, hseen⟩

/-- A change of a document that its search has foretold is reported as what was foretold. -/
theorem plays_conclude {inserting : Bool} {reply : Reply} {r : Except Error (ChangeInfo × Option Value)}
    (hnew : change.returnNew = true)
    (h : (Call.settled reply.modified >>= q.conclude change inserting).run.Plays log r) :
    log = [] ∧ reportsInsertion (r.map Prod.fst) = (inserting && reply.identifies) := by
  unfold Reply.identifies
  rcases hfound : reply.modified with error | _ | doc
  · rw [hfound] at h
    obtain ⟨rfl, rfl⟩ := Program.plays_done.mp h
    exact ⟨rfl, (Bool.and_false _).symm⟩
  · rw [hfound, Call.settled_ok_bind, conclude, hnew, Bool.not_true, Bool.and_false] at h
    obtain ⟨rfl, rfl⟩ := Program.plays_done.mp h
    exact ⟨rfl, (Bool.and_false _).symm⟩
  · rw [hfound] at h
    obtain ⟨rfl, rfl⟩ := Program.plays_done.mp h
    cases inserting <;> exact ⟨rfl, rfl⟩

theorem course_of_plays {r : Except Error ChangeInfo} (hupserts : q.Upserts change c filter)
    (hplays : (q.applyInfo change).run.Plays log r)
    (hwhole : ∀ y ∈ log, y.command.lookup? c ≠ none → ∀ batch, y.reply.batch "firstBatch" = .ok batch →
      batch.id = 0) : q.Course c log r := by
  have hlookup := Command.lookup?_congr hupserts.database_name hupserts.collection_name
  have hmodification := Command.modification?_congr hupserts.database_name hupserts.collection_name
  obtain ⟨told, hchange, rfl⟩ : ∃ told, (q.change change).run.Plays log told ∧ r = told.map Prod.fst := by
    obtain ⟨e, hchange, rfl⟩ | ⟨told, first, rest, rfl, hchange, hdone⟩ := Call.plays_bind.mp hplays
    · exact ⟨_, hchange, rfl⟩
    · obtain ⟨rfl, rfl⟩ := Program.plays_done.mp hdone
      exact ⟨_, by simpa using hchange, rfl⟩
  cases hremove : change.remove with
  | true =>
    obtain ⟨e, rfl, rfl⟩ | ⟨x, m, rfl, hasks, hremoval, hreports⟩ := plays_change_of_remove hremove hchange
    · exact .failed nofun
    · exact .removing ((hmodification _).symm.trans hasks) hremoval hreports
  | false =>
    obtain ⟨⟨e, rfl⟩, hunmodified⟩ | ⟨update, seen, looked, x, again, rfl, hlooked, hasks, hagain⟩ :=
      plays_change_of_upsert hremove hupserts.upsert hchange
    · exact .failed fun x hx => (hmodification _).symm.trans (hunmodified x hx)
    obtain ⟨rfl, hreports⟩ := plays_conclude hupserts.returnNew hagain
    obtain ⟨y, batch, rfl, hsearched, hbatch, rfl⟩ := plays_firstOfFilter_of_whole hlooked fun y hy hy' =>
      hwhole y (by simp [hy]) ((hlookup _).symm ▸ hy')
    rw [hupserts.returnNew] at hasks
    refine .updating ((hlookup _).symm.trans hsearched) hbatch ((hmodification _).symm.trans hasks) ?_
    rw [hreports]
    cases batch.documents <;> rfl

end Calling

end Query

/-! ### What the clients report -/

section Reporting

variable {e : Engine} {c : Collection} {filter : Document} {store store' : Multiset Document}
  {log : List (Client × Exchange)} {outcomes : List (Client × Outcome)} {qs : Client → Query}
  {changes : Client → Change} {results : Client → Except Error ChangeInfo}

/-- Each client's call goes its course among the exchanges of both. -/
theorem course_of_shares (hupserts : ∀ k, (qs k).Upserts (changes k) c filter)
    (hplays : ∀ k, ((qs k).applyInfo (changes k)).run.Plays (exchangesOf k log) (results k))
    (hshares : e.Shares c store log outcomes store') (k : Client) :
    (qs k).Course c (exchangesOf k log) (results k) := by
  refine Query.course_of_plays (hupserts k) (hplays k) fun y hy hlookup batch hbatch => ?_
  obtain ⟨before, given, after, hserves, -⟩ := hshares.serves (mem_exchangesOf.mp hy)
  obtain ⟨l, hl⟩ := Option.ne_none_iff_exists'.mp hlookup
  exact (hserves.of_lookup hl hbatch).2.2.1

theorem Query.Course.countP_le_one {q : Query} {log : List Exchange} {r : Except Error ChangeInfo}
    (h : q.Course c log r) : (log.countP fun x => (x.command.modification? c).isSome) ≤ 1 := by
  cases h with
  | failed unmodified =>
    rw [List.countP_eq_zero.mpr fun x hx => by simp [unmodified x hx]]
    exact Nat.zero_le 1
  | removing asks removal reports => exact (List.countP_le_length).trans (Nat.le_refl 1)
  | updating searched found asks reports => simp [Command.modification?_of_lookup? searched, asks]

/-- A client reports an insertion exactly if it made a change after a search that told it of no document. -/
theorem reportsInsertion_iff {k : Client} {q : Query} {r : Except Error ChangeInfo}
    (hcourse : q.Course c (exchangesOf k log) r) (hshares : e.Shares c store log outcomes store')
    (hshown : ∀ x ∈ exchangesOf k log, ∀ doc, x.reply.modified = .ok (some doc) →
      ∃ id, doc.get? "_id" = some id) :
    reportsInsertion r = true ↔ foundNone k c log = true ∧ k ∈ outcomes.map Prod.fst := by
  have hchanged (hmem : k ∈ outcomes.map Prod.fst) : ∃ x ∈ exchangesOf k log, ∃ m before outcome after,
      x.command.modification? c = some m ∧ e.Changes m before outcome after ∧
        x.reply.modified = .ok (e.given m outcome) := by
    obtain ⟨⟨k', outcome⟩, houtcome, rfl⟩ := List.mem_map.mp hmem
    obtain ⟨x, m, before, after, hx, hchange⟩ := hshares.exists_change houtcome
    exact ⟨x, mem_exchangesOf.mpr hx, m, before, outcome, after, hchange⟩
  have hmine {x : Exchange} (hx : x ∈ exchangesOf k log) : (k, x) ∈ log := mem_exchangesOf.mp hx
  unfold foundNone
  generalize exchangesOf k log = own at hcourse hchanged hmine hshown
  cases hcourse with
  | failed unmodified =>
    refine iff_of_false nofun fun h => ?_
    obtain ⟨x, hx, m, -, -, -, hasks, -⟩ := hchanged h.2
    cases (unmodified x hx).symm.trans hasks
  | removing asks removal reports =>
    simp [reports, Exchange.findsNone_of_modification asks]
  | @updating y x batch update _ searched found asks reports =>
    have htold : x.reply.identifies = true ↔ k ∈ outcomes.map Prod.fst := by
      have hx : (k, x) ∈ log := hmine (by simp)
      constructor
      · intro hidentifies
        obtain ⟨before, given, after, hserves, hgiven⟩ := hshares.serves hx
        obtain ⟨doc, hdoc⟩ : ∃ doc, x.reply.modified = .ok doc := by
          unfold Reply.identifies at hidentifies
          cases hmodified : x.reply.modified with
          | ok doc => exact ⟨doc, rfl⟩
          | error error => simp [hmodified] at hidentifies
        obtain ⟨outcome, rfl, -, -⟩ := hserves.of_modification asks hdoc
        exact List.mem_map.mpr ⟨_, hgiven outcome (List.mem_singleton_self _), rfl⟩
      · intro hmem
        obtain ⟨x', hx', m, before, outcome, after, hasks, hchanges, hmodified⟩ := hchanged hmem
        obtain rfl : x' = x := by
          rcases List.mem_cons.mp hx' with rfl | hlast
          · cases hasks.symm.trans (Command.modification?_of_lookup? searched)
          · exact List.mem_singleton.mp hlast
        obtain rfl := Option.some.inj (asks.symm.trans hasks)
        obtain ⟨doc, hdoc⟩ : ∃ doc, x'.reply.modified = .ok (some doc) := by
          rw [hmodified]
          cases hchanges with
          | removed removal => cases removal
          | updated update_eq selected done => exact ⟨_, rfl⟩
          | inserted update_eq upsert missing done => exact ⟨_, rfl⟩
          | untouched missing upsert => rcases upsert with h | h <;> cases h
        obtain ⟨id, hid⟩ := hshown x' (by simp) doc hdoc
        simp [Reply.identifies, hdoc, Query.identifierOf, hid]
    rw [reports, Bool.and_eq_true, htold]
    simp [Exchange.findsNone_of_lookup searched found, Exchange.findsNone_of_modification asks]

/-- What came first came of a change that its client's search had foretold. -/
theorem first_foretold {k : Client} {q : Query} {r : Except Error ChangeInfo} {outcome : Outcome}
    {rest : List (Client × Outcome)} (hcourse : q.Course c (exchangesOf k log) r)
    (hshares : e.Shares c store log ((k, outcome) :: rest) store') :
    outcome.kind? = some .upsert ↔ foundNone k c log = true := by
  obtain ⟨before, x, m, after, middle, rfl, hbefore, hasks, hchanges, -⟩ := hshares.split_first
  obtain ⟨-, hserved⟩ := hbefore.served_of_untouched k
  unfold foundNone
  rw [exchangesOf_append, exchangesOf_cons_self] at hcourse ⊢
  generalize exchangesOf k before = looked at hcourse hserved
  generalize ([] : List Outcome) = untouched at hserved
  generalize hown : looked ++ x :: exchangesOf k after = own at hcourse
  cases hcourse with
  | failed unmodified => cases (unmodified x (by simp [← hown])).symm.trans hasks
  | @removing x' m' _ asks removal reports =>
    obtain ⟨rfl, rfl, -⟩ : x = x' ∧ looked = [] ∧ exchangesOf k after = [] := by
      cases looked with
      | nil => simpa using hown
      | cons y looked => simp at hown
    obtain rfl := Option.some.inj (asks.symm.trans hasks)
    refine iff_of_false (fun hkind => ?_) (by simp [Exchange.findsNone_of_modification asks])
    cases hchanges with
    | removed removal' => cases hkind
    | updated update_eq => cases hkind
    | inserted update_eq => cases removal.symm.trans update_eq
    | untouched => cases hkind
  | @updating y x' batch update _ searched found asks reports =>
    obtain ⟨rfl, rfl⟩ : looked = [y] ∧ x = x' := by
      match looked, hown with
      | [], hown =>
        obtain ⟨rfl, -⟩ := List.cons.inj hown
        cases hasks.symm.trans (Command.modification?_of_lookup? searched)
      | [y'], hown => simpa using And.intro (List.cons.inj hown).1 (List.cons.inj (List.cons.inj hown).2).1
      | _ :: _ :: _, hown => simp at hown
    obtain _ | ⟨hy, -⟩ := hserved
    obtain ⟨-, -, -, hfinds⟩ := hy.of_lookup searched found
    obtain rfl := Option.some.inj (asks.symm.trans hasks)
    rw [hchanges.inserts_iff nofun, ← hfinds.isEmpty_iff]
    simp [Exchange.findsNone_of_lookup searched found, Exchange.findsNone_of_modification asks]

/-- As many insertions are reported as were made exactly if every change came to what the search of its client had
foretold. -/
theorem countP_reportsInsertion_eq_iff (hupserts : ∀ k, (qs k).Upserts (changes k) c filter)
    (hplays : ∀ k, ((qs k).applyInfo (changes k)).run.Plays (exchangesOf k log) (results k))
    (hshares : e.Shares c store log outcomes store')
    (hshown : ∀ k, ∀ x ∈ exchangesOf k log, ∀ doc, x.reply.modified = .ok (some doc) →
      ∃ id, doc.get? "_id" = some id) :
    Client.all.countP (fun k => reportsInsertion (results k)) = outcomes.countP (·.2.kind? = some .upsert) ↔
      ∀ k outcome, (k, outcome) ∈ outcomes → (outcome.kind? = some .upsert ↔ foundNone k c log = true) := by
  have hcourse := course_of_shares hupserts hplays hshares
  have honce : (outcomes.map Prod.fst).Nodup := List.nodup_iff_count_le_one.mpr fun k =>
    (hshares.count_le k).trans (hcourse k).countP_le_one
  have hreported : Client.all.countP (fun k => reportsInsertion (results k)) =
      outcomes.countP fun entry => foundNone entry.1 c log := by
    change _ = outcomes.countP ((fun k => foundNone k c log) ∘ Prod.fst)
    rw [← List.countP_map]
    exact Client.countP_all_eq honce fun k => reportsInsertion_iff (hcourse k) hshares (hshown k)
  rw [hreported]
  rcases outcomes with _ | ⟨⟨k, outcome⟩, rest⟩
  · simp
  -- The first change is always as foretold, so that the second one decides.
  have hfirst := first_foretold (hcourse k) hshares
  rcases rest with _ | ⟨⟨k', outcome'⟩, _ | ⟨third, rest⟩⟩
  · simp [List.countP_cons, hfirst]
  · have hsecond : (∀ j o, (j, o) ∈ [(k, outcome), (k', outcome')] →
        (o.kind? = some .upsert ↔ foundNone j c log = true)) ↔
          (outcome'.kind? = some .upsert ↔ foundNone k' c log = true) := by
      refine ⟨fun h => h k' outcome' (by simp), fun h j o hmem => ?_⟩
      rcases List.mem_cons.mp hmem with hj | hj
      · cases hj
        exact hfirst
      · cases List.mem_singleton.mp hj
        exact h
    rw [hsecond]
    simp only [List.countP_cons, List.countP_nil, decide_eq_true_eq, hfirst]
    by_cases hkind : outcome'.kind? = some .upsert <;> cases foundNone k' c log <;> simp [hkind]
  · exact absurd (Client.length_le_two honce) (by simp)

end Reporting

namespace Query

/-- A query by an identifier that is shown. -/
def named : Query := Collection.search ⟨⟨"app", .primary, none, 1⟩, "people"⟩ ⟨[("_id", .int32 7)]⟩ none

/-- The commands of a change of the document with the identifier, and what comes of them if there was none before
the search and if there was one. -/
theorem exists_commands_named : ∃ search update : Command,
    search.lookup? named.collection = some ⟨⟨[("_id", .int32 7)]⟩, none⟩ ∧
      update.modification? named.collection =
        some ⟨⟨[("_id", .int32 7)]⟩, some ⟨[("$set", .document [("a", .int32 1)])]⟩, true, true, none⟩ ∧
      (named.applyInfo (setting true)).run.Plays
        [⟨search, .short, foundReply []⟩, ⟨update, .short, modifiedReply (.ofDocument created)⟩]
        (.ok { upsertedId := some (.int32 7) }) ∧
      (named.applyInfo (setting true)).run.Plays
        [⟨search, .short, foundReply [.ofDocument created]⟩, ⟨update, .short, modifiedReply (.ofDocument created)⟩]
        (.ok { updated := 1, matched := 1 }) := by
  refine ⟨_, _, ?lookup, ?modification, .send _ (.send _ (.done _)), .send _ (.send _ (.done _))⟩
  case lookup => rfl
  case modification => rfl

section Changing

variable {search update : Command}
  (hsearch : search.lookup? named.collection = some ⟨⟨[("_id", .int32 7)]⟩, none⟩)
  (hupdate : update.modification? named.collection =
    some ⟨⟨[("_id", .int32 7)]⟩, some ⟨[("$set", .document [("a", .int32 1)])]⟩, true, true, none⟩)
include hsearch hupdate

/-- The first change inserts the document, and the second one finds it. Either search may be made before or after
the first change. -/
theorem shares_created (late : Bool) {found : List Bson}
    (hfound : found = if late then [Bson.ofDocument created] else []) :
    ∃ log, Engine.plain.Shares named.collection 0 log
        [(.first, .inserted created), (.second, .updated created created)] (created ::ₘ 0) ∧
      exchangesOf .first log =
        [⟨search, .short, foundReply []⟩, ⟨update, .short, modifiedReply (.ofDocument created)⟩] ∧
      exchangesOf .second log =
        [⟨search, .short, foundReply found⟩, ⟨update, .short, modifiedReply (.ofDocument created)⟩] := by
  have told (given : List Outcome) : given ≠ [] →
      ∃ doc, (modifiedReply (.ofDocument created)).modified = .ok doc := fun _ => ⟨some created, rfl⟩
  have inserted : Engine.plain.Serves named.collection 0 ⟨update, .short, modifiedReply (.ofDocument created)⟩
      [.inserted created] (created ::ₘ 0) := by
    refine .change hupdate (.inserted rfl rfl (by simp) ⟨_, rfl⟩) fun doc hdoc => ?_
    exact (Except.ok.inj hdoc).symm
  have updated : Engine.plain.Serves named.collection (created ::ₘ 0)
      ⟨update, .short, modifiedReply (.ofDocument created)⟩ [.updated created created] (created ::ₘ 0) := by
    refine .change hupdate (.updated rfl (List.forall_mem_singleton.mpr rfl) trivial) fun doc hdoc => ?_
    exact (Except.ok.inj hdoc).symm
  subst hfound
  cases late with
  | false =>
    refine ⟨[(.first, _), (.second, _), (.first, _), (.second, _)], ?_, rfl, rfl⟩
    exact .cons (serves_missing hsearch) (absurd rfl) (.cons (serves_missing hsearch) (absurd rfl)
      (.cons inserted (told _) (.cons updated (told _) (.nil _))))
  | true =>
    have shown : Engine.plain.Serves named.collection (created ::ₘ 0)
        ⟨search, .short, foundReply [.ofDocument created]⟩ [] (created ::ₘ 0) := by
      refine .lookup hsearch fun batch hbatch => ?_
      obtain rfl := Except.ok.inj hbatch
      exact ⟨rfl, rfl, created, by simp, List.forall_mem_singleton.mpr rfl, rfl⟩
    refine ⟨[(.first, _), (.first, _), (.second, _), (.second, _)], ?_, rfl, rfl⟩
    exact .cons (serves_missing hsearch) (absurd rfl) (.cons inserted (told _) (.cons shown (absurd rfl)
      (.cons updated (told _) (.nil _))))

end Changing

theorem upserts_named : named.Upserts (setting true) named.collection ⟨[("_id", .int32 7)]⟩ :=
  ⟨rfl, rfl, rfl, rfl, rfl⟩

/-- One client after the other: the second one is told of the document, and one insertion is reported. -/
theorem one_reported_in_turn : ∃ log, ∃ results : Client → Except Error ChangeInfo, ∃ store',
    (∀ k, (named.applyInfo (setting true)).run.Plays (exchangesOf k log) (results k)) ∧
      Engine.plain.Shares named.collection 0 log
        [(.first, .inserted created), (.second, .updated created created)] store' ∧
      Client.all.countP (fun k => reportsInsertion (results k)) = 1 := by
  obtain ⟨search, update, hsearch, hupdate, hfirst, hsecond⟩ := exists_commands_named
  obtain ⟨log, hshares, hlog, hlog'⟩ := shares_created hsearch hupdate true rfl
  let results : Client → Except Error ChangeInfo
    | .first => .ok { upsertedId := some (.int32 7) }
    | .second => .ok { updated := 1, matched := 1 }
  have hplays : ∀ k, (named.applyInfo (setting true)).run.Plays (exchangesOf k log) (results k) := by
    rintro (_ | _)
    · rw [hlog]
      exact hfirst
    · rw [hlog']
      exact hsecond
  have hshown : ∀ k, ∀ x ∈ exchangesOf k log, ∀ doc, x.reply.modified = .ok (some doc) →
      ∃ id, doc.get? "_id" = some id := by
    have hupdated (doc : Document) (hdoc : (modifiedReply (.ofDocument created)).modified = .ok (some doc)) :
        ∃ id, doc.get? "_id" = some id := by
      cases hdoc
      exact ⟨.int32 7, rfl⟩
    rintro (_ | _)
    · rw [hlog]
      simp only [List.forall_mem_cons]
      exact ⟨nofun, hupdated, nofun⟩
    · rw [hlog']
      simp only [List.forall_mem_cons]
      exact ⟨nofun, hupdated, nofun⟩
  refine ⟨log, results, _, hplays, hshares, ?_⟩
  refine (countP_reportsInsertion_eq_iff (fun _ => upserts_named) hplays hshares hshown).mpr ?_
  intro k outcome hmem
  rcases List.mem_pair.mp hmem with h | h
  · cases h
    have hnone : Exchange.findsNone ⟨search, .short, foundReply []⟩ named.collection = true := by
      unfold Exchange.findsNone
      rw [hsearch]
      rfl
    refine iff_of_true rfl ?_
    simp [foundNone, hlog, hnone]
  · cases h
    have hone : Exchange.findsNone ⟨search, .short, foundReply [.ofDocument created]⟩ named.collection = false := by
      unfold Exchange.findsNone
      rw [hsearch]
      rfl
    have hasks : Exchange.findsNone ⟨update, .short, modifiedReply (.ofDocument created)⟩ named.collection = false :=
      Exchange.findsNone_of_modification hupdate
    refine iff_of_false nofun ?_
    simp [foundNone, hlog', hone, hasks]

/-- Both clients search before either changes anything: one document is inserted, and both report its insertion. -/
theorem two_reported_of_one : ∃ log, ∃ results : Client → Except Error ChangeInfo, ∃ store',
    (∀ k, (named.applyInfo (setting true)).run.Plays (exchangesOf k log) (results k)) ∧
      Engine.plain.Shares named.collection 0 log
        [(.first, .inserted created), (.second, .updated created created)] store' ∧
      Client.all.countP (fun k => reportsInsertion (results k)) = 2 := by
  obtain ⟨search, update, hsearch, hupdate, hfirst, -⟩ := exists_commands_named
  obtain ⟨log, hshares, hlog, hlog'⟩ := shares_created hsearch hupdate false rfl
  refine ⟨log, fun _ => .ok { upsertedId := some (.int32 7) }, _, ?_, hshares, rfl⟩
  rintro (_ | _)
  · rw [hlog]
    exact hfirst
  · rw [hlog']
    exact hfirst

end Query
end DocClient
