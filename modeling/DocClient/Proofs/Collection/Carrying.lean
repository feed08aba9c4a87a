import DocClient.Proofs.Ascending
import DocClient.Proofs.Collection.Command
import DocClient.Proofs.Wire.Sending
import DocClient.Query.Change

/-! Commands by their names and fields, and the requests that send such commands only. What holds of every command
with a field holds of all that a request sends: `Collection.sendsOnly_write` and its like, and for queries
`Query.Searching` and `Query.sendsOnly_change_of`. -/
namespace DocClient

namespace Document

def itemsUnder (doc : Document) (name : String) : List Bson :=
  match doc.get? name with
  | some (.array items) => items
  | _ => []

/-- A document that is the command of a name, with a field. -/
structure Carries (doc : Document) (command name : String) (b : Bson) : Prop where
  command : doc.names.head? = some command
  field : doc.get? name = some b

end Document

/-- The document under a name of a document. -/
def Bson.documentIn (b : Bson) (name : String) : Option Document :=
  b.asDocument?.bind fun doc => (doc.get? name).bind asDocument?

section Carrying

variable {doc : Document} {command name : String} {b : Bson}

theorem Document.Carries.put (h : doc.Carries command name b) {other : String} (hne : name ≠ other)
    (v : Bson) : (doc.put other v).Carries command name b := by
  constructor
  · have hhead := h.command
    unfold Document.names at hhead ⊢
    unfold Document.put
    rw [Fields.names_put]
    split
    · exact hhead
    · rw [List.head?_append, hhead]
      rfl
  · exact (Fields.get?_put_of_ne doc.fields v hne).trans h.field

theorem Document.Carries.putSome (h : doc.Carries command name b) {other : String} (hne : name ≠ other)
    (v : Option Bson) : (doc.putSome other v).Carries command name b := by
  cases v with
  | none => exact h
  | some v => exact h.put hne v

theorem Document.Carries.written (h : doc.Carries command name b) :
    doc.written.Carries command name b.written := by
  constructor
  · have hhead := h.command
    unfold Document.names at hhead ⊢
    unfold Document.written
    rw [Bson.names_writtenFields, hhead]
  · rw [Document.get?_written, h.field]
    rfl

/-- What is put is carried. -/
theorem Document.Carries.of_put {other : String} {v : Bson} (h : doc.Carries command other v) (hne : other ≠ name) :
    (doc.put name b).Carries command name b :=
  ⟨(h.put hne b).command, Fields.get?_put_self doc.fields name b⟩

private theorem head?_names_foldl_put (pairs : Fields Bson) {fields : Fields Bson}
    (h : (Fields.names fields).head? = some name) :
    (Fields.names (pairs.foldl (fun fields (k, v) => fields.put k v) fields)).head? = some name := by
  induction pairs generalizing fields with
  | nil => exact h
  | cons p rest ih =>
    apply ih
    rw [Fields.names_put]
    split
    · exact h
    · rw [List.head?_append, h]
      rfl

theorem Collection.carries_body (c : Collection) {fields : Fields Bson}
    (hget : Fields.last? fields name = some b) : (c.body command fields).Carries command name b := by
  constructor
  · exact head?_names_foldl_put fields rfl
  · refine (Fields.get?_collect _ _).trans ?_
    rw [Fields.last?_cons, hget]
    rfl

theorem Document.Carries.withConcern {db : Database} {body : Document} (h : doc.Carries command name b)
    (hne : name ≠ "writeConcern") (hbody : db.withConcern doc = .ok body) : body.Carries command name b := by
  unfold Database.withConcern at hbody
  split at hbody
  · exact Except.ok.inj hbody ▸ h
  · split at hbody
    · cases hbody
    · rw [← Except.ok.inj hbody]
      split
      · exact h
      · exact h.put hne _

theorem Document.Carries.sent {db : Database} {readPreference : ReadPreference} {k : Command}
    (h : doc.Carries command name b) (hk : db.sent readPreference doc = .ok k) :
    k.body.Carries command name b.written := by
  rw [Database.eq_of_sent hk]
  exact h.written

theorem Document.Carries.concerned {db : Database} {readPreference : ReadPreference} {k : Command}
    (h : doc.Carries command name b) (hne : name ≠ "writeConcern")
    (hk : (db.withConcern doc >>= db.sent readPreference) = .ok k) : k.body.Carries command name b.written := by
  obtain ⟨body, hbody, hsent⟩ := bind_eq_ok_iff.mp hk
  exact (h.withConcern hne hbody).sent hsent

theorem Bson.asDocument?_written (b : Bson) : b.written.asDocument? = b.asDocument?.map Document.written := by
  cases b <;> rfl

theorem Bson.documentIn_written (b : Bson) (name : String) :
    b.written.documentIn name = (b.documentIn name).map Document.written := by
  unfold documentIn
  rw [asDocument?_written]
  cases b.asDocument? with
  | none => rfl
  | some doc =>
    simp only [Option.map_some, Option.bind_some, Document.get?_written]
    cases doc.get? name with
    | none => rfl
    | some v => exact asDocument?_written v

theorem Document.Carries.itemsUnder {items : List Bson}
    (h : doc.Carries command name (Bson.array items).written) : doc.itemsUnder name = items.map Bson.written := by
  unfold Document.itemsUnder
  rw [h.field, Bson.written, Bson.writtenItems_eq_map]

end Carrying

/-! ### Requests of a collection -/

section Requests

variable {α : Type} {P : Command → Prop} {name : String} {b : Bson}

/-- Further batches are asked for by commands of a name of their own. -/
theorem Cursor.sendsOnly_pull_of (h : ∀ k : Command, k.body.names.head? = some "getMore" → P k) (c : Cursor) :
    (Source.pull c).SendsOnly P := by
  apply sendsOnly_pullWithin
  intro c
  have hpairs : (Document.ofPairs [("getMore", .int64 c.id), ("collection", .string c.collection)]).Carries
      "getMore" "collection" (.string c.collection) := ⟨rfl, rfl⟩
  exact h _ (hpairs.putSome (show "collection" ≠ "batchSize" by decide) _).written.command

theorem Collection.sendsOnly_write (c : Collection) (limit : Deadline) {command : String} (name : String)
    {fields : Fields Bson} {b : Bson} (read : Document → Except DecodeCause α)
    (hget : Fields.last? fields name = some b) (hne : name ≠ "writeConcern")
    (h : ∀ k : Command, k.body.Carries command name b.written → P k) :
    (c.write limit (c.body command fields) read).run.SendsOnly P := by
  rw [write_eq_ask]
  exact Call.sendsOnly_ask fun k hk => h k ((c.carries_body hget).concerned hne hk)

/-- An update that is not refused is sent as one entry with the filter and the update. -/
theorem Collection.sendsOnly_updateMatches_of (c : Collection) {filter update : Document} {multi upsert : Bool}
    (h : checkUpdate update = .ok () → ∀ (k : Command) (entry : Document),
      entry.get? "q" = some (.ofDocument filter) → entry.get? "u" = some (.ofDocument update) →
        k.body.Carries "update" "updates" (Bson.array [.ofDocument entry]).written → P k) :
    (c.updateMatches filter update multi upsert).run.SendsOnly P := by
  have hentry : ∀ name b, (Document.ofPairs [("q", .ofDocument filter), ("u", .ofDocument update)]).Carries
      "q" name b → name ≠ "multi" → name ≠ "upsert" →
        (((Document.ofPairs [("q", .ofDocument filter), ("u", .ofDocument update)]).putSome "multi"
          (if multi then some (.boolean true) else none)).putSome "upsert"
            (if upsert then some (.boolean true) else none)).get? name = some b :=
    fun _ _ hcarries hmulti hupsert => ((hcarries.putSome hmulti _).putSome hupsert _).field
  apply Call.sendsOnly_settled_bind
  intro _ hchecked
  refine Call.sendsOnly_bind (c.sendsOnly_write .short "updates" readUpdate rfl (by decide) ?_) ?_
  · exact fun k hk => h hchecked k _ (hentry _ _ ⟨rfl, rfl⟩ (by decide) (by decide))
      (hentry _ _ ⟨rfl, rfl⟩ (by decide) (by decide)) hk
  · rintro ⟨result, trouble⟩
    exact Call.sendsOnly_settled_bind fun _ _ => trivial

/-- A change of one document is sent as one command with its fields. -/
theorem Collection.sendsOnly_findAndModify_of (c : Collection) {filter : Document} {fields : Fields Bson}
    (hget : Fields.last? (("query", .ofDocument filter) :: fields) name = some b) (hname : name ≠ "writeConcern")
    (h : ∀ k : Command, k.body.Carries "findAndModify" name b.written → P k) :
    (c.findAndModify filter fields).run.SendsOnly P := by
  refine Call.sendsOnly_bind (c.sendsOnly_write .short name readModified hget hname h) ?_
  rintro ⟨value, trouble⟩
  exact Call.sendsOnly_settled_bind fun _ _ => trivial

end Requests

/-! ### Queries -/

namespace Query

variable {α : Type} {P : Command → Prop} {name : String} {b : Bson} {q : Query} {body : Document}

theorem eq_of_searchBody (h : q.searchBody = .ok body) : ∃ skip, q.skipBson = .ok skip ∧
    body = (((q.collection.body "find" [("filter", .ofDocument q.filter)]).putSome "projection"
      (q.projection.map .ofDocument)).putSome "sort" (q.order.map .ofDocument)).putSome "skip" skip := by
  unfold searchBody at h
  obtain ⟨skip, hskip, hrest⟩ := bind_eq_ok_iff.mp h
  obtain ⟨-, -, hlast⟩ := bind_eq_ok_iff.mp hrest
  exact ⟨skip, hskip, (Except.ok.inj hlast).symm⟩

theorem carries_body_find (q : Query) : (q.collection.body "find" [("filter", .ofDocument q.filter)]).Carries "find"
    "filter" (.ofDocument q.filter) := q.collection.carries_body rfl

theorem carries_searchBody (h : q.searchBody = .ok body) : body.Carries "find" "filter" (.ofDocument q.filter) := by
  obtain ⟨skip, -, rfl⟩ := eq_of_searchBody h
  exact ((q.carries_body_find.putSome (by decide) _).putSome (by decide) _).putSome (by decide) _

/-- The order of a query is carried by its searches. -/
theorem carries_order {order : Document} (horder : q.order = some order) (h : q.searchBody = .ok body) :
    body.Carries "find" "sort" (.ofDocument order) := by
  obtain ⟨skip, -, rfl⟩ := eq_of_searchBody h
  rw [horder]
  exact ((q.carries_body_find.putSome (by decide) _).of_put (by decide)).putSome (by decide) _

/-- A query whose searches carry a field, and a sort of commands that holds all searches with this field and all
requests for further batches. -/
structure Searching (q : Query) (P : Command → Prop) (name : String) (b : Bson) : Prop where
  carries : ∀ body, q.searchBody = .ok body → body.Carries "find" name b
  bounds : name ∉ ["limit", "batchSize", "singleBatch"]
  search : ∀ k : Command, k.body.Carries "find" name b.written → P k
  more : ∀ k : Command, k.body.names.head? = some "getMore" → P k

theorem sendsOnly_searchOne (c : Collection) (hbody : body.Carries "find" name b)
    (hbounds : name ∉ ["limit", "batchSize", "singleBatch"])
    (hsearch : ∀ k : Command, k.body.Carries "find" name b.written → P k)
    (hmore : ∀ k : Command, k.body.names.head? = some "getMore" → P k) : (searchOne c body).run.SendsOnly P := by
  simp only [List.mem_cons, List.not_mem_nil, or_false, not_or] at hbounds
  have hfirst : (firstBody body).Carries "find" name b := (hbody.put hbounds.1 _).put hbounds.2.2 _
  unfold searchOne
  rw [Database.openCursor_eq_ask]
  refine Call.sendsOnly_bind (Call.sendsOnly_ask fun k hk => hsearch k (hfirst.sent hk)) fun cursor => ?_
  exact (Cursor.sendsOnly_pull_of hmore cursor).bind fun _ => trivial

theorem sendsOnly_firstOfFilter_of
    (hsearch : ∀ k : Command, k.body.Carries "find" "filter" (Bson.ofDocument q.filter).written → P k)
    (hmore : ∀ k : Command, k.body.names.head? = some "getMore" → P k) : q.firstOfFilter.run.SendsOnly P :=
  sendsOnly_searchOne q.collection q.carries_body_find (by decide) hsearch hmore

namespace Searching

variable (h : q.Searching P name b)

include h

theorem sendsOnly_one [Destination α] : (q.one : Call α).run.SendsOnly P := by
  have hfirst : q.first.run.SendsOnly P := Call.sendsOnly_settled_bind fun body hbody =>
    sendsOnly_searchOne q.collection (h.carries body hbody) h.bounds h.search h.more
  apply Call.sendsOnly_settled_bind
  intro _ _
  refine Call.sendsOnly_bind hfirst fun found => ?_
  cases found <;> trivial

theorem sendsOnly_iter : q.iter.SendsOnly P := by
  have hbounds := h.bounds
  simp only [List.mem_cons, List.not_mem_nil, or_false, not_or] at hbounds
  refine Program.SendsOnly.bind ?_ fun _ => trivial
  apply Call.sendsOnly_settled_bind
  intro _ _
  apply Call.sendsOnly_settled_bind
  intro body hbody
  unfold allBody at hbody
  obtain ⟨search, hsearch, hrest⟩ := bind_eq_ok_iff.mp hbody
  obtain ⟨size, -, hlast⟩ := bind_eq_ok_iff.mp hrest
  have hcarries : body.Carries "find" name b := by
    rw [← Except.ok.inj hlast]
    exact (((h.carries search hsearch).putSome hbounds.1 _).putSome hbounds.2.1 _).putSome hbounds.2.2 _
  dsimp only
  rw [Database.openCursor_eq_ask]
  exact Call.sendsOnly_ask fun k hk => h.search k (hcarries.sent hk)

theorem sendsOnly_all [Destination α] (previous : List α) : (q.all previous).SendsOnly P :=
  h.sendsOnly_iter.bind fun it =>
    (Iter.sendsOnly_all (Cursor.sendsOnly_pull_of h.more) _ it previous).bind fun _ => trivial

end Searching

/-- A change sends what its searches by the filter send, and the change of one document. -/
theorem sendsOnly_change_of {change : Change} (hlook : q.firstOfFilter.run.SendsOnly P)
    (hremove : change.remove = true → q.removeFirst.run.SendsOnly P)
    (hupdate : change.remove = false → ∀ update, updateDocument change.update = .ok update →
      (q.updateFirst update change).run.SendsOnly P) : (q.change change).run.SendsOnly P := by
  have hinsert : (q.willInsert change).run.SendsOnly P := by
    unfold willInsert
    split
    · exact Call.sendsOnly_bind hlook fun _ => trivial
    · trivial
  apply Call.sendsOnly_settled_bind
  intro _ _
  split
  case isTrue h => exact hremove h
  case isFalse h =>
    apply Call.sendsOnly_settled_bind
    intro update hlifted
    refine Call.sendsOnly_bind hinsert fun inserting => ?_
    refine Call.sendsOnly_bind (hupdate (eq_false_of_ne_true h) update hlifted) fun found => ?_
    cases found with
    | some doc => trivial
    | none =>
      dsimp only
      split
      · refine Call.sendsOnly_bind hlook fun created => ?_
        cases created <;> trivial
      · trivial

theorem sendsOnly_apply_of [Destination α] {change : Change} (h : (q.change change).run.SendsOnly P) (previous : α) :
    (q.apply change previous).SendsOnly P := by
  refine h.bind ?_
  rintro (e | ⟨info, _ | v⟩)
  · trivial
  · trivial
  · dsimp only
    split <;> trivial

theorem sendsOnly_applyInfo_of {change : Change} (h : (q.change change).run.SendsOnly P) :
    (q.applyInfo change).run.SendsOnly P := by
  refine Call.sendsOnly_bind h ?_
  rintro ⟨info, found⟩
  trivial

end Query

end DocClient
