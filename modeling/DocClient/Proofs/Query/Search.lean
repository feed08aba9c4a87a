import DocClient.Proofs.Collection.Upkeep
import DocClient.Proofs.Wire.Cursor
import DocClient.Query.Basic

/-! Searches by a filter and in an order, without further options: the command that is sent for one, and
what comes of the replies. Main statements: `exists_plays_one` and `exists_plays_openCursor`. -/
namespace DocClient

/-- A command that searches a collection by a filter, and may state an order. -/
structure Command.Searches (k : Command) (c : Collection) (filter : Document) (order : Option Document) :
    Prop where
  isFor : k.IsFor "find" c
  filter : k.body.get? "filter" = some (.ofDocument filter)
  order : k.body.get? "sort" = order.map .ofDocument

/-- The options of a query that can be written pass the check. -/
theorem Query.checkOptions_of_isWritable {q : Query} (horder : ∀ order ∈ q.order, order.isWritable = true)
    (hprojection : ∀ projection ∈ q.projection, projection.isWritable = true) : q.checkOptions = .ok () := by
  unfold checkOptions Database.checkWritable
  rw [if_pos]
  simpa [or_imp, forall_and] using ⟨horder, hprojection⟩

/-- A filter by one field is lifted with its value read in order. -/
theorem liftDocument_single (name : String) (b : Bson) :
    liftDocument (Document.ofPairs [(name, b)]) = .ok ⟨[(name, b.inboundOrdered.outbound)]⟩ := rfl

namespace Collection

def search (c : Collection) (filter : Document) (order : Option Document) : Query :=
  ⟨c, filter, order, none, 0, 0, none, none⟩

/-- The fields of the command of a search, and some more. -/
def searchFields (c : Collection) (filter : Document) (order : Option Document) (extra : Fields Bson) :
    Fields Bson :=
  [("find", .string c.name), ("filter", .ofDocument filter)] ++
    ((order.map fun order => ("sort", Bson.ofDocument order)).toList ++ extra)

variable {c : Collection} {filter : Document} {order : Option Document}

/-- The command of a search can be sent, and a reader finds the search in it. -/
theorem exists_searchCommand (extra : Fields Bson) (hfilter : filter.isWritable = true)
    (horder : ∀ o ∈ order, o.isWritable = true) (hextra : Bson.fieldsWritable extra = true)
    (hsort : "sort" ∉ Fields.names extra) (readPreference : ReadPreference) :
    ∃ k, c.database.sent readPreference ⟨c.searchFields filter order extra⟩ = .ok k ∧
      k.Searches c filter.written (order.map Document.written) := by
  have hterm : ∀ name ∈ ["find", "filter", "sort"], Bson.isTerminable name = true := by decide
  simp only [List.forall_mem_cons] at hterm
  have hw : (⟨c.searchFields filter order extra⟩ : Document).isWritable = true := by
    have hlast := Bson.fieldsWritable_optional hterm.2.2.1 horder
    have hfields : Bson.fieldsWritable filter.fields = true := hfilter
    simp [Document.isWritable, searchFields, Bson.fieldsWritable, Bson.fieldsWritable_append,
      Bson.isWritable, hterm, hfields, hlast, hextra]
  refine ⟨_, Database.sent_eq_ok _ _ (by simp [searchFields]) hw, ⟨rfl, ?_⟩, ?_, ?_⟩
  · simp [Command.written, Document.written, searchFields, Bson.writtenFields, Bson.written]
  · refine (Document.get?_written _ _).trans ?_
    simp [Document.get?, searchFields]
  · refine (Document.get?_written _ _).trans ?_
    have hnone := Fields.get?_eq_none_iff.mpr hsort
    cases order <;> simp [Document.get?, searchFields, hnone]

/-- A search by a filter alone. -/
theorem body_find (c : Collection) (filter : Document) :
    c.body "find" [("filter", .ofDocument filter)] = ⟨c.searchFields filter none []⟩ :=
  congrArg Document.mk (Fields.collect_of_nodup (show ["find", "filter"].Nodup by decide))

/-- What a search sends before it says how much of the result is wanted. -/
theorem searchBody_search (horder : ∀ o ∈ order, o.isWritable = true) :
    (c.search filter order).searchBody = .ok ⟨c.searchFields filter order []⟩ := by
  have hoptions : (c.search filter order).checkOptions = .ok () := Query.checkOptions_of_isWritable horder nofun
  have hsort : "sort" ∉ Fields.names [("find", Bson.string c.name), ("filter", Bson.ofDocument filter)] :=
    show "sort" ∉ ["find", "filter"] by decide
  unfold Query.searchBody
  rw [hoptions, show (c.search filter order).collection = c from rfl,
    show (c.search filter order).filter = filter from rfl, body_find]
  cases order with
  | none => rfl
  | some o => exact congrArg (fun fields => Except.ok (Document.mk fields)) (Fields.put_of_notMem _ hsort)

theorem allBody_search (horder : ∀ o ∈ order, o.isWritable = true) :
    (c.search filter order).allBody = .ok ⟨c.searchFields filter order []⟩ := by
  unfold Query.allBody
  rw [searchBody_search horder]
  rfl

/-- A search for one document asks for no more. -/
theorem firstBody_searchFields :
    Query.firstBody ⟨c.searchFields filter order []⟩ =
      ⟨c.searchFields filter order [("limit", .int64 1), ("singleBatch", .boolean true)]⟩ := by
  have hlimit : "limit" ∉ Fields.names (c.searchFields filter order []) := by
    cases order <;> simp [searchFields, Fields.names]
  have hsingle : "singleBatch" ∉ Fields.names (c.searchFields filter order [("limit", .int64 1)]) := by
    cases order <;> simp [searchFields, Fields.names]
  have happend : ∀ extra more, c.searchFields filter order extra ++ more =
      c.searchFields filter order (extra ++ more) := by
    intro extra more
    simp [searchFields]
  unfold Query.firstBody Document.put
  rw [Fields.put_of_notMem _ hlimit, happend, List.nil_append, Fields.put_of_notMem _ hsingle, happend]
  rfl

/-- A search for one document gives the first that the reply brings. -/
theorem exists_plays_one (c : Collection) {filter : Document} (order : Option Document)
    (hfilter : filter.isWritable = true) (horder : ∀ o ∈ order, o.isWritable = true) :
    ∃ k : Command, k.Searches c filter.written (order.map Document.written) ∧
      ∀ reply batch doc rest, reply.batch "firstBatch" = .ok batch → batch.documents = doc :: rest →
        ((c.search filter order).one : Call Value).run.Plays [⟨k, .short, reply⟩]
          (.ok (Value.ofDocument doc)) := by
  obtain ⟨k, hk, hsearches⟩ := exists_searchCommand (c := c)
    [("limit", .int64 1), ("singleBatch", .boolean true)] hfilter horder (by decide) (by decide)
    c.database.readPreference
  refine ⟨k, hsearches, ?_⟩
  intro reply batch doc rest hbatch hdocs
  have hpull : Source.pull (Cursor.ofBatch none c.database.rounds batch) =
      .done (.ok (some doc), { Cursor.ofBatch none c.database.rounds batch with batch := rest }) :=
    Cursor.pullWithin_of_cons hdocs
  have hfirst : (c.search filter order).first.run.Plays [⟨k, .short, reply⟩] (.ok (some doc)) := by
    unfold Query.first
    rw [searchBody_search horder, Call.settled_ok_bind]
    unfold Query.searchOne
    rw [Database.openCursor_eq_ask, firstBody_searchFields]
    refine Call.plays_bind.mpr
      (.inr ⟨.ofBatch none c.database.rounds batch, _, [], (List.append_nil _).symm, ?_, ?_⟩)
    · rw [Call.plays_ask]
      exact .inr ⟨k, reply, hk, rfl, by rw [hbatch]; rfl⟩
    · rw [hpull]
      exact .done _
  unfold Query.one
  refine Call.plays_bind.mpr (.inr ⟨(), [], [⟨k, .short, reply⟩], rfl, .done _, ?_⟩)
  exact Call.plays_bind.mpr (.inr ⟨some doc, _, [], (List.append_nil _).symm, hfirst, .done _⟩)

/-- A search opens a cursor to what the reply brings. -/
theorem exists_plays_openCursor (c : Collection) {filter : Document} (order : Option Document)
    (hfilter : filter.isWritable = true) (horder : ∀ o ∈ order, o.isWritable = true) :
    ∃ k : Command, k.Searches c filter.written (order.map Document.written) ∧
      ∀ reply batch, reply.batch "firstBatch" = .ok batch →
        (c.search filter order).openCursor.run.Plays [⟨k, .short, reply⟩]
          (.ok (.ofBatch none c.database.rounds batch)) := by
  obtain ⟨k, hk, hsearches⟩ := exists_searchCommand (c := c) [] hfilter horder rfl (by decide)
    c.database.readPreference
  refine ⟨k, hsearches, ?_⟩
  intro reply batch hbatch
  have hopen : (c.search filter order).openCursor = Call.ask (.ok k) .short fun reply =>
      (reply.batch "firstBatch").map (Cursor.ofBatch none c.database.rounds) := by
    rw [← hk]
    refine Eq.trans ?_ (Database.openCursor_eq_ask _ _ _ _ _)
    unfold Query.openCursor
    rw [allBody_search horder]
    rfl
  rw [hopen, Call.plays_ask]
  exact .inr ⟨k, reply, rfl, rfl, by rw [hbatch]; rfl⟩

end Collection
end DocClient
