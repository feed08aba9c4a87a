import DocClient.Proofs.Collection.Batches
import DocClient.Proofs.Collection.Carrying

/-! The filters in the commands of a collection. Whatever a request makes of a filter, every command that it
sends holds this filter and no other: `sendsOnly_updateMatches` and its like, `Query.sendsOnly_change`,
`Bulk.sendsOnly_run`. -/
namespace DocClient

namespace Command

/-- The filters in a command, as a reader finds them. Insertions and requests for further batches have none;
a command of any other name is one whose filter cannot be read. -/
def filters (k : Command) : List (Option Document) :=
  match k.body.names.head? with
  | some "find" => [(Bson.ofDocument k.body).documentIn "filter"]
  | some "findAndModify" => [(Bson.ofDocument k.body).documentIn "query"]
  | some "aggregate" => [(k.body.itemsUnder "pipeline").head?.bind (·.documentIn "$match")]
  | some "update" => (k.body.itemsUnder "updates").map (·.documentIn "q")
  | some "delete" => (k.body.itemsUnder "deletes").map (·.documentIn "q")
  | some "insert" => []
  | some "getMore" => []
  | _ => [none]

/-- A command has one filter. -/
def Picks (filter : Document) (k : Command) : Prop := k.filters = [some filter.written]

/-- The filters in a command are some documents that follow one another. -/
def Selects (filters : List Document) (k : Command) : Prop :=
  k.filters <:+: filters.map fun filter => some filter.written

end Command

section Selecting

variable {k : Command} {filter : Document} {filters : List Document}

theorem Command.Picks.selects (h : k.Picks filter) : k.Selects [filter] := by
  unfold Selects
  rw [h]
  exact List.infix_rfl

theorem Command.selects_of_filters_eq_nil (h : k.filters = []) (filters : List Document) :
    k.Selects filters := by
  unfold Selects
  rw [h]
  exact List.nil_infix

theorem Command.selects_find (h : k.body.Carries "find" "filter" (Bson.ofDocument filter).written) :
    k.Selects [filter] := by
  apply Picks.selects
  simp [Picks, Command.filters, h.command, Bson.documentIn, h.field]

theorem Command.selects_findAndModify
    (h : k.body.Carries "findAndModify" "query" (Bson.ofDocument filter).written) : k.Selects [filter] := by
  apply Picks.selects
  simp [Picks, Command.filters, h.command, Bson.documentIn, h.field]

theorem Command.selects_aggregate {stages : List Bson}
    (h : k.body.Carries "aggregate" "pipeline"
      (Bson.array (.document [("$match", .ofDocument filter)] :: stages)).written) : k.Selects [filter] := by
  have hfirst : (Bson.document [("$match", Bson.ofDocument filter)]).documentIn "$match" = some filter := rfl
  apply Picks.selects
  simp [Picks, Command.filters, h.command, h.itemsUnder, Bson.documentIn_written, hfirst]

/-- A command that carries one update or deletion has its filter. -/
theorem Command.picks_write {kind : WriteKind} (hkind : kind ≠ .insert) {entry : Document}
    (h : k.body.Carries kind.command kind.listName (Bson.array [.ofDocument entry]).written)
    (hentry : entry.get? "q" = some (.ofDocument filter)) : k.Picks filter := by
  have hfilter : (Bson.ofDocument entry).documentIn "q" = some filter := by simp [Bson.documentIn, hentry]
  have hread : (k.body.itemsUnder kind.listName).map (·.documentIn "q") = [some filter.written] := by
    rw [h.itemsUnder, List.map_singleton, List.map_singleton, Bson.documentIn_written, hfilter]
    rfl
  have hcommand := h.command
  unfold Picks filters
  rw [hcommand]
  cases kind with
  | insert => exact absurd rfl hkind
  | update => exact hread
  | delete => exact hread

/-- A command that carries writes has the filters of its entries, in their order. -/
theorem Command.selects_writes (kind : WriteKind) {entries : List Bson}
    (h : k.body.Carries kind.command kind.listName (Bson.array entries).written)
    (hentries : kind ≠ .insert → entries.map (·.documentIn "q") <:+: filters.map some) :
    k.Selects filters := by
  have hselects : kind ≠ .insert →
      (k.body.itemsUnder kind.listName).map (·.documentIn "q") <:+:
        filters.map fun filter => some filter.written := by
    intro hkind
    have hinfix := (hentries hkind).map (Option.map Document.written)
    rw [List.map_map, List.map_map] at hinfix
    rw [h.itemsUnder, List.map_map]
    have hread : ((·.documentIn "q") ∘ Bson.written) = Option.map Document.written ∘ (·.documentIn "q") :=
      funext fun b => b.documentIn_written "q"
    rwa [hread]
  have hcommand := h.command
  cases kind with
  | insert => exact selects_of_filters_eq_nil (by simp [Command.filters, hcommand, WriteKind.command]) _
  | update =>
    unfold Selects Command.filters
    rw [hcommand]
    exact hselects (by decide)
  | delete =>
    unfold Selects Command.filters
    rw [hcommand]
    exact hselects (by decide)

/-- Further batches are asked for without a filter. -/
theorem Command.selects_getMore (filters : List Document) {k : Command} (h : k.body.names.head? = some "getMore") :
    k.Selects filters := by
  apply selects_of_filters_eq_nil
  simp [Command.filters, h]

end Selecting

/-! ### Requests of a collection -/

section Requests

variable {filter : Document}

theorem Collection.sendsOnly_updateMatches (c : Collection) (filter update : Document) (multi upsert : Bool) :
    (c.updateMatches filter update multi upsert).run.SendsOnly (Command.Picks filter) := by
  apply c.sendsOnly_updateMatches_of
  intro _ k entry hfilter _ hk
  exact Command.picks_write (show WriteKind.update ≠ .insert by decide) hk hfilter

theorem Collection.sendsOnly_deleteMatches (c : Collection) (filter : Document) (multi : Bool) :
    (c.deleteMatches filter multi).run.SendsOnly (Command.Picks filter) := by
  refine Call.sendsOnly_bind (c.sendsOnly_write .short "deletes" readWrite rfl (by decide) ?_) ?_
  · intro k hk
    exact Command.picks_write (show WriteKind.delete ≠ .insert by decide) hk rfl
  · rintro ⟨n, trouble⟩
    exact Call.sendsOnly_settled_bind fun _ _ => trivial

theorem Collection.sendsOnly_countMatches (c : Collection) (filter : Document) (skip limit : Option Int64) :
    (c.countMatches filter skip limit).run.SendsOnly (Command.Selects [filter]) := by
  unfold countMatches
  simp only [Database.concernedCommand_eq_ask]
  refine Call.sendsOnly_bind (Call.sendsOnly_ask ?_) fun _ => trivial
  intro k hk
  exact Command.selects_aggregate ((c.carries_body rfl).concerned (show "pipeline" ≠ "writeConcern" by decide) hk)

theorem Collection.sendsOnly_findAndModify (c : Collection) (filter : Document) {fields : Fields Bson}
    (h : "query" ∉ Fields.names fields) :
    (c.findAndModify filter fields).run.SendsOnly (Command.Selects [filter]) := by
  have hget : Fields.last? (("query", .ofDocument filter) :: fields) "query" = some (.ofDocument filter) := by
    rw [Fields.last?_cons, Fields.last?_eq_none_iff.mpr h]
    rfl
  exact c.sendsOnly_findAndModify_of hget (by decide) fun k hk => Command.selects_findAndModify hk

end Requests

/-! ### Queries -/

namespace Query

variable {α : Type}

/-- The searches of a query carry its filter. -/
theorem searching_filter (q : Query) :
    q.Searching (Command.Selects [q.filter]) "filter" (.ofDocument q.filter) where
  carries _ h := carries_searchBody h
  bounds := by decide
  search _ h := Command.selects_find h
  more _ h := Command.selects_getMore _ h

theorem sendsOnly_firstOfFilter (q : Query) : q.firstOfFilter.run.SendsOnly (Command.Selects [q.filter]) :=
  sendsOnly_firstOfFilter_of q.searching_filter.search q.searching_filter.more

theorem sendsOnly_count (q : Query) : q.count.run.SendsOnly (Command.Selects [q.filter]) := by
  apply Call.sendsOnly_settled_bind
  intro _ _
  split
  · exact q.collection.sendsOnly_countMatches _ _ _
  · trivial

theorem sendsOnly_change (q : Query) (change : Change) :
    (q.change change).run.SendsOnly (Command.Selects [q.filter]) := by
  have horder : "query" ∉ Fields.names q.orderField := by
    unfold orderField
    cases q.order <;> simp
  refine sendsOnly_change_of q.sendsOnly_firstOfFilter ?_ ?_
  · intro _
    apply Call.sendsOnly_settled_bind
    intro _ _
    refine Call.sendsOnly_bind (q.collection.sendsOnly_findAndModify q.filter ?_) fun found => ?_
    · simpa using horder
    · cases found <;> trivial
  · intro _ update _
    apply Call.sendsOnly_settled_bind
    intro _ _
    apply Call.sendsOnly_settled_bind
    intro _ _
    apply q.collection.sendsOnly_findAndModify q.filter
    cases q.projection <;> simpa [Fields.names] using horder

end Query

/-! ### Batches -/

def WriteOp.filter? : WriteOp → Option Document
  | .insert _ => none
  | .update filter .. => some filter
  | .delete filter _ => some filter

namespace Bulk

variable {kind : WriteKind} {batch ops : List WriteOp} {offset : Nat} {batches : List (Nat × List WriteOp)}

/-- The command of a batch is named for its kind, and carries the operations. -/
theorem carries_batchFields (collection : String) (kind : WriteKind) (batch : List WriteOp) (ordered : Bool)
    (extra : Fields Bson) :
    Document.Carries ⟨batchFields collection kind batch ordered ++ extra⟩ kind.command kind.listName
      (.array (batch.map fun op => .ofDocument op.entry)) :=
  ⟨rfl, by cases kind <;> rfl⟩

theorem filters_of_isBatch (h : IsBatch kind batch) (hkind : kind ≠ .insert) :
    (batch.map fun op => Bson.ofDocument op.entry).map (·.documentIn "q") =
      (batch.filterMap WriteOp.filter?).map some := by
  have hops : ∀ op ∈ batch, op.kind ≠ .insert := fun op hop => h.uniform op hop ▸ hkind
  clear h
  induction batch with
  | nil => rfl
  | cons op rest ih =>
    obtain ⟨hop, hrest⟩ := List.forall_mem_cons.mp hops
    have ih' := ih hrest
    cases op with
    | insert doc => exact absurd rfl hop
    | update filter changes multi upsert => exact congrArg (some filter :: ·) ih'
    | delete filter multi => exact congrArg (some filter :: ·) ih'

theorem sendsOnly_runBatches (b : Bulk) (h : Splits offset batches ops) (hops : ops <:+ b.ops) (p : Progress) :
    (b.runBatches batches p).run.SendsOnly (Command.Selects (b.ops.filterMap WriteOp.filter?)) := by
  induction h generalizing p with
  | nil offset => trivial
  | @cons offset kind batch rest ops batch_ok rest_ok ih =>
    have hrest : ops <:+ b.ops := (List.suffix_append batch ops).trans hops
    have hbatch : batch <:+: b.ops := (List.prefix_append batch ops).isInfix.trans hops.isInfix
    apply Call.sendsOnly_settled_bind
    intro body hbody
    rw [batchCommand_eq batch_ok.nonempty batch_ok.uniform] at hbody
    have hcarries : body.Carries kind.command kind.listName
        (.array (batch.map fun op => .ofDocument op.entry)) := by
      cases hextra : concernFields b.collection.database.writeConcern with
      | error e =>
        rw [hextra] at hbody
        cases hbody
      | ok extra =>
        rw [hextra] at hbody
        rw [← Except.ok.inj hbody]
        exact carries_batchFields ..
    have hsend : (b.collection.database.command .long body .primary).run.SendsOnly
        (Command.Selects (b.ops.filterMap WriteOp.filter?)) := by
      rw [Database.command_eq_ask]
      refine Call.sendsOnly_ask fun k hk => Command.selects_writes kind (hcarries.sent hk) fun hkind => ?_
      rw [filters_of_isBatch batch_ok hkind]
      exact (hbatch.filterMap WriteOp.filter?).map some
    refine Call.sendsOnly_bind (hsend.bind fun _ => trivial) fun outcome => ?_
    apply Call.sendsOnly_settled_bind
    intro after _
    split
    · trivial
    · exact ih hrest after

theorem sendsOnly_run (b : Bulk) :
    b.run.run.SendsOnly (Command.Selects (b.ops.filterMap WriteOp.filter?)) := by
  unfold run
  split
  · trivial
  · refine Call.sendsOnly_bind (b.sendsOnly_runBatches (splits_batches b.ops) List.suffix_rfl _) fun p => ?_
    split <;> trivial

end Bulk
end DocClient
