import DocClient.Proofs.Collection.Filters
import DocClient.Proofs.Operation

/-! Which documents an operation can reach. Main statement: `settles`, by which an operation either reports
the first argument that is refused and sends nothing, or sends no filters but those that its targets mean. -/
namespace DocClient

/-- The values that select every document. -/
inductive Value.IsVoid : Value → Prop
  | null : IsVoid .null
  | unordered : IsVoid (.unordered [])
  | ordered : IsVoid (.ordered [])
  | other : IsVoid (.other (.document []))

namespace Target

/-- A selector means the document of its lifted value, an identifier a condition on the identifier alone. -/
def Means : Target → Document → Prop
  | selector a, filter => ∃ v, lift a.value = .ok v ∧ v.toDocument = .ok filter
  | identifier _, filter => filter.names = ["_id"]

/-- A target that picks every document. -/
def IsOpen (t : Target) : Prop := ∃ a v, t = selector a ∧ lift a.value = .ok v ∧ v.IsVoid

end Target

def Queueing.targets : Queueing → List Target
  | .update selector _ | .updateAll selector _ | .upsert selector _ => [.selector selector]
  | .remove selector | .removeAll selector => [.selector selector]
  | _ => []

/-- What picks out the documents that an operation reads, updates or deletes. -/
def Operation.targets : Operation → List Target
  | query target _ _ => [target]
  | remove selector | removeAll selector => [.selector selector]
  | removeId id => [.identifier id]
  | update selector _ | updateAll selector _ | upsert selector _ => [.selector selector]
  | updateId id _ => [.identifier id]
  | bulk calls => calls.flatMap Queueing.targets
  | _ => []

section Meaning

variable {a : Given} {filter : Document} {t : Target}

theorem Target.means_selector_iff : (Target.selector a).Means filter ↔ liftDocument a.value = .ok filter := by
  unfold liftDocument
  constructor
  · rintro ⟨v, hlift, hdoc⟩
    rw [hlift]
    exact hdoc
  · intro h
    cases hlift : lift a.value with
    | error e =>
      rw [hlift] at h
      cases h
    | ok v =>
      rw [hlift] at h
      exact ⟨v, hlift, h⟩

theorem idFilter_eq_ok_iff {α : Type} [Argument α] {id : α} :
    idFilter id = .ok filter ↔ ∃ v, lift id = .ok v ∧ filter = .ofPairs [("_id", v.outbound)] := by
  unfold idFilter
  cases lift id with
  | error e => simp [bind, Except.bind]
  | ok v => simp [bind, Except.bind, eq_comm]

theorem Target.exists_means (c : Collection) (h : t.argument.refusal = none) :
    ∃ filter, t.Means filter ∧ (t.find c).filter = filter := by
  cases t with
  | selector a =>
    have hlift : errorOf (liftDocument a.value) = none := (errorOf_liftDocument a.value).trans h
    obtain ⟨filter, hfilter⟩ := errorOf_eq_none_iff.mp hlift
    refine ⟨filter, means_selector_iff.mpr hfilter, ?_⟩
    unfold find Collection.find
    dsimp only
    rw [hfilter]
    rfl
  | identifier a =>
    have hlift : errorOf (idFilter a.value) = none := (errorOf_idFilter a.value).trans h
    obtain ⟨filter, hfilter⟩ := errorOf_eq_none_iff.mp hlift
    have hnames : filter.names = ["_id"] := by
      obtain ⟨v, -, rfl⟩ := idFilter_eq_ok_iff.mp hfilter
      rfl
    refine ⟨filter, hnames, ?_⟩
    unfold find Collection.findId
    dsimp only
    rw [hfilter]
    rfl

/-- The filter of an identifier is lifted once more, and stays a condition on the identifier alone. -/
theorem liftDocument_of_idFilter {α : Type} [Argument α] {id : α} (h : idFilter id = .ok filter) :
    ∃ again, liftDocument filter = .ok again ∧ again.names = ["_id"] := by
  obtain ⟨v, -, rfl⟩ := idFilter_eq_ok_iff.mp h
  exact ⟨_, rfl, rfl⟩

/-- Only null and documents without fields become the empty document. -/
theorem Value.isVoid_of_toDocument {v : Value} (h : v.toDocument = .ok .empty) : v.IsVoid := by
  have hcollect : ∀ pairs : Fields Bson, Fields.collect pairs = [] → pairs = [] := by
    intro pairs hpairs
    cases pairs with
    | nil => rfl
    | cons p rest =>
      have hlast : Fields.last? (p :: rest) p.1 = none := by
        rw [← Fields.get?_collect, hpairs]
        rfl
      exact absurd (List.mem_cons_self ..) (Fields.last?_eq_none_iff.mp hlast)
  have hfields : ∀ fields : Fields Value, Value.outboundFields fields = [] → fields = [] := by
    intro fields hfields
    cases fields with
    | nil => rfl
    | cons p rest => cases hfields
  cases v with
  | null => exact .null
  | unordered fields =>
    rw [hfields fields (congrArg Document.fields (Except.ok.inj h))]
    exact .unordered
  | ordered pairs =>
    rw [hfields pairs (hcollect _ (congrArg Document.fields (Except.ok.inj h)))]
    exact .ordered
  | other b =>
    cases b with
    | document fields =>
      obtain rfl : fields = [] := congrArg Document.fields (Except.ok.inj h)
      exact .other
    | _ => cases h
  | _ => cases h

theorem Target.isOpen_of_means_empty (h : t.Means .empty) : t.IsOpen := by
  cases t with
  | selector a =>
    obtain ⟨v, hlift, hdoc⟩ := h
    exact ⟨a, v, rfl, hlift, Value.isVoid_of_toDocument hdoc⟩
  | identifier a => cases h

theorem Target.exists_of_means {targets : List Target} {filters : List Document}
    (h : List.Forall₂ Target.Means targets filters) (hmem : filter ∈ filters) : ∃ t ∈ targets, t.Means filter := by
  induction h with
  | nil => cases hmem
  | @cons t first targets filters hmeans hrest ih =>
    rcases List.mem_cons.mp hmem with rfl | hmem
    · exact ⟨t, List.mem_cons_self .., hmeans⟩
    · obtain ⟨t', ht', hmeans'⟩ := ih hmem
      exact ⟨t', List.mem_cons_of_mem _ ht', hmeans'⟩

theorem Document.eq_empty_of_written (h : filter.written = .empty) : filter = .empty := by
  obtain ⟨fields⟩ := filter
  cases fields with
  | nil => rfl
  | cons p rest => cases congrArg Document.fields h

end Meaning

section Sending

variable {α β γ : Type} {filter : Document} {P : Command → Prop}

theorem Call.sendsOnly_report {c : Call α} (h : c.run.SendsOnly P) : c.report.SendsOnly P :=
  h.bind fun _ => trivial

/-- A deletion of what a selector picks, whatever is reported of it. -/
theorem Collection.sendsOnly_delete [Argument α] (c : Collection) {selector : α}
    (h : liftDocument selector = .ok filter) (multi : Bool) (report : Nat → γ) :
    (Call.settled (liftDocument selector) >>= fun filter =>
      c.deleteMatches filter multi >>= fun n => pure (report n)).run.SendsOnly (Command.Picks filter) := by
  rw [h, Call.settled_ok_bind]
  exact Call.sendsOnly_bind (c.sendsOnly_deleteMatches filter multi) fun _ => trivial

/-- An update of what a selector picks, whatever is reported of it. -/
theorem Collection.sendsOnly_update [Argument α] [Argument β] (c : Collection) {selector : α}
    (h : liftDocument selector = .ok filter) (changes : β) (multi upsert : Bool) (report : UpdateResult → γ) :
    (Call.settled (liftDocument selector) >>= fun filter =>
      Call.settled (updateDocument changes) >>= fun update =>
        c.updateMatches filter update multi upsert >>= fun result =>
          pure (report result)).run.SendsOnly (Command.Picks filter) := by
  rw [h, Call.settled_ok_bind]
  apply Call.sendsOnly_settled_bind
  intro update _
  exact Call.sendsOnly_bind (c.sendsOnly_updateMatches filter update multi upsert) fun _ => trivial

theorem Ending.sendsOnly_perform (q : Query) (ending : Ending) :
    (ending.perform q).SendsOnly (Command.Selects [q.filter]) := by
  cases ending with
  | one α => exact Program.SendsOnly.bind q.searching_filter.sendsOnly_one fun _ => trivial
  | all previous => exact (q.searching_filter.sendsOnly_all previous).bind fun _ => trivial
  | count => exact Program.SendsOnly.bind q.sendsOnly_count fun _ => trivial
  | iter => exact q.searching_filter.sendsOnly_iter.bind fun _ => trivial
  | apply change previous => exact (Query.sendsOnly_apply_of (q.sendsOnly_change change) previous).bind fun _ => trivial
  | applyInfo change =>
    exact Program.SendsOnly.bind (Query.sendsOnly_applyInfo_of (q.sendsOnly_change change)) fun _ => trivial

end Sending

section Queues

variable {b : Bulk}

/-- The filters of the operations in a queue. -/
def Bulk.filters (b : Bulk) : List Document := b.ops.filterMap WriteOp.filter?

theorem Bulk.filters_push (b : Bulk) (op : WriteOp) :
    (b.push op).filters = b.filters ++ op.filter?.toList := by
  unfold filters push
  rw [List.filterMap_append]
  cases op <;> rfl

theorem Bulk.filters_insert {α : Type} [Argument α] (b : Bulk) (fresh : Nat → Oid) (docs : List α) :
    (b.insert fresh docs).filters = b.filters := by
  have hone : ∀ (b : Bulk) (fresh : Oid) (doc : α), (b.insertOne fresh doc).filters = b.filters := by
    intro b fresh doc
    unfold insertOne
    cases liftDocument doc with
    | error e => rfl
    | ok doc => exact (b.filters_push _).trans (List.append_nil _)
  unfold insert
  generalize docs.zipIdx = numbered
  induction numbered generalizing b with
  | nil => rfl
  | cons p rest ih => exact (ih _).trans (hone _ _ _)

theorem Bulk.filters_queueUpdate (b : Bulk) {selector changes : Given} (multi upsert : Bool)
    (h : [Arg.document selector, .document changes].findSome? Arg.refusal = none) :
    ∃ filter, (Target.selector selector).Means filter ∧
      (b.queueUpdate selector.value changes.value multi upsert).filters = b.filters ++ [filter] := by
  rw [findSome?_pair, Option.or_eq_none_iff, ← errorOf_liftDocument selector.value,
    ← errorOf_liftDocument changes.value, errorOf_eq_none_iff, errorOf_eq_none_iff] at h
  obtain ⟨⟨filter, hfilter⟩, ⟨update, hupdate⟩⟩ := h
  refine ⟨filter, Target.means_selector_iff.mpr hfilter, ?_⟩
  unfold queueUpdate
  rw [hfilter, hupdate]
  exact b.filters_push _

theorem Bulk.filters_queueDelete (b : Bulk) {selector : Given} (multi : Bool)
    (h : [Arg.document selector].findSome? Arg.refusal = none) :
    ∃ filter, (Target.selector selector).Means filter ∧
      (b.queueDelete selector.value multi).filters = b.filters ++ [filter] := by
  rw [List.findSome?_singleton, ← errorOf_liftDocument selector.value, errorOf_eq_none_iff] at h
  obtain ⟨filter, hfilter⟩ := h
  refine ⟨filter, Target.means_selector_iff.mpr hfilter, ?_⟩
  unfold queueDelete
  rw [hfilter]
  exact b.filters_push _

/-- A call that queues something adds the filters that its targets mean. -/
theorem Queueing.exists_means (b : Bulk) (call : Queueing) (h : call.arguments.findSome? Arg.refusal = none) :
    ∃ filters, List.Forall₂ Target.Means call.targets filters ∧ (call.queue b).filters = b.filters ++ filters := by
  have hsingle : ∀ {selector : Given} {b' : Bulk},
      (∃ filter, (Target.selector selector).Means filter ∧ b'.filters = b.filters ++ [filter]) →
        ∃ filters, List.Forall₂ Target.Means [Target.selector selector] filters ∧
          b'.filters = b.filters ++ filters := by
    rintro selector b' ⟨filter, hmeans, hfilters⟩
    exact ⟨[filter], .cons hmeans .nil, hfilters⟩
  cases call with
  | insert fresh docs => exact ⟨[], .nil, (b.filters_insert fresh docs).trans (List.append_nil _).symm⟩
  | update selector changes => exact hsingle (b.filters_queueUpdate false false h)
  | updateAll selector changes => exact hsingle (b.filters_queueUpdate true false h)
  | upsert selector changes => exact hsingle (b.filters_queueUpdate false true h)
  | remove selector => exact hsingle (b.filters_queueDelete false h)
  | removeAll selector => exact hsingle (b.filters_queueDelete true h)
  | unordered => exact ⟨[], .nil, (List.append_nil _).symm⟩

theorem exists_means_foldl_queue (calls : List Queueing) (b : Bulk)
    (h : (calls.flatMap Queueing.arguments).findSome? Arg.refusal = none) :
    ∃ filters, List.Forall₂ Target.Means (calls.flatMap Queueing.targets) filters ∧
      (calls.foldl Queueing.queue b).filters = b.filters ++ filters := by
  induction calls generalizing b with
  | nil => exact ⟨[], .nil, (List.append_nil _).symm⟩
  | cons call rest ih =>
    rw [List.flatMap_cons, List.findSome?_append, Option.or_eq_none_iff] at h
    obtain ⟨first, hfirst, hqueue⟩ := call.exists_means b h.1
    obtain ⟨others, hothers, hfold⟩ := ih (call.queue b) h.2
    refine ⟨first ++ others, ?_, ?_⟩
    · rw [List.flatMap_cons]
      exact List.rel_append hfirst hothers
    · rw [List.foldl_cons, hfold, hqueue, List.append_assoc]

end Queues

namespace Operation

variable {op : Operation} {c : Collection}

/-- An operation of which nothing is refused sends the filters that its targets mean, and no others. -/
theorem exists_selects (h : op.refusal = none) :
    ∃ filters, List.Forall₂ Target.Means op.targets filters ∧
      (op.targets ≠ [] → (op.perform c).SendsOnly (Command.Selects filters)) := by
  unfold refusal at h
  have hsingle : ∀ {t : Target} {filter : Document} {p : Program (Except Error Unit)}, t.Means filter →
      p.SendsOnly (Command.Selects [filter]) → ∃ filters, List.Forall₂ Target.Means [t] filters ∧
        ([t] ≠ [] → p.SendsOnly (Command.Selects filters)) :=
    fun {t filter p} hmeans hsends => ⟨[filter], .cons hmeans .nil, fun _ => hsends⟩
  have hpicked : ∀ {t : Target} {filter : Document} {p : Program (Except Error Unit)}, t.Means filter →
      p.SendsOnly (Command.Picks filter) → ∃ filters, List.Forall₂ Target.Means [t] filters ∧
        ([t] ≠ [] → p.SendsOnly (Command.Selects filters)) :=
    fun {t filter p} hmeans hsends => hsingle hmeans (hsends.mono fun _ => Command.Picks.selects)
  -- Of whatever else is given, nothing but the selector decides the filter.
  have hselector : ∀ (a : Given) (rest : List Arg), (Arg.document a :: rest).findSome? Arg.refusal = none →
      ∃ filter, liftDocument a.value = .ok filter := by
    intro a rest ha
    have hrefusal : (Arg.document a).refusal = none := List.findSome?_eq_none_iff.mp ha _ (List.mem_cons_self ..)
    exact errorOf_eq_none_iff.mp ((errorOf_liftDocument a.value).trans hrefusal)
  have hidentifier : ∀ (a : Given) (rest : List Arg), (Arg.value a :: rest).findSome? Arg.refusal = none →
      ∃ filter again, idFilter a.value = .ok filter ∧ liftDocument filter = .ok again ∧
        again.names = ["_id"] := by
    intro a rest ha
    have hrefusal : (Arg.value a).refusal = none := List.findSome?_eq_none_iff.mp ha _ (List.mem_cons_self ..)
    obtain ⟨filter, hfilter⟩ := errorOf_eq_none_iff.mp ((errorOf_idFilter a.value).trans hrefusal)
    obtain ⟨again, hagain, hnames⟩ := liftDocument_of_idFilter hfilter
    exact ⟨filter, again, hfilter, hagain, hnames⟩
  cases op with
  | insert fresh docs => exact ⟨[], .nil, fun hne => absurd rfl hne⟩
  | query target refinements ending =>
    have htarget : target.argument.refusal = none := List.findSome?_eq_none_iff.mp h _ (List.mem_cons_self ..)
    obtain ⟨filter, hmeans, hfind⟩ := target.exists_means c htarget
    have hfilter : (refinements.foldl Refinement.refine (target.find c)).filter = filter :=
      (foldl_refine_frame refinements _).2.trans hfind
    refine hsingle hmeans ?_
    rw [← hfilter]
    exact ending.sendsOnly_perform _
  | remove selector =>
    obtain ⟨filter, hfilter⟩ := hselector selector _ h
    exact hpicked (Target.means_selector_iff.mpr hfilter)
      (Call.sendsOnly_report (c.sendsOnly_delete hfilter false fun _ => ()))
  | removeId id =>
    obtain ⟨filter, again, hfilter, hagain, hnames⟩ := hidentifier id _ h
    have hsends : (c.remove filter).report.SendsOnly (Command.Picks again) :=
      Call.sendsOnly_report (c.sendsOnly_delete hagain false fun _ => ())
    rw [← c.removeId_of_idFilter hfilter] at hsends
    exact hpicked hnames hsends
  | removeAll selector =>
    obtain ⟨filter, hfilter⟩ := hselector selector _ h
    exact hpicked (Target.means_selector_iff.mpr hfilter)
      (Call.sendsOnly_report (c.sendsOnly_delete hfilter true _))
  | update selector changes =>
    obtain ⟨filter, hfilter⟩ := hselector selector _ h
    exact hpicked (Target.means_selector_iff.mpr hfilter)
      (Call.sendsOnly_report (c.sendsOnly_update hfilter changes.value false false fun _ => ()))
  | updateId id changes =>
    obtain ⟨filter, again, hfilter, hagain, hnames⟩ := hidentifier id _ h
    have hsends : (c.update filter changes.value).report.SendsOnly (Command.Picks again) :=
      Call.sendsOnly_report (c.sendsOnly_update hagain changes.value false false fun _ => ())
    rw [← c.updateId_of_idFilter hfilter] at hsends
    exact hpicked hnames hsends
  | updateAll selector changes =>
    obtain ⟨filter, hfilter⟩ := hselector selector _ h
    exact hpicked (Target.means_selector_iff.mpr hfilter)
      (Call.sendsOnly_report (c.sendsOnly_update hfilter changes.value true false _))
  | upsert selector changes =>
    obtain ⟨filter, hfilter⟩ := hselector selector _ h
    exact hpicked (Target.means_selector_iff.mpr hfilter)
      (Call.sendsOnly_report (c.sendsOnly_update hfilter changes.value false true _))
  | bulk calls =>
    obtain ⟨filters, hmeans, hfold⟩ := exists_means_foldl_queue calls c.bulk h
    refine ⟨filters, hmeans, fun _ => ?_⟩
    have hsends := (calls.foldl Queueing.queue c.bulk).sendsOnly_run
    have hfilters : (calls.foldl Queueing.queue c.bulk).ops.filterMap WriteOp.filter? = filters := hfold
    rw [hfilters] at hsends
    exact Call.sendsOnly_report hsends
  | pipe stages settings outlet => exact ⟨[], .nil, fun hne => absurd rfl hne⟩
  | run α command => exact ⟨[], .nil, fun hne => absurd rfl hne⟩

/-- What an operation does with what it is given. -/
structure Settles (op : Operation) (c : Collection) : Prop where
  /-- The first argument that is refused is reported, and nothing is sent. -/
  refused : ∀ e, op.refusal = some e → op.perform c = .done (.error e)
  /-- Otherwise every command that is sent has the filters that the targets mean. -/
  selects : op.refusal = none → ∃ filters, List.Forall₂ Target.Means op.targets filters ∧
    (op.targets ≠ [] → (op.perform c).SendsOnly (Command.Selects filters))
  /-- The filter that every document matches is sent only for a selector that is null or empty. -/
  narrow : op.targets ≠ [] → (op.perform c).SendsOnly fun k =>
    some .empty ∈ k.filters → ∃ t ∈ op.targets, t.IsOpen

/-- Every call may follow one reply at least; an iterator that has failed is drained in one round. -/
theorem settles (hrounds : 0 < c.database.rounds) (op : Operation) : op.Settles c := by
  constructor
  case refused => exact fun e h => perform_of_refusal hrounds h
  case selects => exact exists_selects
  case narrow =>
    intro htargets
    cases h : op.refusal with
    | some e =>
      rw [perform_of_refusal hrounds h]
      trivial
    | none =>
      obtain ⟨filters, hmeans, hsends⟩ := exists_selects h
      refine (hsends htargets).mono fun k hk hempty => ?_
      obtain ⟨filter, hfilter, hwritten⟩ := List.mem_map.mp (hk.subset hempty)
      obtain ⟨t, ht, htmeans⟩ := Target.exists_of_means hmeans hfilter
      refine ⟨t, ht, Target.isOpen_of_means_empty ?_⟩
      rwa [Document.eq_empty_of_written (Option.some.inj hwritten)] at htmeans

/-- A deletion by a number, queued behind an update of everything. -/
def brokenQueue : Operation := bulk
  [.updateAll ⟨Value, .null⟩ ⟨Value, .unordered [("a", .int32 1)]⟩, .removeAll ⟨Value, .int32 5⟩]

theorem brokenQueue_settles : brokenQueue.refusal = some (.invalidArgument (.notDocument (.int32 5))) ∧
    brokenQueue.Settles ⟨⟨"app", .primary, none, 1⟩, "people"⟩ :=
  ⟨rfl, settles (by decide) brokenQueue⟩

end Operation
end DocClient
