import DocClient.Collection.Bulk
import DocClient.Proofs.Query.Iteration
import DocClient.Proofs.Refusal
import DocClient.Query.Change
import DocClient.Query.Pipeline

/-! Operations as callers state them: what they are given, in its order, and what they do. Main statement:
`perform_of_refusal`, by which an operation that was given anything that is refused does nothing but say so. -/
namespace DocClient

/-- What picks documents out. -/
inductive Target : Type 1
  | selector (a : Given)
  | identifier (a : Given)

/-- What is said of a query before it is carried out. -/
inductive Refinement : Type 1
  | sort (fields : List String)
  | select (projection : Given)
  | skip (n : UInt64)
  | limit (n : Int64)
  | batch (n : UInt32)

inductive Ending : Type 1
  | one (α : Type) [Destination α]
  | all {α : Type} [Destination α] (previous : List α)
  | count
  | iter
  | apply {α : Type} [Destination α] (change : Change) (previous : α)
  | applyInfo (change : Change)

inductive Queueing : Type 1
  | insert {α : Type} [Argument α] (fresh : Nat → Oid) (docs : List α)
  | update (selector changes : Given)
  | updateAll (selector changes : Given)
  | upsert (selector changes : Given)
  | remove (selector : Given)
  | removeAll (selector : Given)
  | unordered

inductive Setting
  | allowDiskUse
  | batch (n : UInt32)
  | maxTime (millis : UInt64)
  | collation (c : Collation)

inductive Outlet : Type 1
  | iter
  | all {α : Type} [Destination α] (previous : List α)
  | one {α : Type} [Destination α] (previous : α)
  | explain (α : Type) [Destination α]

inductive Operation : Type 1
  | insert {α : Type} [Argument α] (fresh : Nat → Oid) (docs : List α)
  | query (target : Target) (refinements : List Refinement) (ending : Ending)
  | remove (selector : Given)
  | removeId (id : Given)
  | removeAll (selector : Given)
  | update (selector changes : Given)
  | updateId (id changes : Given)
  | updateAll (selector changes : Given)
  | upsert (selector changes : Given)
  | bulk (calls : List Queueing)
  | pipe (stages : Given) (settings : List Setting) (outlet : Outlet)
  | run (α : Type) [Destination α] (command : Given)

/-! ### What is given -/

def documentsGiven {α : Type} [Argument α] (docs : List α) : List Arg := docs.map fun doc => .document ⟨α, doc⟩

def Target.argument : Target → Arg
  | .selector a => .document a
  | .identifier a => .value a

def Refinement.arguments : Refinement → List Arg
  | .sort fields => fields.map .sortField
  | .select projection => [.document projection]
  | _ => []

def Queueing.arguments : Queueing → List Arg
  | @Queueing.insert _ _ _ docs => documentsGiven docs
  | .update selector changes | .updateAll selector changes | .upsert selector changes =>
    [.document selector, .document changes]
  | .remove selector | .removeAll selector => [.document selector]
  | .unordered => []

namespace Operation

/-- What an operation is given, in the order in which it is settled. -/
def arguments : Operation → List Arg
  | @insert _ _ _ docs => documentsGiven docs
  | query target refinements _ => target.argument :: refinements.flatMap Refinement.arguments
  | remove selector | removeAll selector => [.document selector]
  | removeId id => [.value id]
  | update selector changes | updateAll selector changes | upsert selector changes =>
    [.document selector, .value changes]
  | updateId id changes => [.value id, .value changes]
  | bulk calls => calls.flatMap Queueing.arguments
  | pipe stages _ _ => [.stages stages]
  | run _ command => [.document command]

/-- The first error that an argument of the operation is refused with. -/
def refusal (op : Operation) : Option Error := op.arguments.findSome? Arg.refusal

end Operation

/-! ### What is done -/

/-- What a call reports, whatever it gives. -/
def Call.report {α : Type} (c : Call α) : Program (Except Error Unit) :=
  c.run.bind fun r => .done (r.map fun _ => ())

def Target.find (c : Collection) : Target → Query
  | .selector a => c.find a.value
  | .identifier a => c.findId a.value

def Refinement.refine (q : Query) : Refinement → Query
  | .sort fields => q.sort fields
  | .select projection => q.select projection.value
  | .skip n => q.skip n
  | .limit n => q.limit n
  | .batch n => q.batch n

/-- Carries a query out. An iterator reports what it has recorded when it is returned. -/
def Ending.perform (q : Query) : Ending → Program (Except Error Unit)
  | @Ending.one α _ => (q.one : Call α).report
  | @Ending.all _ _ previous => (q.all previous).bind fun r => .done r.1
  | .count => q.count.report
  | .iter => q.iter.bind fun it => .done it.report
  | @Ending.apply _ _ change previous => (q.apply change previous).bind fun r => .done (r.1.map fun _ => ())
  | .applyInfo change => (q.applyInfo change).report

def Queueing.queue (b : Bulk) : Queueing → Bulk
  | @Queueing.insert _ _ fresh docs => b.insert fresh docs
  | .update selector changes => b.update selector.value changes.value
  | .updateAll selector changes => b.updateAll selector.value changes.value
  | .upsert selector changes => b.upsert selector.value changes.value
  | .remove selector => b.remove selector.value
  | .removeAll selector => b.removeAll selector.value
  | .unordered => b.unordered

def Setting.set (p : Pipeline) : Setting → Pipeline
  | .allowDiskUse => p.allowDiskUse
  | .batch n => p.batch n
  | .maxTime millis => p.maxTime millis
  | .collation c => p.collation c

def Outlet.perform (p : Pipeline) : Outlet → Program (Except Error Unit)
  | .iter => p.iter.bind fun it => .done it.report
  | @Outlet.all _ _ previous => (p.all previous).bind fun r => .done r.1
  | @Outlet.one _ _ previous => (p.one previous).bind fun r => .done r.1
  | @Outlet.explain α _ => (p.explain : Call α).report

/-- What an operation does on a collection, or on its database, and what it reports. -/
def Operation.perform (c : Collection) : Operation → Program (Except Error Unit)
  | @insert _ _ fresh docs => (c.insert fresh docs).report
  | query target refinements ending => ending.perform (refinements.foldl Refinement.refine (target.find c))
  | remove selector => (c.remove selector.value).report
  | removeId id => (c.removeId id.value).report
  | removeAll selector => (c.removeAll selector.value).report
  | update selector changes => (c.update selector.value changes.value).report
  | updateId id changes => (c.updateId id.value changes.value).report
  | updateAll selector changes => (c.updateAll selector.value changes.value).report
  | upsert selector changes => (c.upsert selector.value changes.value).report
  | bulk calls => (calls.foldl Queueing.queue c.bulk).run.report
  | pipe stages settings outlet => outlet.perform (settings.foldl Setting.set (c.aggregate stages.value))
  | @run α _ command => (c.database.run command.value : Call α).report

/-! ### The first refusal -/

/-- A call that settles something first fails with it. -/
theorem Call.report_of_error {α β : Type} {r : Except Error α} {e : Error} (h : errorOf r = some e)
    (f : α → Call β) : (settled r >>= f).report = .done (.error e) := by
  rw [errorOf_eq_some_iff.mp h]
  rfl

/-- A call that settles two things fails with the first of them that fails. -/
theorem Call.report_of_errors {α β γ : Type} {r : Except Error α} {s : Except Error β} {e : Error}
    (h : (errorOf r).or (errorOf s) = some e) (f : α → β → Call γ) :
    (settled r >>= fun a => settled s >>= f a).report = .done (.error e) := by
  cases r with
  | error e' =>
    have he : errorOf (.error e' : Except Error α) = some e := h
    exact report_of_error he fun a => settled s >>= f a
  | ok a => exact report_of_error h (f a)

section Identifiers

variable {α β : Type} [Argument α] [Argument β] (c : Collection) {id : α} {filter : Document}

/-- What is asked for by an identifier is asked for by the filter of it. -/
theorem Collection.removeId_of_idFilter (h : idFilter id = .ok filter) : c.removeId id = c.remove filter := by
  unfold removeId
  rw [h]
  rfl

theorem Collection.updateId_of_idFilter (h : idFilter id = .ok filter) (changes : β) :
    c.updateId id changes = c.update filter changes := by
  unfold updateId
  rw [h]
  rfl

end Identifiers

theorem findSome?_pair (a b : Arg) : [a, b].findSome? Arg.refusal = a.refusal.or b.refusal := by
  rw [List.findSome?_cons, List.findSome?_singleton]
  cases a.refusal <;> rfl

theorem findSome?_documentsGiven {α : Type} [Argument α] (docs : List α) :
    (documentsGiven docs).findSome? Arg.refusal = docs.findSome? fun doc => errorOf (liftDocument doc) := by
  unfold documentsGiven
  rw [List.findSome?_map]
  congr 1
  funext doc
  exact (errorOf_liftDocument doc).symm

section Queries

variable {q : Query} {e : Error}

theorem Target.find_err (c : Collection) (t : Target) : (t.find c).err = t.argument.refusal := by
  have hfilter : ∀ r, (Query.ofFilter c r).err = errorOf r := by
    intro r
    cases r <;> rfl
  cases t with
  | selector a => exact (hfilter _).trans (errorOf_liftDocument a.value)
  | identifier a => exact (hfilter _).trans (errorOf_idFilter a.value)

theorem Target.find_collection (c : Collection) (t : Target) : (t.find c).collection = c := by
  have hfilter : ∀ r, (Query.ofFilter c r).collection = c := by
    intro r
    cases r <;> rfl
  cases t with
  | selector a => exact hfilter _
  | identifier a => exact hfilter _

/-- Refining a query leaves what it is about. -/
theorem Refinement.refine_frame (q : Query) (r : Refinement) :
    (r.refine q).collection = q.collection ∧ (r.refine q).filter = q.filter := by
  cases r with
  | select projection =>
    unfold refine Query.select
    dsimp only
    split <;> exact ⟨rfl, rfl⟩
  | _ => exact ⟨rfl, rfl⟩

theorem foldl_refine_frame (refinements : List Refinement) (q : Query) :
    (refinements.foldl Refinement.refine q).collection = q.collection ∧
      (refinements.foldl Refinement.refine q).filter = q.filter := by
  induction refinements generalizing q with
  | nil => exact ⟨rfl, rfl⟩
  | cons r rest ih =>
    obtain ⟨hcollection, hfilter⟩ := r.refine_frame q
    obtain ⟨hcollection', hfilter'⟩ := ih (r.refine q)
    exact ⟨hcollection'.trans hcollection, hfilter'.trans hfilter⟩

theorem Refinement.refine_err (q : Query) (r : Refinement) :
    (r.refine q).err = q.err.or (r.arguments.findSome? Arg.refusal) := by
  cases r with
  | sort fields =>
    refine (sortOrder_err fields .empty q.err).trans ?_
    rw [Refinement.arguments, List.findSome?_map]
    rfl
  | select projection =>
    rw [Refinement.arguments, List.findSome?_singleton, ← errorOf_liftDocument projection.value]
    unfold refine Query.select
    dsimp only
    cases liftDocument projection.value with
    | error e => cases hq : q.err <;> simp [Query.refuse, hq]
    | ok doc => simp
  | _ => simp [Refinement.arguments, Refinement.refine, Query.skip, Query.limit, Query.batch]

theorem foldl_refine_err (refinements : List Refinement) (q : Query) :
    (refinements.foldl Refinement.refine q).err =
      q.err.or ((refinements.flatMap Refinement.arguments).findSome? Arg.refusal) := by
  induction refinements generalizing q with
  | nil => simp
  | cons r rest ih =>
    rw [List.foldl_cons, ih, Refinement.refine_err, List.flatMap_cons, List.findSome?_append, Option.or_assoc]

/-- A query that has kept an error reports it, however it ends. -/
theorem Ending.perform_of_err (h : q.err = some e) (hrounds : 0 < q.collection.database.rounds) (ending : Ending) :
    ending.perform q = .done (.error e) := by
  have hcheck : q.check = .error e := by
    unfold Query.check
    rw [h]
  have hiter : q.iter = .done (.failed e) := by
    unfold Query.iter Query.openCursor
    rw [hcheck]
    rfl
  cases ending with
  | one α =>
    unfold perform Query.one
    rw [hcheck]
    rfl
  | all previous =>
    obtain ⟨rounds, hsucc⟩ := Nat.exists_eq_succ_of_ne_zero (Nat.ne_of_gt hrounds)
    unfold perform Query.all
    rw [hiter, hsucc]
    rfl
  | count =>
    unfold perform Query.count
    rw [hcheck]
    rfl
  | iter =>
    unfold perform
    rw [hiter]
    rfl
  | apply change previous =>
    unfold perform Query.apply Query.change
    rw [hcheck]
    rfl
  | applyInfo change =>
    unfold perform Query.applyInfo Query.change
    rw [hcheck]
    rfl

end Queries

section Queues

variable {b : Bulk}

theorem Bulk.pushOr_err (b : Bulk) (r : Except Error WriteOp) : (b.pushOr r).err = b.err.or (errorOf r) := by
  cases r with
  | ok op => simp [pushOr, push]
  | error e => cases h : b.err <;> simp [pushOr, refuse, h]

theorem Bulk.insertOne_err {α : Type} [Argument α] (b : Bulk) (fresh : Oid) (doc : α) :
    (b.insertOne fresh doc).err = b.err.or (errorOf (liftDocument doc)) := by
  unfold insertOne
  rw [pushOr_err, errorOf_map]

theorem Bulk.insert_err {α : Type} [Argument α] (b : Bulk) (fresh : Nat → Oid) (docs : List α) :
    (b.insert fresh docs).err = b.err.or ((documentsGiven docs).findSome? Arg.refusal) := by
  have hfold : ∀ (n : Nat) (b : Bulk),
      ((docs.zipIdx n).foldl (fun b numbered => b.insertOne (fresh numbered.2) numbered.1) b).err =
        b.err.or (docs.findSome? fun doc => errorOf (liftDocument doc)) := by
    induction docs with
    | nil => simp
    | cons doc rest ih =>
      intro n b
      rw [List.zipIdx_cons, List.foldl_cons, ih, insertOne_err, List.findSome?_cons, Option.or_assoc]
      cases errorOf (liftDocument doc) <;> rfl
  rw [findSome?_documentsGiven]
  exact hfold 0 b

theorem Bulk.queueUpdate_err (b : Bulk) (selector changes : Given) (multi upsert : Bool) :
    (b.queueUpdate selector.value changes.value multi upsert).err =
      b.err.or ([Arg.document selector, .document changes].findSome? Arg.refusal) := by
  unfold queueUpdate
  rw [pushOr_err, errorOf_bind, List.findSome?_cons, List.findSome?_singleton,
    ← errorOf_liftDocument selector.value, ← errorOf_liftDocument changes.value]
  cases liftDocument selector.value with
  | error e => rfl
  | ok filter => cases liftDocument changes.value <;> rfl

theorem Bulk.queueDelete_err (b : Bulk) (selector : Given) (multi : Bool) :
    (b.queueDelete selector.value multi).err = b.err.or ([Arg.document selector].findSome? Arg.refusal) := by
  unfold queueDelete
  rw [pushOr_err, errorOf_map, List.findSome?_singleton, errorOf_liftDocument]

theorem Queueing.queue_err (b : Bulk) (call : Queueing) :
    (call.queue b).err = b.err.or (call.arguments.findSome? Arg.refusal) := by
  cases call with
  | insert fresh docs => exact b.insert_err fresh docs
  | update selector changes => exact b.queueUpdate_err selector changes false false
  | updateAll selector changes => exact b.queueUpdate_err selector changes true false
  | upsert selector changes => exact b.queueUpdate_err selector changes false true
  | remove selector => exact b.queueDelete_err selector false
  | removeAll selector => exact b.queueDelete_err selector true
  | unordered => simp [Queueing.queue, Queueing.arguments, Bulk.unordered]

theorem foldl_queue_err (calls : List Queueing) (b : Bulk) :
    (calls.foldl Queueing.queue b).err =
      b.err.or ((calls.flatMap Queueing.arguments).findSome? Arg.refusal) := by
  induction calls generalizing b with
  | nil => simp
  | cons call rest ih =>
    rw [List.foldl_cons, ih, Queueing.queue_err, List.flatMap_cons, List.findSome?_append, Option.or_assoc]

end Queues

section Pipelines

variable {p : Pipeline} {e : Error}

theorem foldl_set_of_err (settings : List Setting) (h : p.err = some e)
    (hrounds : 0 < p.collection.database.rounds) :
    (settings.foldl Setting.set p).err = some e ∧ 0 < (settings.foldl Setting.set p).collection.database.rounds := by
  induction settings generalizing p with
  | nil => exact ⟨h, hrounds⟩
  | cons setting rest ih =>
    cases setting with
    | collation c =>
      rw [List.foldl_cons, Setting.set, Pipeline.collation]
      cases c.toServer with
      | ok server => exact ih h hrounds
      | error fault => exact ih (by simp [h]) hrounds
    | _ => exact ih h hrounds

theorem Outlet.perform_of_err (h : p.err = some e) (hrounds : 0 < p.collection.database.rounds) (outlet : Outlet) :
    outlet.perform p = .done (.error e) := by
  have hcheck : p.check = .error e := by
    unfold Pipeline.check
    rw [h]
  have hiter : p.iter = .done (.failed e) := by
    unfold Pipeline.iter Pipeline.openCursor
    rw [hcheck]
    rfl
  cases outlet with
  | iter =>
    unfold perform
    rw [hiter]
    rfl
  | all previous =>
    obtain ⟨rounds, hsucc⟩ := Nat.exists_eq_succ_of_ne_zero (Nat.ne_of_gt hrounds)
    unfold perform Pipeline.all
    rw [hiter, hsucc]
    rfl
  | one previous =>
    unfold perform Pipeline.one
    rw [hiter]
    rfl
  | explain α =>
    unfold perform Pipeline.explain
    rw [hcheck]
    rfl

end Pipelines

namespace Operation

variable {op : Operation} {e : Error} {c : Collection}

/-- Nothing is sent before the last argument is settled, and what is refused first is reported. -/
theorem perform_of_refusal (hrounds : 0 < c.database.rounds) (h : op.refusal = some e) :
    op.perform c = .done (.error e) := by
  unfold refusal at h
  have hdocument : ∀ a : Given, [Arg.document a].findSome? Arg.refusal = some e →
      errorOf (liftDocument a.value) = some e := by
    intro a ha
    rwa [List.findSome?_singleton, ← errorOf_liftDocument a.value] at ha
  have hupdate : ∀ selector changes : Given,
      [Arg.document selector, .value changes].findSome? Arg.refusal = some e →
        (errorOf (liftDocument selector.value)).or (errorOf (updateDocument changes.value)) = some e := by
    intro selector changes hpair
    rwa [findSome?_pair, ← errorOf_liftDocument selector.value, ← errorOf_updateDocument changes.value] at hpair
  cases op with
  | insert fresh docs =>
    have hdocs : errorOf (eachItem liftDocument docs) = some e := by
      rw [errorOf_eachItem, ← findSome?_documentsGiven]
      exact h
    exact Call.report_of_error hdocs _
  | query target refinements ending =>
    have hcollection : (refinements.foldl Refinement.refine (target.find c)).collection = c := by
      rw [(foldl_refine_frame refinements _).1, Target.find_collection]
    refine Ending.perform_of_err ?_ (by rwa [hcollection]) ending
    rw [foldl_refine_err, Target.find_err, ← h]
    unfold arguments
    rw [List.findSome?_cons]
    cases target.argument.refusal <;> rfl
  | remove selector => exact Call.report_of_error (hdocument selector h) _
  | removeId id =>
    have hid : errorOf (idFilter id.value) = some e := by
      rw [errorOf_idFilter, ← h]
      exact List.findSome?_singleton.symm
    exact Call.report_of_error hid _
  | removeAll selector => exact Call.report_of_error (hdocument selector h) _
  | update selector changes => exact Call.report_of_errors (hupdate selector changes h) _
  | updateId id changes =>
    have hid : (errorOf (idFilter id.value)).or (errorOf (updateDocument changes.value)) = some e := by
      rw [errorOf_idFilter, errorOf_updateDocument, ← h]
      exact (findSome?_pair _ _).symm
    cases hfilter : idFilter id.value with
    | error e' =>
      rw [hfilter] at hid
      exact Call.report_of_error (hfilter ▸ hid) _
    | ok filter =>
      -- The filter is lifted once more, which a document always can be.
      have hpair : (errorOf (liftDocument filter)).or (errorOf (updateDocument changes.value)) = some e := by
        rwa [hfilter] at hid
      have hreport : (c.update filter changes.value).report = .done (.error e) := Call.report_of_errors hpair _
      rwa [← c.updateId_of_idFilter hfilter] at hreport
  | updateAll selector changes => exact Call.report_of_errors (hupdate selector changes h) _
  | upsert selector changes => exact Call.report_of_errors (hupdate selector changes h) _
  | bulk calls =>
    have herr : (calls.foldl Queueing.queue c.bulk).err = some e := (foldl_queue_err calls c.bulk).trans h
    unfold perform Bulk.run
    dsimp only
    rw [herr]
    rfl
  | pipe stages settings outlet =>
    have hstages : errorOf (liftPipeline stages.value) = some e := by
      rw [errorOf_liftPipeline, ← h]
      exact List.findSome?_singleton.symm
    have hpipe : (c.aggregate stages.value).err = some e ∧ (c.aggregate stages.value).collection = c := by
      unfold Collection.aggregate
      rw [errorOf_eq_some_iff.mp hstages]
      exact ⟨rfl, rfl⟩
    obtain ⟨herr, hset⟩ := foldl_set_of_err settings hpipe.1 (by rwa [hpipe.2])
    exact Outlet.perform_of_err herr hset outlet
  | run α command => exact Call.report_of_error (hdocument command h) _

end Operation
end DocClient
