import DocClient.Proofs.Collection.Transparency

/-! What a run of queued writes makes of the commands that fail. Main statement: `keeps_failures`, by which a
run tries the batches of the queue in turn, each once, and reports every failure of every batch that it tried. -/
namespace DocClient

/-! ### How commands end -/

/-- A command ends with a document, a failure below the library, or its deadline. -/
theorem Reply.success_cases (reply : Reply) :
    (∃ doc, reply.success = .ok doc) ∨ (∃ failure, reply.success = .error (.transport failure)) ∨
      reply.success = .error .timeout := by
  cases hsuccess : reply.success with
  | ok doc => exact .inl ⟨doc, rfl⟩
  | error e =>
    have hexchange : e.OfExchange := reply.failsOnly_success e hsuccess
    cases e with
    | transport failure => exact .inr (.inl ⟨failure, rfl⟩)
    | timeout => exact .inr (.inr rfl)
    | _ => obtain h | h := hexchange <;> cases h

theorem Document.documentsUnder_eq (doc : Document) (name : String) :
    doc.documentsUnder name = (doc.itemsUnder name).filterMap Bson.asDocument? := by
  unfold documentsUnder itemsUnder
  cases doc.get? name with
  | none => rfl
  | some b => cases b <;> rfl

namespace Bulk

/-! ### Batches that were tried -/

/-- A batch that a run tried: what was exchanged for it, how its command ended, and the failures it had. -/
structure Trial where
  offset : Nat
  batch : List WriteOp
  exchanged : List Exchange
  outcome : Except Error Document
  cases : List BulkCase

/-- The batch and the place of its first operation. -/
def Trial.piece (t : Trial) : Nat × List WriteOp := (t.offset, t.batch)

/-- The command of a batch is sent once and ends as its reply says. If an operation cannot be written, nothing
is sent for the batch, and that is a failure of its own. -/
inductive Tries (c : Collection) (ordered : Bool) (batch : List WriteOp) :
    List Exchange → Except Error Document → Prop
  | sent {kind : WriteKind} {k : Command} (reply : Reply) (writable : batch.all WriteOp.isWritable = true)
      (writes : k.writes? c = some (kind, batch.map WriteOp.written))
      (flag : k.body.get? "ordered" = some (.boolean ordered)) :
      Tries c ordered batch [⟨k, .long, reply⟩] reply.success
  | unwritable (unwritable : batch.all WriteOp.isWritable = false) :
      Tries c ordered batch [] (.error (.transport .invalidResponse))

/-- The case of an entry of a reply: at the place in the queue that the index in the batch stands for. -/
structure Places (offset length : Nat) (entry : Document) (failed : BulkCase) : Prop where
  index : ∀ i < length, entry.Says "index" i → failed.index = Int64.ofInt (offset + i : Nat)
  err : failed.err = errorIn entry

/-- The failures of a batch, by how its command ended. -/
inductive Contributes (offset length : Nat) : Except Error Document → List BulkCase → Prop
  | reply {doc : Document} {failed : List BulkCase}
      (entries : List.Forall₂ (Places offset length) (doc.documentsUnder "writeErrors") failed) :
      Contributes offset length (.ok doc)
        (failed ++ ((doc.get? "writeConcernError").bind Bson.asDocument?).toList.map fun entry =>
          ⟨-1, errorIn entry⟩)
  | command (code : Int32) (message : String) :
      Contributes offset length (.error (.transport (.command code message))) [⟨-1, .new code message⟩]
  | transport {failure : Failure} (other : ∀ code message, failure ≠ .command code message) :
      Contributes offset length (.error (.transport failure))
        [⟨-1, .new (failure.code?.getD 0) failure.message⟩]
  | timeout : Contributes offset length (.error .timeout) [⟨-1, .new 0 Error.timeout.message⟩]

/-- The trials of a run over batches: of the batches in turn, and of all of them unless the run is ordered and
the last one failed. No trial before the last of an ordered run has a failure. -/
structure Course (b : Bulk) (batches : List (Nat × List WriteOp)) (trials : List Trial) : Prop where
  tried : trials.map Trial.piece <+: batches
  tries : ∀ t ∈ trials, Tries b.collection b.ordered t.batch t.exchanged t.outcome
  contributes : ∀ t ∈ trials, Contributes t.offset t.batch.length t.outcome t.cases
  clean : b.ordered = true → ∀ t ∈ trials.dropLast, t.cases = []
  ends : trials.map Trial.piece = batches ∨ b.ordered = true ∧ ∃ t ∈ trials.getLast?, t.cases ≠ []

/-- A run ends, has sent what its trials exchanged, and fails with all their failures if there is any. -/
def KeepsFailures {σ : Type} (answer : Command → Deadline → σ → Reply × σ) (b : Bulk) (s : σ) : Prop :=
  ∃ trials r s', Program.run (Program.recorded answer) b.run.run (s, []) =
      some (r, s', trials.flatMap Trial.exchanged) ∧
    Course b (batches b.ops) trials ∧
    match trials.flatMap Trial.cases with
    | [] => ∃ result, r = .ok result
    | failed => r = .error (.bulk failed)

section Trying

variable {σ : Type} (answer : Command → Deadline → σ → Reply × σ) {b : Bulk} {kind : WriteKind}
  {batch : List WriteOp} {batches : List (Nat × List WriteOp)} {trials : List Trial} {extra : Fields Bson}

namespace Course

theorem nil : Course b [] [] :=
  ⟨List.prefix_rfl, nofun, nofun, nofun, .inl rfl⟩

/-- An ordered run ends with a batch that failed. -/
theorem stop (t : Trial) (htries : Tries b.collection b.ordered t.batch t.exchanged t.outcome)
    (hcontributes : Contributes t.offset t.batch.length t.outcome t.cases) (hordered : b.ordered = true)
    (hfailed : t.cases ≠ []) : Course b (t.piece :: batches) [t] := by
  constructor
  case tried => exact ⟨batches, rfl⟩
  case tries => simpa using htries
  case contributes => simpa using hcontributes
  case clean => exact fun _ => nofun
  case ends => exact .inr ⟨hordered, t, rfl, hfailed⟩

/-- Any other trial leaves the rest of the batches to the rest of the run. -/
theorem cons (t : Trial) (htries : Tries b.collection b.ordered t.batch t.exchanged t.outcome)
    (hcontributes : Contributes t.offset t.batch.length t.outcome t.cases)
    (hgo : b.ordered = true → t.cases = []) (h : Course b batches trials) :
    Course b (t.piece :: batches) (t :: trials) := by
  constructor
  case tried => exact List.cons_prefix_cons.mpr ⟨rfl, h.tried⟩
  case tries => exact List.forall_mem_cons.mpr ⟨htries, h.tries⟩
  case contributes => exact List.forall_mem_cons.mpr ⟨hcontributes, h.contributes⟩
  case clean =>
    intro hordered
    cases trials with
    | nil => nofun
    | cons next rest => exact List.forall_mem_cons.mpr ⟨hgo hordered, h.clean hordered⟩
  case ends =>
    rcases h.ends with hall | ⟨hordered, last, hlast, hfailed⟩
    · exact .inl (congrArg (t.piece :: ·) hall)
    · refine .inr ⟨hordered, last, ?_, hfailed⟩
      rw [List.getLast?_cons, hlast]
      rfl

end Course

/-- What a batch contributes is added to the progress, whatever came of its command. -/
theorem exists_add {exchanged : List Exchange} {outcome : Except Error Document}
    (htries : Tries b.collection b.ordered batch exchanged outcome) (hlength : batch.length ≤ maxBatch)
    (p : Progress) (kind : WriteKind) (offset : Nat) :
    ∃ result cases, p.add kind offset outcome = .ok ⟨result, p.cases ++ cases⟩ ∧
      Contributes offset batch.length outcome cases := by
  have hended : (∃ doc, outcome = .ok doc) ∨ (∃ failure, outcome = .error (.transport failure)) ∨
      outcome = .error .timeout := by
    cases htries with
    | sent reply => exact reply.success_cases
    | unwritable => exact .inr (.inl ⟨_, rfl⟩)
  rcases hended with ⟨doc, hdoc⟩ | ⟨failure, hfailure⟩ | htimeout
  · refine ⟨_, casesIn doc offset, by rw [hdoc]; rfl, ?_⟩
    rw [hdoc, casesIn_eq]
    refine .reply ?_
    rw [Document.documentsUnder_eq, ← List.map_filterMap, List.forall₂_map_right_iff, List.forall₂_same]
    intro entry _
    have hmax : maxBatch = 1000 := rfl
    exact ⟨fun i hi hsays => failedIndex_of_index hsays (by omega) offset, rfl⟩
  · rw [hfailure]
    cases failure with
    | command code message => exact ⟨_, _, rfl, .command code message⟩
    | _ => exact ⟨_, _, rfl, .transport nofun⟩
  · rw [htimeout]
    exact ⟨_, _, rfl, .timeout⟩

/-- A batch is tried, whatever the server answers. -/
theorem exists_tries (hbatch : IsBatch kind batch) (hextra : Bson.fieldsWritable extra = true) (s : σ)
    (before : List Exchange) :
    ∃ exchanged outcome s', Tries b.collection b.ordered batch exchanged outcome ∧
      Program.run (Program.recorded answer) (b.collection.database.command .long
          ⟨batchFields b.collection.name kind batch b.ordered ++ extra⟩ .primary).run (s, before) =
        some (outcome, s', before ++ exchanged) := by
  rw [Database.command_eq_ask]
  cases hall : batch.all WriteOp.isWritable with
  | true =>
    rw [sent_batch b.collection kind b.ordered hall hextra]
    exact ⟨_, _, _, .sent _ hall (writes?_batchSent hbatch) (ordered_batchSent ..), rfl⟩
  | false =>
    have hsent : b.collection.database.sent .primary
        ⟨batchFields b.collection.name kind batch b.ordered ++ extra⟩ = .error (.transport .invalidResponse) := by
      have hunwritable := (isWritable_batch b.collection kind batch b.ordered hextra).trans hall
      unfold Database.sent Command.check
      rw [hunwritable]
      rfl
    rw [hsent]
    exact ⟨[], _, s, .unwritable hall, by rw [List.append_nil]; rfl⟩

private theorem stops_iff {p : Progress} {cases : List BulkCase} :
    (b.ordered && decide (p.cases.length < (p.cases ++ cases).length)) = true ↔ b.ordered = true ∧ cases ≠ [] := by
  rw [Bool.and_eq_true, decide_eq_true_eq, List.length_append, Nat.lt_add_right_iff_pos, List.length_pos_iff]

/-- Batches that are sent in turn make trials, whose failures are added to those that there are. -/
theorem exists_run_runBatches (hextra : concernFields b.collection.database.writeConcern = .ok extra)
    {offset : Nat} {ops : List WriteOp} (hsplits : Splits offset batches ops) (p : Progress) (s : σ)
    (before : List Exchange) :
    ∃ trials result s', Course b batches trials ∧
      Program.run (Program.recorded answer) (b.runBatches batches p).run (s, before) =
        some (.ok ⟨result, p.cases ++ trials.flatMap Trial.cases⟩, s',
          before ++ trials.flatMap Trial.exchanged) := by
  induction hsplits generalizing p s before with
  | nil offset => exact ⟨[], p.result, s, .nil, by simp only [List.flatMap_nil, List.append_nil]; rfl⟩
  | @cons offset kind batch rest ops batch_ok rest_ok ih =>
    obtain ⟨exchanged, outcome, s', htries, hrun⟩ := exists_tries answer batch_ok
      (concernFields_writable hextra) s before
    obtain ⟨result, cases, hadd, hcontributes⟩ := exists_add htries batch_ok.short p kind offset
    rw [runBatches_cons hextra batch_ok, Call.run_lift_bind, Program.run_bind, hrun, Option.bind_some]
    dsimp only
    rw [hadd, Call.settled_ok_bind]
    dsimp only
    by_cases hstop : b.ordered = true ∧ cases ≠ []
    · rw [if_pos (stops_iff.mpr hstop)]
      refine ⟨[⟨offset, batch, exchanged, outcome, cases⟩], result, s',
        .stop ⟨offset, batch, exchanged, outcome, cases⟩ htries hcontributes hstop.1 hstop.2, ?_⟩
      simp only [List.flatMap_singleton]
      rfl
    · have hgo : b.ordered = true → cases = [] := fun hordered => by simpa [hordered] using hstop
      obtain ⟨trials, total, last, hcourse, hrest⟩ := ih ⟨result, p.cases ++ cases⟩ s' (before ++ exchanged)
      rw [if_neg (mt stops_iff.mp hstop), hrest]
      refine ⟨⟨offset, batch, exchanged, outcome, cases⟩ :: trials, total, last,
        .cons ⟨offset, batch, exchanged, outcome, cases⟩ htries hcontributes hgo hcourse, ?_⟩
      simp only [List.flatMap_cons, List.append_assoc]

/-- Whatever is queued, and whatever comes back for each command: a run keeps every failure of every batch that
it tries, and tries no batch twice. -/
theorem keeps_failures {c : Collection}
    (hconcern : ∀ concern ∈ c.database.writeConcern, ∃ doc, concern.toDocument = .ok doc) (ops : List WriteOp)
    (ordered : Bool) (s : σ) :
    KeepsFailures answer ⟨c, ops, ordered, none⟩ s := by
  obtain ⟨extra, hextra⟩ := exists_concernFields hconcern
  obtain ⟨trials, result, s', hcourse, hrun⟩ := exists_run_runBatches answer
    (b := ⟨c, ops, ordered, none⟩) hextra (splits_batches ops) .start s []
  refine ⟨trials, if trials.flatMap Trial.cases = [] then .ok result else .error (.bulk (trials.flatMap Trial.cases)),
    s', ?_, hcourse, ?_⟩
  · have hcall : (Bulk.mk c ops ordered none).run =
        (runBatches ⟨c, ops, ordered, none⟩ (batches ops) .start >>= fun p =>
          if p.cases.isEmpty then pure p.result else Call.fail (.bulk p.cases)) := rfl
    rw [hcall, Call.run_bind, Program.run_bind, hrun, Option.bind_some]
    dsimp only [Progress.start]
    rw [List.nil_append]
    cases trials.flatMap Trial.cases with
    | nil => rfl
    | cons failed rest => rfl
  · cases trials.flatMap Trial.cases with
    | nil => exact ⟨result, rfl⟩
    | cons failed rest => rfl

end Trying

/-- An acknowledgement that most servers give, a failed insertion, and a connection that is lost. -/
theorem keeps_failures_of_stock : KeepsFailures Program.prepared
    ⟨stock (some ⟨some .majority, none, none⟩), [.insert ⟨[]⟩, .delete ⟨[]⟩ true, .insert ⟨[]⟩], false, none⟩
    [.document ⟨[("ok", .int32 1), ("writeErrors", .array [.document [("index", .int32 0)]])]⟩, .dropped] :=
  keeps_failures _ (by rintro concern ⟨⟩; exact ⟨_, rfl⟩) _ _ _

/-- A filter by a name that cannot be written is not sent, though a run that is not ordered leaves no batch out. -/
theorem unwritable_batch_unsent :
    let b : Bulk := ⟨stock none, [.delete ⟨[("a\x00b", .int32 1)]⟩ false, .insert ⟨[]⟩], false, none⟩
    let done : Reply := .document ⟨[("ok", .int32 1), ("n", .int32 1)]⟩
    ∃ r s' log, Program.run (Program.recorded Program.prepared) b.run.run ([done, done], []) = some (r, s', log) ∧
      log.length < (batches b.ops).length := by
  intro b done
  have hbatches : batches b.ops =
      [(0, [.delete ⟨[("a\x00b", .int32 1)]⟩ false]), (1, [.insert ⟨[]⟩])] := by
    simp [b, batches, runs, List.splitBy, List.splitBy.loop, pieces, maxBatch, withOffsets, WriteOp.kind]
  have hrun : b.run = (b.runBatches (batches b.ops) .start >>= fun p =>
      if p.cases.isEmpty then pure p.result else Call.fail (.bulk p.cases)) := rfl
  rw [hrun, hbatches]
  exact ⟨_, _, _, rfl, by decide⟩

end Bulk
end DocClient
