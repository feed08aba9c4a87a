import DocClient.Proofs.Collection.Tally

/-! Batching is transparent. Main statement: `run_bulk`, by which a queue of writes that is sent in batches
does what its operations do one at a time, and reports it. -/
namespace DocClient

namespace WriteOp

/-- The operation as a server reads it. -/
def written : WriteOp → WriteOp
  | insert doc => insert doc.written
  | update filter changes multi upsert => update filter.written changes.written multi upsert
  | delete filter multi => delete filter.written multi

def isWritable : WriteOp → Bool
  | insert doc => doc.isWritable
  | update filter changes _ _ => filter.isWritable && changes.isWritable
  | delete filter _ => filter.isWritable

@[simp] theorem kind_written (op : WriteOp) : op.written.kind = op.kind := by
  cases op <;> rfl

/-- An entry is read as the operation that it was made of. -/
theorem readEntry_entry (op : WriteOp) : op.kind.readEntry (Bson.ofDocument op.entry).written = some op.written := by
  cases op with
  | insert doc => exact congrArg (Option.map insert ∘ Bson.asDocument?) (Bson.written_ofDocument doc)
  | update filter changes multi upsert => rfl
  | delete filter multi => cases multi <;> rfl

theorem isWritable_entry (op : WriteOp) : op.entry.isWritable = op.isWritable := by
  have hterm : ∀ name ∈ ["q", "u", "multi", "upsert", "limit"], Bson.isTerminable name = true := by decide
  simp only [List.forall_mem_cons] at hterm
  cases op with
  | insert doc => rfl
  | update filter changes multi upsert =>
    have hpairs : (update filter changes multi upsert).entry = ⟨[("q", .ofDocument filter),
        ("u", .ofDocument changes), ("multi", .boolean multi), ("upsert", .boolean upsert)]⟩ :=
      congrArg Document.mk (Fields.collect_of_nodup (show ["q", "u", "multi", "upsert"].Nodup by decide))
    simp [hpairs, Document.isWritable, Bson.fieldsWritable, Bson.isWritable, hterm, isWritable]
  | delete filter multi =>
    have hpairs : (delete filter multi).entry =
        ⟨[("q", .ofDocument filter), ("limit", .int32 (if multi then 0 else 1))]⟩ :=
      congrArg Document.mk (Fields.collect_of_nodup (show ["q", "limit"].Nodup by decide))
    simp [hpairs, Document.isWritable, Bson.fieldsWritable, Bson.isWritable, hterm, isWritable]

end WriteOp

/-! ### Runs -/

theorem Bulk.concernFields_writable {concern : Option WriteConcern} {extra : Fields Bson}
    (h : concernFields concern = .ok extra) : Bson.fieldsWritable extra = true := by
  unfold concernFields at h
  cases concern with
  | none =>
    rw [← Except.ok.inj h]
    rfl
  | some concern =>
    dsimp only at h
    cases hdoc : concern.toDocument with
    | error fault =>
      rw [hdoc] at h
      cases h
    | ok doc =>
      rw [hdoc] at h
      have hname : Bson.isTerminable "writeConcern" = true := by decide
      rw [← Except.ok.inj h]
      simp [Bson.fieldsWritable, hname, Database.toDocument_isWritable hdoc]

section Running

variable {σ : Type} {answer : Command → Deadline → σ → Reply × σ}
  {step : WriteOp → σ → Except WriteFault (Effect × σ)} {c : Collection} {kind : WriteKind}
  {batch ops : List WriteOp} {ordered : Bool} {extra : Fields Bson}

/-- The command of a batch, as it is sent. -/
def batchSent (c : Collection) (kind : WriteKind) (batch : List WriteOp) (ordered : Bool) (extra : Fields Bson) :
    Command :=
  Command.written ⟨c.database.name, ⟨Bulk.batchFields c.name kind batch ordered ++ extra⟩, .primary⟩

/-- A server reads the operations of a batch in its command. -/
theorem writes?_batchSent (h : Bulk.IsBatch kind batch) :
    (batchSent c kind batch ordered extra).writes? c = some (kind, batch.map WriteOp.written) := by
  have hitems : (batchSent c kind batch ordered extra).body.itemsUnder kind.listName =
      (batch.map fun op => Bson.ofDocument op.entry).map Bson.written :=
    (Bulk.carries_batchFields ..).written.itemsUnder
  refine Command.writes?_of_isFor ⟨rfl, rfl⟩ ?_
  rw [hitems, List.map_map]
  exact mapM_map_eq_some fun op hop => h.uniform op hop ▸ op.readEntry_entry

theorem ordered_batchSent (c : Collection) (kind : WriteKind) (batch : List WriteOp) (ordered : Bool)
    (extra : Fields Bson) :
    (batchSent c kind batch ordered extra).body.get? "ordered" = some (.boolean ordered) := by
  cases kind <;> rfl

/-- The command of a batch can be written when its operations can. -/
theorem isWritable_batch (c : Collection) (kind : WriteKind) (batch : List WriteOp) (ordered : Bool)
    (hextra : Bson.fieldsWritable extra = true) :
    Document.isWritable ⟨Bulk.batchFields c.name kind batch ordered ++ extra⟩ = batch.all WriteOp.isWritable := by
  have hnames : Bson.isTerminable kind.command = true ∧ Bson.isTerminable kind.listName = true ∧
      Bson.isTerminable "ordered" = true := by
    cases kind <;> decide
  have hentries : Bson.areWritable (batch.map fun op => .ofDocument op.entry) = batch.all WriteOp.isWritable := by
    rw [Bson.areWritable_eq_all, List.all_map]
    refine List.all_congr rfl fun op => ?_
    exact (Bson.isWritable_ofDocument op.entry).trans op.isWritable_entry
  simp [Document.isWritable, Bulk.batchFields, Bson.fieldsWritable, Bson.isWritable, hnames, hentries, hextra]

theorem sent_batch (c : Collection) (kind : WriteKind) (ordered : Bool) (h : batch.all WriteOp.isWritable = true)
    (hextra : Bson.fieldsWritable extra = true) :
    c.database.sent .primary ⟨Bulk.batchFields c.name kind batch ordered ++ extra⟩ =
      .ok (batchSent c kind batch ordered extra) :=
  Database.sent_eq_ok c.database .primary (by simp [Bulk.batchFields])
    ((isWritable_batch c kind batch ordered hextra).trans h)

/-- A batch that is sent is carried out, and its reply reports it. -/
theorem run_batch (hexec : Executes answer step c) (h : Bulk.IsBatch kind batch)
    (hwritable : ∀ op ∈ batch, op.isWritable = true) (hextra : Bson.fieldsWritable extra = true) (s : σ)
    (hw : Within (execute step ordered (batch.map WriteOp.written) s).1) :
    ∃ doc : Document, doc.Reports kind (execute step ordered (batch.map WriteOp.written) s).1 ∧
      Program.run answer
          (c.database.command .long ⟨Bulk.batchFields c.name kind batch ordered ++ extra⟩ .primary).run s =
        some (.ok doc.written, (execute step ordered (batch.map WriteOp.written) s).2) := by
  have hlength : (batch.map WriteOp.written).length ≤ Bulk.maxBatch := by
    rw [List.length_map]
    exact h.short
  obtain ⟨doc, hanswer, hreports⟩ := hexec _ .long s kind _ ordered (writes?_batchSent h)
    (ordered_batchSent c kind batch ordered extra) hlength hw
  refine ⟨doc, hreports, ?_⟩
  rw [Database.command_eq_ask, sent_batch c kind ordered (List.all_eq_true.mpr hwritable) hextra]
  unfold Call.ask
  dsimp only [ExceptT.run, ExceptT.mk, Program.run]
  rw [hanswer]
  dsimp only
  rw [success_of_ok hreports.ok]

theorem length_cases_lt_after (p : Bulk.Progress) (offset : Nat) (xs : List Executed) :
    decide (p.cases.length < (p.after offset xs).cases.length) = xs.any Executed.failed := by
  have hlength : (p.after offset xs).cases.length = p.cases.length + (failures offset xs).length := by
    unfold Bulk.Progress.after
    rw [List.length_append, List.length_map]
  rw [hlength]
  cases hany : xs.any Executed.failed with
  | false =>
    rw [(failures_eq_nil_iff xs offset).mpr hany]
    simp
  | true =>
    have hne : failures offset xs ≠ [] := by
      rw [Ne, failures_eq_nil_iff, hany]
      simp
    have hpos : 0 < (failures offset xs).length := List.length_pos_iff.mpr hne
    simpa using hpos

/-- Batches that are sent in turn do what their operations do one at a time. -/
theorem run_runBatches {b : Bulk} (hexec : Executes answer step b.collection)
    (hextra : Bulk.concernFields b.collection.database.writeConcern = .ok extra) {offset : Nat}
    {batches : List (Nat × List WriteOp)} (hsplits : Bulk.Splits offset batches ops)
    (hwritable : ∀ op ∈ ops, op.isWritable = true) (p : Bulk.Progress) (s : σ)
    (hw : Within (execute step b.ordered (ops.map WriteOp.written) s).1) :
    Program.run answer (b.runBatches batches p).run s =
      some (.ok (p.after offset (execute step b.ordered (ops.map WriteOp.written) s).1),
        (execute step b.ordered (ops.map WriteOp.written) s).2) := by
  induction hsplits generalizing p s with
  | nil offset =>
    have hnone : p.after offset [] = p := by simp [Bulk.Progress.after, total, failures]
    rw [List.map_nil, execute, hnone]
    rfl
  | @cons offset kind batch rest ops batch_ok rest_ok ih =>
    obtain ⟨hbatch, hrest⟩ := List.forall_mem_append.mp hwritable
    have hdone := execute_append step b.ordered (batch.map WriteOp.written) (ops.map WriteOp.written) s
    rw [← List.map_append] at hdone
    rw [hdone] at hw ⊢
    have hfirst : Within (execute step b.ordered (batch.map WriteOp.written) s).1 := by
      split at hw
      · exact hw
      · exact hw.left
    obtain ⟨doc, hreports, hrun⟩ := run_batch hexec batch_ok hbatch (Bulk.concernFields_writable hextra) s hfirst
    have hkinds : ∀ x ∈ (execute step b.ordered (batch.map WriteOp.written) s).1, x.op.kind = kind := by
      intro x hx
      obtain ⟨op, hop, hwritten⟩ := List.mem_map.mp (of_mem_execute step hx).1
      rw [← hwritten, WriteOp.kind_written]
      exact batch_ok.uniform op hop
    have hlength : (execute step b.ordered (batch.map WriteOp.written) s).1.length ≤ Bulk.maxBatch := by
      refine (length_execute_le step _ _ _).trans ?_
      rw [List.length_map]
      exact batch_ok.short
    have hadd := add_of_reports hreports hkinds hfirst hlength p offset
    rw [Bulk.runBatches_cons hextra batch_ok, Call.run_lift_bind, Program.run_bind, hrun, Option.bind_some]
    dsimp only
    rw [hadd, Call.settled_ok_bind, length_cases_lt_after]
    by_cases hstop : (b.ordered && (execute step b.ordered (batch.map WriteOp.written) s).1.any Executed.failed) = true
    · rw [if_pos hstop, if_pos hstop]
      rfl
    · rw [if_neg hstop] at hw ⊢
      rw [if_neg hstop]
      have hplace : (execute step b.ordered (batch.map WriteOp.written) s).1.length = batch.length := by
        rw [← List.length_map (f := Executed.op), ops_execute step hstop, List.length_map]
      rw [ih hrest _ _ hw.right, ← after_append, hplace]

/-- What a run reports of the operations that were carried out. -/
def Bulk.outcomeOf (xs : List Executed) : Except Error BulkResult :=
  match failures 0 xs with
  | [] => .ok ⟨total Executed.matched xs, total Executed.modified xs⟩
  | reported => .error (.bulk (reported.map bulkCase))

/-- A run leaves the server where the operations of the queue leave it one at a time, and reports them so. -/
def Bulk.IsTransparent (answer : Command → Deadline → σ → Reply × σ)
    (step : WriteOp → σ → Except WriteFault (Effect × σ)) (b : Bulk) (s : σ) : Prop :=
  Program.run answer b.run.run s =
    some (outcomeOf (execute step b.ordered (b.ops.map WriteOp.written) s).1,
      (execute step b.ordered (b.ops.map WriteOp.written) s).2)

/-- Whatever operations are queued, in whatever mix: if they and the write concern can be written, their
batches do what they do one at a time. -/
theorem run_bulk (hexec : Executes answer step c)
    (hconcern : ∀ concern ∈ c.database.writeConcern, ∃ doc, concern.toDocument = .ok doc)
    (hwritable : ∀ op ∈ ops, op.isWritable = true) (ordered : Bool) (s : σ)
    (hw : Within (execute step ordered (ops.map WriteOp.written) s).1) :
    Bulk.IsTransparent answer step ⟨c, ops, ordered, none⟩ s := by
  obtain ⟨extra, hextra⟩ := Bulk.exists_concernFields hconcern
  have hrun := run_runBatches (b := ⟨c, ops, ordered, none⟩) hexec hextra (Bulk.splits_batches ops) hwritable
    .start s hw
  have hcall : (Bulk.mk c ops ordered none).run =
      (Bulk.runBatches ⟨c, ops, ordered, none⟩ (Bulk.batches ops) .start >>= fun p =>
        if p.cases.isEmpty then pure p.result else Call.fail (.bulk p.cases)) := rfl
  unfold Bulk.IsTransparent Bulk.outcomeOf
  rw [hcall, Call.run_bind, Program.run_bind, hrun, Option.bind_some]
  dsimp only [Bulk.Progress.after, Bulk.Progress.start]
  rw [List.nil_append, Nat.zero_add, Nat.zero_add]
  cases failures 0 (execute step ordered (ops.map WriteOp.written) s).1 with
  | nil => rfl
  | cons failure rest => rfl

end Running

/-! ### A stock of documents -/

/-- A collection of which only the size counts. -/
def stockStep : WriteOp → Nat → Except WriteFault (Effect × Nat)
  | .insert _, n => .ok (⟨0, 0, 0, 0⟩, n + 1)
  | .update .., n => .ok (⟨min n 1, min n 1, 0, 0⟩, n)
  | .delete .., 0 => .error ⟨11000, "nothing there"⟩
  | .delete .., n + 1 => .ok (⟨0, 0, 0, 1⟩, n)

theorem counts_stockStep (op : WriteOp) (n : Nat) :
    (Executed.mk op ((stockStep op n).map Prod.fst)).counted ≤ 1 ∧
      (Executed.mk op ((stockStep op n).map Prod.fst)).changed ≤ 1 := by
  cases op with
  | insert doc => exact ⟨le_refl 1, Nat.zero_le 1⟩
  | update filter changes multi upsert => exact ⟨Nat.min_le_right n 1, Nat.min_le_right n 1⟩
  | delete filter multi =>
    cases n with
    | zero => exact ⟨Nat.zero_le 1, Nat.zero_le 1⟩
    | succ n => exact ⟨le_refl 1, Nat.zero_le 1⟩

theorem executes_stock (c : Collection) : Executes (diligent stockStep c) stockStep c := by
  apply executes_diligent
  intro ordered ops s hlength
  have hone : ∀ x ∈ (execute stockStep ordered ops s).1, x.counted ≤ 1 ∧ x.changed ≤ 1 := by
    intro x hx
    obtain ⟨-, n, houtcome⟩ := of_mem_execute stockStep hx
    have hcounts := counts_stockStep x.op n
    rwa [← houtcome] at hcounts
  have htotal : ∀ f : Executed → Nat, (∀ x ∈ (execute stockStep ordered ops s).1, f x ≤ 1) →
      total f (execute stockStep ordered ops s).1 ≤ Bulk.maxBatch := fun f hf =>
    (total_le_length f hf).trans ((length_execute_le stockStep ordered ops s).trans hlength)
  have hmax : Bulk.maxBatch < 2 ^ 63 := by decide
  exact ⟨(htotal _ fun x hx => (hone x hx).1).trans_lt hmax, (htotal _ fun x hx => (hone x hx).2).trans_lt hmax⟩

/-- A stock on a server that is asked for no acknowledgement in particular, or for that of some servers. -/
def stock (concern : Option WriteConcern) : Collection := ⟨⟨"app", .primary, concern, 1⟩, "people"⟩

/-- The third operation fails on an empty stock, and the fourth is not carried out. -/
theorem run_bulk_stops : Bulk.IsTransparent (diligent stockStep (stock none)) stockStep
    ⟨stock none, [.insert ⟨[]⟩, .delete ⟨[]⟩ false, .delete ⟨[]⟩ true, .insert ⟨[]⟩], true, none⟩ 0 :=
  run_bulk (executes_stock _) (by simp [stock]) (by decide) true 0 ⟨by decide, by decide⟩

/-- More servers than a write concern has a number for. -/
def crowded : WriteConcern := ⟨some (.servers 4294967295), none, none⟩

private theorem batches_singleton (op : WriteOp) : Bulk.batches [op] = [(0, [op])] := by
  simp [Bulk.batches, Bulk.runs, List.splitBy, List.splitBy.loop, Bulk.pieces, Bulk.maxBatch, Bulk.withOffsets]

/-- A deletion is not sent under a write concern that has no form, or by a name that cannot be written. -/
theorem not_transparent_unencodable :
    (Executes (diligent stockStep (stock (some crowded))) stockStep (stock (some crowded)) ∧
      ¬ Bulk.IsTransparent (diligent stockStep (stock (some crowded))) stockStep
        ⟨stock (some crowded), [.delete ⟨[("a", .int32 1)]⟩ false], true, none⟩ 1) ∧
    Executes (diligent stockStep (stock none)) stockStep (stock none) ∧
      ¬ Bulk.IsTransparent (diligent stockStep (stock none)) stockStep
        ⟨stock none, [.delete ⟨[("a\x00b", .int32 1)]⟩ false], true, none⟩ 1 := by
  refine ⟨⟨executes_stock _, ?_⟩, executes_stock _, ?_⟩
  · intro h
    unfold Bulk.IsTransparent Bulk.run at h
    dsimp only at h
    rw [batches_singleton] at h
    exact absurd (congrArg (Option.map Prod.snd) h) (by decide)
  · intro h
    unfold Bulk.IsTransparent Bulk.run at h
    dsimp only at h
    rw [batches_singleton] at h
    exact absurd (congrArg (Option.map Prod.snd) h) (by decide)

end DocClient
