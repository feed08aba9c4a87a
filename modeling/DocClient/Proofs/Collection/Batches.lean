import DocClient.Collection.Bulk
import DocClient.Proofs.Collection.Command
import Mathlib.Data.List.SplitBy

/-! The batches of a queue of writes, and the command of a batch. Main statements: `splits_batches`, by which
batches are the queue in its order, cut into short parts of one kind each, and `batchCommand_eq`. -/
namespace DocClient.Bulk

/-- Operations of one kind that fit into a command. -/
structure IsBatch (kind : WriteKind) (batch : List WriteOp) : Prop where
  nonempty : batch ≠ []
  short : batch.length ≤ maxBatch
  uniform : ∀ op ∈ batch, op.kind = kind

/-- Batches with the places of their first operations, and the operations that they are made of. -/
inductive Splits : Nat → List (Nat × List WriteOp) → List WriteOp → Prop
  | nil (offset : Nat) : Splits offset [] []
  | cons {offset : Nat} {kind : WriteKind} {batch : List WriteOp} {rest : List (Nat × List WriteOp)}
      {ops : List WriteOp} (batch_ok : IsBatch kind batch) (rest_ok : Splits (offset + batch.length) rest ops) :
      Splits offset ((offset, batch) :: rest) (batch ++ ops)

section Cutting

variable {size : Nat} {ops batch : List WriteOp}

/-- Every piece is a part of the operations, neither empty nor too long, and all of them make up the whole. -/
theorem pieces_spec (hsize : 0 < size) (ops : List WriteOp) :
    (pieces size ops).flatten = ops ∧
      ∀ batch ∈ pieces size ops, batch ≠ [] ∧ batch.length ≤ size ∧ ∀ op ∈ batch, op ∈ ops := by
  fun_induction pieces size ops with
  | case1 ops h =>
    have hops : ops = [] := h.resolve_left (by omega)
    subst hops
    exact ⟨rfl, by simp⟩
  | case2 ops h ih =>
    obtain ⟨-, hops⟩ := not_or.mp h
    obtain ⟨hflat, hparts⟩ := ih
    refine ⟨by rw [List.flatten_cons, hflat, List.take_append_drop], ?_⟩
    intro batch hbatch
    rcases List.mem_cons.mp hbatch with rfl | hbatch
    · have hpos : 0 < ops.length := List.length_pos_iff.mpr hops
      have hlen : (ops.take size).length = min size ops.length := List.length_take
      exact ⟨List.length_pos_iff.mp (by omega), by omega, fun op => List.mem_of_mem_take⟩
    · obtain ⟨hne, hlen, hmem⟩ := hparts batch hbatch
      exact ⟨hne, hlen, fun op hop => List.mem_of_mem_drop (hmem op hop)⟩

/-- Neighbours of one kind in a run make the whole run of one kind. -/
theorem kind_of_mem_runs {run : List WriteOp} (h : run ∈ runs ops) : ∃ kind, ∀ op ∈ run, op.kind = kind := by
  have hchain := List.isChain_of_mem_splitBy h
  cases run with
  | nil => exact absurd h (List.nil_notMem_splitBy _ _)
  | cons first rest =>
    refine ⟨first.kind, ?_⟩
    have htrans : (first :: rest).IsChain fun a b => a.kind = b.kind := by
      simpa using hchain
    have hpair : (first :: rest).Pairwise fun a b => a.kind = b.kind := by
      have : IsTrans WriteOp fun a b => a.kind = b.kind := ⟨fun _ _ _ => Eq.trans⟩
      exact List.isChain_iff_pairwise.mp htrans
    intro op hop
    rcases List.mem_cons.mp hop with rfl | hop
    · rfl
    · exact ((List.pairwise_cons.mp hpair).1 op hop).symm

theorem splits_withOffsets {batches : List (List WriteOp)} (h : ∀ batch ∈ batches, ∃ kind, IsBatch kind batch)
    (offset : Nat) : Splits offset (withOffsets offset batches) batches.flatten := by
  induction batches generalizing offset with
  | nil => exact .nil offset
  | cons batch rest ih =>
    obtain ⟨⟨kind, hbatch⟩, hrest⟩ := List.forall_mem_cons.mp h
    exact .cons hbatch (ih hrest _)

/-- All pieces of all runs make up the operations. -/
theorem flatten_pieces (ops : List WriteOp) : ((runs ops).flatMap (pieces maxBatch)).flatten = ops := by
  have hrun : ∀ run ∈ runs ops, (pieces maxBatch run).flatten = run :=
    fun run _ => (pieces_spec (by decide) run).1
  have hruns : (runs ops).map (List.flatten ∘ pieces maxBatch) = (runs ops).map id :=
    List.map_congr_left hrun
  rw [List.flatMap_def, List.flatten_flatten, List.map_map, hruns, List.map_id]
  exact List.flatten_splitBy _ ops

theorem isBatch_of_mem_pieces (h : batch ∈ (runs ops).flatMap (pieces maxBatch)) : ∃ kind, IsBatch kind batch := by
  obtain ⟨run, hrun, hpiece⟩ := List.mem_flatMap.mp h
  obtain ⟨kind, hkind⟩ := kind_of_mem_runs hrun
  obtain ⟨hne, hlen, hmem⟩ := (pieces_spec (by decide) run).2 batch hpiece
  exact ⟨kind, hne, hlen, fun op hop => hkind op (hmem op hop)⟩

/-- The batches of a queue are the queue. -/
theorem splits_batches (ops : List WriteOp) : Splits 0 (batches ops) ops := by
  have hpieces : ∀ batch ∈ (runs ops).flatMap (pieces maxBatch), ∃ kind, IsBatch kind batch :=
    fun _ => isBatch_of_mem_pieces
  have hsplits := splits_withOffsets hpieces 0
  rwa [flatten_pieces] at hsplits

end Cutting

/-! ### The command of a batch -/

/-- The fields that the write concern adds to the command of a batch. -/
def concernFields : Option WriteConcern → Except Error (Fields Bson)
  | none => .ok []
  | some concern =>
    match concern.toDocument with
    | .ok doc => .ok [("writeConcern", .ofDocument doc)]
    | .error fault => .error (.decode (.encode fault))

/-- A write concern adds its fields under its own name only, unless it has no form. -/
theorem concernFields_cases (concern : Option WriteConcern) :
    (∃ extra, concernFields concern = .ok extra ∧ ∀ name ∈ Fields.names extra, name = "writeConcern") ∨
      ∃ w ∈ concern, ∃ fault, w.toDocument = .error fault ∧
        concernFields concern = .error (.decode (.encode fault)) := by
  cases concern with
  | none => exact .inl ⟨[], rfl, nofun⟩
  | some w =>
    cases hdoc : w.toDocument with
    | ok doc =>
      have hname : ∀ name ∈ ["writeConcern"], name = "writeConcern" := fun _ => List.mem_singleton.mp
      exact .inl ⟨[("writeConcern", .ofDocument doc)], by rw [concernFields, hdoc], hname⟩
    | error fault => exact .inr ⟨w, rfl, fault, hdoc, by rw [concernFields, hdoc]⟩

/-- A write concern that has a form adds its fields. -/
theorem exists_concernFields {concern : Option WriteConcern}
    (h : ∀ c ∈ concern, ∃ doc, c.toDocument = .ok doc) : ∃ extra, concernFields concern = .ok extra := by
  obtain ⟨extra, hextra, -⟩ | ⟨w, hw, fault, hfault, -⟩ := concernFields_cases concern
  · exact ⟨extra, hextra⟩
  · obtain ⟨doc, hdoc⟩ := h w hw
    cases hdoc.symm.trans hfault

/-- The fields of the command of a batch, without the write concern. -/
def batchFields (collection : String) (kind : WriteKind) (batch : List WriteOp) (ordered : Bool) : Fields Bson :=
  [(kind.command, .string collection), (kind.listName, .array (batch.map fun op => .ofDocument op.entry)),
    ("ordered", .boolean ordered)]

section BatchCommand

variable {kind : WriteKind} {batch : List WriteOp}

theorem nodup_batchFields (collection : String) (kind : WriteKind) (batch : List WriteOp) (ordered : Bool) :
    ("writeConcern" :: Fields.names (batchFields collection kind batch ordered)).Nodup := by
  have hnames : ("writeConcern" :: [kind.command, kind.listName, "ordered"]).Nodup := by
    cases kind <;> decide
  exact hnames

private theorem entriesOf_self (h : ∀ op ∈ batch, op.kind = kind) :
    entriesOf kind batch = batch.map fun op => .ofDocument op.entry := by
  have hall : batch.filter (·.kind = kind) = batch := List.filter_eq_self.mpr (by simpa using h)
  unfold entriesOf
  rw [hall]

private theorem entriesOf_of_ne (h : ∀ op ∈ batch, op.kind = kind) {other : WriteKind} (hne : kind ≠ other) :
    entriesOf other batch = [] := by
  have hnone : batch.filter (·.kind = other) = [] := by
    rw [List.filter_eq_nil_iff]
    intro op hop hkind
    exact hne ((h op hop).symm.trans (by simpa using hkind))
  unfold entriesOf
  rw [hnone, List.map_nil]

/-- The command of operations of one kind, however many. -/
theorem batchCommand_eq (hne : batch ≠ []) (h : ∀ op ∈ batch, op.kind = kind) (collection : String)
    (ordered : Bool) (concern : Option WriteConcern) :
    batchCommand collection batch ordered concern =
      (concernFields concern).map fun extra => ⟨batchFields collection kind batch ordered ++ extra⟩ := by
  obtain ⟨first, rest, rfl⟩ := List.exists_cons_of_ne_nil hne
  have hkind : first.kind = kind := h first (List.mem_cons_self ..)
  have hself := entriesOf_self h
  rw [List.map_cons] at hself
  obtain ⟨hconcern, hnodup⟩ := List.nodup_cons.mp (nodup_batchFields collection kind (first :: rest) ordered)
  have hbody : Document.ofPairs (batchFields collection kind (first :: rest) ordered) =
      ⟨batchFields collection kind (first :: rest) ordered⟩ := by
    unfold Document.ofPairs
    rw [Fields.collect_of_nodup hnodup]
  have hlists : batchCommand collection (first :: rest) ordered concern =
      match concern with
      | none => .ok (.ofPairs (batchFields collection kind (first :: rest) ordered))
      | some concern =>
        match concern.toDocument with
        | .ok doc => .ok ((Document.ofPairs (batchFields collection kind (first :: rest) ordered)).put
            "writeConcern" (.ofDocument doc))
        | .error fault => .error (.decode (.encode fault)) := by
    unfold batchCommand batchFields
    cases kind with
    | insert =>
      simp only [hkind, hself, entriesOf_of_ne h (show WriteKind.insert ≠ .update by decide),
        entriesOf_of_ne h (show WriteKind.insert ≠ .delete by decide)]
      rfl
    | update =>
      simp only [hkind, hself, entriesOf_of_ne h (show WriteKind.update ≠ .insert by decide),
        entriesOf_of_ne h (show WriteKind.update ≠ .delete by decide)]
      rfl
    | delete =>
      simp only [hkind, hself, entriesOf_of_ne h (show WriteKind.delete ≠ .insert by decide),
        entriesOf_of_ne h (show WriteKind.delete ≠ .update by decide)]
      rfl
  rw [hlists, hbody]
  cases concern with
  | none => simp [concernFields, Except.map]
  | some concern =>
    dsimp only [concernFields]
    cases concern.toDocument with
    | error fault => rfl
    | ok doc =>
      simp only [Document.put, Fields.put_of_notMem _ hconcern]
      rfl

/-- A batch is sent, its outcome is added to the progress, and the run goes on or ends. -/
theorem runBatches_cons {b : Bulk} {extra : Fields Bson}
    (hextra : concernFields b.collection.database.writeConcern = .ok extra) (h : IsBatch kind batch) {offset : Nat}
    {rest : List (Nat × List WriteOp)} {p : Progress} :
    b.runBatches ((offset, batch) :: rest) p =
      (ExceptT.lift (b.collection.database.command .long
        ⟨batchFields b.collection.name kind batch b.ordered ++ extra⟩ .primary).run >>= fun outcome =>
          Call.settled (p.add kind offset outcome) >>= fun after =>
            if b.ordered && p.cases.length < after.cases.length then pure after else b.runBatches rest after) := by
  have hhead : (batch.head?.map WriteOp.kind).getD .insert = kind := by
    obtain ⟨op, tail, rfl⟩ := List.exists_cons_of_ne_nil h.nonempty
    exact h.uniform op (List.mem_cons_self ..)
  rw [runBatches, batchCommand_eq h.nonempty h.uniform, hextra, hhead]
  rfl

end BatchCommand

end DocClient.Bulk
