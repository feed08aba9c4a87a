import DocClient.Proofs.Collection.Server
import DocClient.Proofs.Number.Whole
import Mathlib.Algebra.BigOperators.Group.List.Basic

/-! What is read of a reply to a batch. Main statement: `add_of_reports`, by which a reply that reports what
came of the operations of a batch adds just that to the progress. -/
namespace DocClient

/-! ### Numbers in replies -/

section Numbers

variable {doc : Document} {b : Bson} {name : String} {n : Nat}

theorem Bson.Counts.written (h : b.Counts n) : b.written = b := by
  cases h <;> rfl

theorem Document.Says.written (h : doc.Says name n) : doc.written.Says name n := by
  obtain ⟨b, hget, hcounts⟩ := h
  refine ⟨b, ?_, hcounts⟩
  rw [Document.get?_written, hget, Option.map_some, hcounts.written]

/-- A count that is said is the count that is read. -/
theorem toNat_countIn (h : doc.Says name n) (hn : n < 2 ^ 64) : (Bulk.countIn doc name).toNat = n := by
  obtain ⟨b, hget, hcounts⟩ := h
  unfold Bulk.countIn
  rw [hget]
  cases hcounts with
  | int32 h =>
    dsimp only
    rw [h, Int.toNat_natCast]
    exact UInt64.toNat_ofNat_of_lt hn
  | int64 h =>
    dsimp only
    rw [h, Int.toNat_natCast]
    exact UInt64.toNat_ofNat_of_lt hn
  | @double d n integral h =>
    dsimp only
    by_cases hzero : n = 0
    · subst hzero
      split
      · exact Double.toUInt64_of_truncate integral h hn
      · rfl
    · rw [if_pos (Double.isAboveZero_of_truncate integral h (Nat.pos_of_ne_zero hzero))]
      exact Double.toUInt64_of_truncate integral h hn

theorem asInteger?_of_counts (h : b.Counts 1) : b.asInteger? = some 1 := by
  cases h with
  | int32 h => exact congrArg some h
  | int64 h => exact congrArg some h
  | @double d n integral h =>
    have hfloor : d.magnitudeFloor ≤ 0x8000000000000000 := by
      unfold Double.truncate at h
      split at h <;> omega
    unfold Double.isIntegral at integral
    rw [Bool.and_eq_true, Bool.or_eq_true, decide_eq_true_eq, decide_eq_true_eq] at integral
    have hnear : d.exponent ≥ 0 ∨
        d.significand % (1 <<< (-d.exponent).toNat) * Double.hiddenBit ≤ 1 <<< (-d.exponent).toNat := by
      rcases integral.2 with hexp | hrest
      · exact .inl hexp
      · rw [hrest, Nat.zero_mul]
        exact .inr (Nat.zero_le _)
    unfold Bson.asInteger? Double.nearInteger?
    simp only [integral.1, Bool.true_and, Bool.and_eq_true, Bool.or_eq_true, decide_eq_true_eq]
    rw [if_pos ⟨hnear, hfloor⟩, h]
    rfl

theorem success_of_ok (h : doc.Says "ok" 1) : (Reply.document doc).success = .ok doc.written := by
  obtain ⟨b, hget, hcounts⟩ := h
  have hcheck : checkSuccess doc.written = .ok () := by
    unfold checkSuccess
    rw [Document.get?_written, hget, Option.map_some, hcounts.written, Option.bind_some,
      asInteger?_of_counts hcounts]
    rfl
  unfold Reply.success Call.receive
  simp only [bind, Except.bind, hcheck]
  rfl

end Numbers

/-! ### Replies to batches -/

/-- The case of an operation that failed. -/
def bulkCase (failure : Nat × WriteFault) : BulkCase :=
  ⟨Int64.ofInt failure.1, .new failure.2.code failure.2.message⟩

/-- The progress after operations, of which the first has a place in the queue. -/
def Bulk.Progress.after (p : Progress) (offset : Nat) (xs : List Executed) : Progress :=
  ⟨⟨p.result.matched + total Executed.matched xs, p.result.modified + total Executed.modified xs⟩,
    p.cases ++ (failures offset xs).map bulkCase⟩

section Tallies

variable {doc : Document} {kind : WriteKind} {xs : List Executed} {offset : Nat}

theorem total_congr {f g : Executed → Nat} (h : ∀ x ∈ xs, f x = g x) : total f xs = total g xs := by
  unfold total
  rw [List.map_congr_left h]

/-- Insertions are not among the counts that are reported. -/
theorem totals_of_insert (h : ∀ x ∈ xs, x.op.kind = .insert) :
    total Executed.matched xs = 0 ∧ total Executed.modified xs = 0 := by
  have hzero : total (fun _ => 0) xs = 0 := by simp [total]
  rw [← hzero]
  constructor <;> refine total_congr fun x hx => ?_
  · unfold Executed.matched
    rw [h x hx]
  · unfold Executed.modified
    rw [h x hx]

theorem totals_of_update (h : ∀ x ∈ xs, x.op.kind = .update) :
    total Executed.counted xs = total Executed.matched xs + total Executed.upserted xs ∧
      total Executed.modified xs = total Executed.changed xs + total Executed.upserted xs := by
  have hcounted : ∀ x ∈ xs, x.counted = x.matched + x.upserted := by
    intro x hx
    unfold Executed.counted Executed.matched Executed.upserted
    rw [h x hx]
    cases x.outcome <;> rfl
  have hmodified : ∀ x ∈ xs, x.modified = x.changed + x.upserted := by
    intro x hx
    unfold Executed.modified Executed.changed Executed.upserted
    rw [h x hx]
    cases x.outcome <;> rfl
  exact ⟨(total_congr hcounted).trans List.sum_map_add, (total_congr hmodified).trans List.sum_map_add⟩

theorem totals_of_delete (h : ∀ x ∈ xs, x.op.kind = .delete) :
    total Executed.matched xs = total Executed.counted xs ∧
      total Executed.modified xs = total Executed.counted xs := by
  constructor <;> refine total_congr fun x hx => ?_
  · unfold Executed.matched Executed.counted
    rw [h x hx]
    cases x.outcome <;> rfl
  · unfold Executed.modified Executed.counted
    rw [h x hx]
    cases x.outcome <;> rfl

theorem Document.itemsUnder_written (doc : Document) (name : String) :
    doc.written.itemsUnder name = (doc.itemsUnder name).map Bson.written := by
  unfold itemsUnder
  rw [get?_written]
  cases doc.get? name with
  | none => rfl
  | some b => cases b <;> simp [Bson.written, Bson.writtenItems_eq_map]

private theorem addCounts_update (reply : Document) (result : BulkResult) :
    Bulk.addCounts .update reply result =
      ⟨result.matched + ((Bulk.countIn reply "n").toNat - (reply.itemsUnder "upserted").length),
        result.modified + ((Bulk.countIn reply "nModified").toNat + (reply.itemsUnder "upserted").length)⟩ := by
  unfold Bulk.addCounts Document.itemsUnder
  cases reply.get? "upserted" with
  | none => rfl
  | some b => cases b <;> rfl

theorem addCounts_of_reports (h : doc.Reports kind xs) (hkind : ∀ x ∈ xs, x.op.kind = kind) (hw : Within xs)
    (result : BulkResult) :
    Bulk.addCounts kind doc.written result =
      ⟨result.matched + total Executed.matched xs, result.modified + total Executed.modified xs⟩ := by
  have hn := toNat_countIn h.counted.written hw.1
  cases kind with
  | insert =>
    obtain ⟨hmatched, hmodified⟩ := totals_of_insert hkind
    rw [hmatched, hmodified]
    rfl
  | delete =>
    obtain ⟨hmatched, hmodified⟩ := totals_of_delete hkind
    unfold Bulk.addCounts
    rw [hn, hmatched, hmodified]
  | update =>
    obtain ⟨hcounted, hmodified⟩ := totals_of_update hkind
    have hchanged : (Bulk.countIn doc.written "nModified").toNat = total Executed.changed xs := by
      have hbound := hw.2
      exact toNat_countIn (h.changed rfl).written (by omega)
    rw [addCounts_update, hn, hchanged, Document.itemsUnder_written, List.length_map, h.upserted rfl,
      hcounted, hmodified, Nat.add_sub_cancel]

theorem UInt64.toInt64_eq_ofInt (u : UInt64) : u.toInt64 = Int64.ofInt u.toNat := by
  rw [← Int64.toBitVec_inj, Int64.toBitVec_ofInt, BitVec.ofInt_natCast]
  simp

/-- The place of a failure in the queue is that of its batch and its own in the batch. -/
theorem failedIndex_of_index {entry : Document} {i : Nat} (h : entry.Says "index" i) (hi : i < 2 ^ 64)
    (offset : Nat) : Bulk.failedIndex offset entry = Int64.ofInt (offset + i : Nat) := by
  unfold Bulk.failedIndex
  rw [UInt64.toInt64_eq_ofInt, toNat_countIn h hi, ← Int64.ofInt_add, Int.natCast_add]

/-- What a failure is read as, by its place in the queue. -/
private theorem bulkCase_of_reportsFailure {entry : Document} {failure : Nat × WriteFault}
    (h : entry.ReportsFailure failure) (hindex : failure.1 < 2 ^ 64) (offset : Nat) :
    (⟨Bulk.failedIndex offset entry.written, Bulk.errorIn entry.written⟩ : BulkCase) =
      bulkCase (offset + failure.1, failure.2) := by
  have herror : Bulk.errorIn entry.written = .new failure.2.code failure.2.message := by
    unfold Bulk.errorIn
    rw [Document.get?_written, Document.get?_written, h.message]
    rcases h.code with hcode | hcode
    · rw [hcode]
      rfl
    · rw [hcode]
      exact congrArg (QueryError.new · failure.2.message) (Int32.toInt32_toInt64 failure.2.code)
  rw [failedIndex_of_index h.index.written hindex, herror]
  rfl

theorem casesIn_eq (reply : Document) (offset : Nat) :
    Bulk.casesIn reply offset =
      ((reply.itemsUnder "writeErrors").filterMap fun b =>
        b.asDocument?.map fun entry => ⟨Bulk.failedIndex offset entry, Bulk.errorIn entry⟩) ++
      ((reply.get? "writeConcernError").bind Bson.asDocument?).toList.map fun entry =>
        ⟨-1, Bulk.errorIn entry⟩ := by
  unfold Bulk.casesIn Document.itemsUnder
  refine congrArg₂ (· ++ ·) ?_ ?_
  · cases reply.get? "writeErrors" with
    | none => rfl
    | some b =>
      cases b with
      | array items =>
        refine List.filterMap_congr fun b _ => ?_
        cases b <;> rfl
      | _ => rfl
  · cases reply.get? "writeConcernError" with
    | none => rfl
    | some b => cases b <;> rfl

theorem casesIn_of_reports (h : doc.Reports kind xs) (hlength : xs.length ≤ Bulk.maxBatch) (offset : Nat) :
    Bulk.casesIn doc.written offset = (failures offset xs).map bulkCase := by
  have hbound : ∀ failure ∈ failures 0 xs, failure.1 < 2 ^ 64 := by
    intro failure hmem
    have hlt := fst_lt_of_mem_failures xs hmem
    have hmax : Bulk.maxBatch = 1000 := rfl
    omega
  have hconcern : doc.written.get? "writeConcernError" = none := by
    rw [Document.get?_written, h.acknowledged]
    rfl
  rw [casesIn_eq, hconcern, Document.itemsUnder_written, ← Nat.add_zero offset, failures_add xs 0 offset,
    List.map_map, Nat.add_zero]
  refine (List.append_nil _).trans ?_
  have hfailures := h.failures
  generalize failures 0 xs = reported at hfailures hbound
  generalize doc.itemsUnder "writeErrors" = items at hfailures
  induction hfailures with
  | nil => rfl
  | @cons b failure items reported hfirst _ ih =>
    obtain ⟨entry, rfl, hentry⟩ := hfirst
    obtain ⟨hindex, hrest⟩ := List.forall_mem_cons.mp hbound
    have hcase := congrArg some (bulkCase_of_reportsFailure hentry hindex offset)
    rw [List.map_cons, List.map_cons, Bson.written_ofDocument, ← ih hrest]
    exact List.filterMap_cons_some hcase

/-- A reply that reports a batch moves the progress past it. -/
theorem add_of_reports (h : doc.Reports kind xs) (hkind : ∀ x ∈ xs, x.op.kind = kind) (hw : Within xs)
    (hlength : xs.length ≤ Bulk.maxBatch) (p : Bulk.Progress) (offset : Nat) :
    p.add kind offset (.ok doc.written) = .ok (p.after offset xs) := by
  unfold Bulk.Progress.add Bulk.Progress.after
  dsimp only
  rw [addCounts_of_reports h hkind hw, casesIn_of_reports h hlength]

theorem after_append (p : Bulk.Progress) (offset : Nat) (xs ys : List Executed) :
    (p.after offset xs).after (offset + xs.length) ys = p.after offset (xs ++ ys) := by
  unfold Bulk.Progress.after
  simp only [total_append, failures_append, List.map_append, List.append_assoc, Nat.add_assoc]

end Tallies

end DocClient
