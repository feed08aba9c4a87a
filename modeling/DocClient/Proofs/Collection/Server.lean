import DocClient.Proofs.Collection.Filters
import Mathlib.Algebra.GroupWithZero.Nat

/-! Servers that carry out write commands operation by operation, and what they say of it. What one operation
does to the state of a server is a parameter. Main statements: `execute_append`, by which operations can be
carried out part by part, and `executes_diligent`, by which there are such servers. -/
namespace DocClient

/-- What an operation that succeeded did. Of these numbers only those of its kind count. -/
structure Effect where
  matched : Nat
  modified : Nat
  upserted : Nat
  removed : Nat

/-- An operation that was carried out, and what came of it. One that failed has had no effect. -/
structure Executed where
  op : WriteOp
  outcome : Except WriteFault Effect

namespace Executed

/-- What is counted for an operation in a reply. -/
def counted (x : Executed) : Nat :=
  match x.op.kind, x.outcome with
  | .insert, .ok _ => 1
  | .update, .ok e => e.matched + e.upserted
  | .delete, .ok e => e.removed
  | _, .error _ => 0

def changed (x : Executed) : Nat :=
  match x.op.kind, x.outcome with
  | .update, .ok e => e.modified
  | _, _ => 0

def upserted (x : Executed) : Nat :=
  match x.op.kind, x.outcome with
  | .update, .ok e => e.upserted
  | _, _ => 0

/-- Documents that an update matched or a deletion removed. -/
def matched (x : Executed) : Nat :=
  match x.op.kind, x.outcome with
  | .update, .ok e => e.matched
  | .delete, .ok e => e.removed
  | _, _ => 0

/-- Documents that an update changed or inserted or a deletion removed. -/
def modified (x : Executed) : Nat :=
  match x.op.kind, x.outcome with
  | .update, .ok e => e.modified + e.upserted
  | .delete, .ok e => e.removed
  | _, _ => 0

def failed (x : Executed) : Bool :=
  match x.outcome with
  | .ok _ => false
  | .error _ => true

end Executed

def total (f : Executed → Nat) (xs : List Executed) : Nat := (xs.map f).sum

/-- The operations that failed, by their places, of which the first is given. -/
def failures (start : Nat) : List Executed → List (Nat × WriteFault)
  | [] => []
  | x :: rest =>
    match x.outcome with
    | .ok _ => failures (start + 1) rest
    | .error fault => (start, fault) :: failures (start + 1) rest

/-- Counts and their sums are within unsigned 64-bit integers. -/
def Within (xs : List Executed) : Prop := total Executed.counted xs < 2 ^ 64 ∧ total Executed.modified xs < 2 ^ 64

section Executing

variable {σ : Type} (step : WriteOp → σ → Except WriteFault (Effect × σ))

/-- Carries operations out one at a time, up to the first that fails if they are ordered. -/
def execute (ordered : Bool) : List WriteOp → σ → List Executed × σ
  | [], s => ([], s)
  | op :: rest, s =>
    match step op s with
    | .ok (effect, s') =>
      let (xs, last) := execute ordered rest s'
      (⟨op, .ok effect⟩ :: xs, last)
    | .error fault =>
      if ordered then ([⟨op, .error fault⟩], s)
      else
        let (xs, last) := execute ordered rest s
        (⟨op, .error fault⟩ :: xs, last)

/-- Operations that are ordered stop with the first that fails. -/
theorem execute_append (ordered : Bool) (first more : List WriteOp) (s : σ) :
    execute step ordered (first ++ more) s =
      if ordered && (execute step ordered first s).1.any Executed.failed then execute step ordered first s
      else
        ((execute step ordered first s).1 ++ (execute step ordered more (execute step ordered first s).2).1,
          (execute step ordered more (execute step ordered first s).2).2) := by
  induction first generalizing s with
  | nil => simp [execute]
  | cons op rest ih =>
    rw [List.cons_append, execute, execute]
    cases step op s with
    | ok done =>
      obtain ⟨effect, s'⟩ := done
      dsimp only
      rw [ih]
      split
      case isTrue h => simp [Executed.failed, h]
      case isFalse h => simp [Executed.failed, h]
    | error fault =>
      cases ordered with
      | true => simp [Executed.failed]
      | false => simp [ih]

/-- Operations that are not cut short are all carried out. -/
theorem ops_execute {ordered : Bool} {ops : List WriteOp} {s : σ}
    (h : ¬ (ordered && (execute step ordered ops s).1.any Executed.failed) = true) :
    (execute step ordered ops s).1.map Executed.op = ops := by
  induction ops generalizing s with
  | nil => rfl
  | cons op rest ih =>
    rw [execute] at h ⊢
    cases hstep : step op s with
    | ok done =>
      obtain ⟨effect, s'⟩ := done
      rw [hstep] at h
      simp only [List.any_cons, Executed.failed, Bool.false_or] at h
      exact congrArg (op :: ·) (ih h)
    | error fault =>
      rw [hstep] at h
      cases ordered with
      | true => simp [Executed.failed] at h
      | false => exact congrArg (op :: ·) (ih (by simp))

/-- What came of an operation came of a step with it. -/
theorem of_mem_execute {ordered : Bool} {ops : List WriteOp} {s : σ} {x : Executed}
    (h : x ∈ (execute step ordered ops s).1) :
    x.op ∈ ops ∧ ∃ s', x.outcome = (step x.op s').map Prod.fst := by
  induction ops generalizing s with
  | nil => cases h
  | cons op rest ih =>
    have hlater : ∀ {s'}, x ∈ (execute step ordered rest s').1 →
        x.op ∈ op :: rest ∧ ∃ s', x.outcome = (step x.op s').map Prod.fst := by
      intro s' hx
      obtain ⟨hop, houtcome⟩ := ih hx
      exact ⟨List.mem_cons_of_mem _ hop, houtcome⟩
    rw [execute] at h
    cases hstep : step op s with
    | ok done =>
      rw [hstep] at h
      rcases List.mem_cons.mp h with rfl | h
      · exact ⟨List.mem_cons_self .., s, by rw [hstep]; rfl⟩
      · exact hlater h
    | error fault =>
      rw [hstep] at h
      cases ordered with
      | true =>
        rw [List.mem_singleton.mp h]
        exact ⟨List.mem_cons_self .., s, by rw [hstep]; rfl⟩
      | false =>
        rcases List.mem_cons.mp h with rfl | h
        · exact ⟨List.mem_cons_self .., s, by rw [hstep]; rfl⟩
        · exact hlater h

theorem length_execute_le (ordered : Bool) (ops : List WriteOp) (s : σ) :
    (execute step ordered ops s).1.length ≤ ops.length := by
  induction ops generalizing s with
  | nil => exact le_refl 0
  | cons op rest ih =>
    rw [execute]
    cases step op s with
    | ok done => exact Nat.succ_le_succ (ih _)
    | error fault =>
      cases ordered with
      | true => exact Nat.succ_le_succ (Nat.zero_le _)
      | false => exact Nat.succ_le_succ (ih _)

end Executing

section Totals

variable (f : Executed → Nat) (xs ys : List Executed)

theorem total_append : total f (xs ++ ys) = total f xs + total f ys := by
  unfold total
  rw [List.map_append, List.sum_append]

theorem failures_append (start : Nat) :
    failures start (xs ++ ys) = failures start xs ++ failures (start + xs.length) ys := by
  induction xs generalizing start with
  | nil => rfl
  | cons x rest ih =>
    have hplace : start + (x :: rest).length = start + 1 + rest.length := by
      rw [List.length_cons]
      omega
    rw [List.cons_append, failures, failures, ih, hplace]
    cases x.outcome <;> rfl

/-- Places that begin later are all later. -/
theorem failures_add (start offset : Nat) :
    failures (offset + start) xs = (failures start xs).map fun failure => (offset + failure.1, failure.2) := by
  induction xs generalizing start with
  | nil => rfl
  | cons x rest ih =>
    rw [failures, failures, Nat.add_assoc, ih]
    cases x.outcome <;> rfl

theorem failures_eq_nil_iff (start : Nat) : failures start xs = [] ↔ xs.any Executed.failed = false := by
  induction xs generalizing start with
  | nil => simp [failures]
  | cons x rest ih =>
    rw [failures, List.any_cons, Executed.failed]
    cases x.outcome with
    | ok e => simpa using ih (start + 1)
    | error fault => simp

theorem fst_lt_of_mem_failures {start : Nat} {failure : Nat × WriteFault} (h : failure ∈ failures start xs) :
    failure.1 < start + xs.length := by
  induction xs generalizing start with
  | nil => cases h
  | cons x rest ih =>
    rw [failures] at h
    rw [List.length_cons]
    cases houtcome : x.outcome with
    | ok e =>
      rw [houtcome] at h
      have := ih h
      omega
    | error fault =>
      rw [houtcome] at h
      rcases List.mem_cons.mp h with rfl | h
      · dsimp only
        omega
      · have := ih h
        omega

variable {xs ys}

theorem total_le_length (h : ∀ x ∈ xs, f x ≤ 1) : total f xs ≤ xs.length := by
  unfold total
  induction xs with
  | nil => exact le_refl 0
  | cons x rest ih =>
    obtain ⟨hx, hrest⟩ := List.forall_mem_cons.mp h
    have hsum := ih hrest
    rw [List.map_cons, List.sum_cons, List.length_cons]
    omega

theorem Within.left (h : Within (xs ++ ys)) : Within xs := by
  unfold Within at h ⊢
  rw [total_append, total_append] at h
  omega

theorem Within.right (h : Within (xs ++ ys)) : Within ys := by
  unfold Within at h ⊢
  rw [total_append, total_append] at h
  omega

end Totals

/-! ### Commands as a server reads them -/

/-- A flag of an entry, which is down if it is left out. -/
def Bson.flagIn (b : Bson) (name : String) : Option Bool :=
  match b.asDocument?.bind (·.get? name) with
  | none => some false
  | some (.boolean flag) => some flag
  | some _ => none

/-- The operation that an entry of a write command asks for. A deletion without a limit is one of all. -/
def WriteKind.readEntry (kind : WriteKind) (b : Bson) : Option WriteOp :=
  match kind with
  | .insert => b.asDocument?.map .insert
  | .update => do
    let filter ← b.documentIn "q"
    let update ← b.documentIn "u"
    let multi ← b.flagIn "multi"
    let upsert ← b.flagIn "upsert"
    return .update filter update multi upsert
  | .delete => do
    let filter ← b.documentIn "q"
    match b.asDocument?.bind (·.get? "limit") with
    | some (.int32 limit) =>
      if limit = 0 then some (.delete filter true) else if limit = 1 then some (.delete filter false) else none
    | _ => none

/-- The operations that a command asks for on a collection. -/
def Command.writes? (k : Command) (c : Collection) : Option (WriteKind × List WriteOp) :=
  if k.IsFor "insert" c then
    ((k.body.itemsUnder "documents").mapM (WriteKind.readEntry .insert)).map (.insert, ·)
  else if k.IsFor "update" c then
    ((k.body.itemsUnder "updates").mapM (WriteKind.readEntry .update)).map (.update, ·)
  else if k.IsFor "delete" c then
    ((k.body.itemsUnder "deletes").mapM (WriteKind.readEntry .delete)).map (.delete, ·)
  else none

/-- A command that is named for a kind asks for the operations that its entries are read as. -/
theorem Command.writes?_of_isFor {k : Command} {c : Collection} {kind : WriteKind} {ops : List WriteOp}
    (hfor : k.IsFor kind.command c) (hread : (k.body.itemsUnder kind.listName).mapM kind.readEntry = some ops) :
    k.writes? c = some (kind, ops) := by
  have hother : ∀ name, name ≠ kind.command → ¬ k.IsFor name c := fun name hne hname => hne (hname.unique hfor).1
  unfold writes?
  cases kind with
  | insert => exact (if_pos hfor).trans (congrArg (Option.map (Prod.mk WriteKind.insert)) hread)
  | update =>
    rw [if_neg (hother "insert" (by decide))]
    exact (if_pos hfor).trans (congrArg (Option.map (Prod.mk WriteKind.update)) hread)
  | delete =>
    rw [if_neg (hother "insert" (by decide)), if_neg (hother "update" (by decide))]
    exact (if_pos hfor).trans (congrArg (Option.map (Prod.mk WriteKind.delete)) hread)

/-! ### Replies -/

/-- Numbers of any type that say a count. -/
inductive Bson.Counts : Bson → Nat → Prop
  | int32 {i : Int32} {n : Nat} (h : i.toInt = n) : Counts (.int32 i) n
  | int64 {i : Int64} {n : Nat} (h : i.toInt = n) : Counts (.int64 i) n
  | double {d : Double} {n : Nat} (integral : d.isIntegral = true) (h : d.truncate = n) : Counts (.double d) n

def Document.Says (doc : Document) (name : String) (n : Nat) : Prop := ∃ b, doc.get? name = some b ∧ b.Counts n

/-- An entry of a reply that reports a failed operation by its place in the command. -/
structure Document.ReportsFailure (doc : Document) (failure : Nat × WriteFault) : Prop where
  index : doc.Says "index" failure.1
  code : doc.get? "code" = some (.int32 failure.2.code) ∨ doc.get? "code" = some (.int64 failure.2.code.toInt64)
  message : doc.get? "errmsg" = some (.string failure.2.message)

/-- A reply that reports what came of the operations of a command. -/
structure Document.Reports (doc : Document) (kind : WriteKind) (xs : List Executed) : Prop where
  ok : doc.Says "ok" 1
  counted : doc.Says "n" (total Executed.counted xs)
  changed : kind = .update → doc.Says "nModified" (total Executed.changed xs)
  upserted : kind = .update → (doc.itemsUnder "upserted").length = total Executed.upserted xs
  failures : List.Forall₂ (fun b failure => ∃ entry, b = Bson.ofDocument entry ∧ entry.ReportsFailure failure)
    (doc.itemsUnder "writeErrors") (failures 0 xs)
  acknowledged : doc.get? "writeConcernError" = none

/-- A server that carries out the write commands to a collection operation by operation, in their order, and
up to the first failure exactly if a command says that they are ordered, and replies with what came of them. -/
def Executes {σ : Type} (answer : Command → Deadline → σ → Reply × σ)
    (step : WriteOp → σ → Except WriteFault (Effect × σ)) (c : Collection) : Prop :=
  ∀ (k : Command) (limit : Deadline) (s : σ) (kind : WriteKind) (ops : List WriteOp) (ordered : Bool),
    k.writes? c = some (kind, ops) → k.body.get? "ordered" = some (.boolean ordered) →
      ops.length ≤ Bulk.maxBatch → Within (execute step ordered ops s).1 →
        ∃ doc, answer k limit s = (.document doc, (execute step ordered ops s).2) ∧
          doc.Reports kind (execute step ordered ops s).1

/-! ### A server -/

/-- An entry that reports a failure. -/
def failureEntry (failure : Nat × WriteFault) : Document :=
  ⟨[("index", .int64 (Int64.ofInt failure.1)), ("code", .int32 failure.2.code),
    ("errmsg", .string failure.2.message)]⟩

/-- A reply that reports what was carried out. -/
def reportOf (xs : List Executed) : Document :=
  ⟨[("ok", .int32 1), ("n", .int64 (Int64.ofInt (total Executed.counted xs))),
    ("nModified", .int64 (Int64.ofInt (total Executed.changed xs))),
    ("upserted", .array (List.replicate (total Executed.upserted xs) .null)),
    ("writeErrors", .array ((failures 0 xs).map fun failure => .ofDocument (failureEntry failure)))]⟩

/-- A server that answers write commands to a collection and nothing else. -/
def diligent {σ : Type} (step : WriteOp → σ → Except WriteFault (Effect × σ)) (c : Collection) :
    Command → Deadline → σ → Reply × σ :=
  fun k _ s =>
    match k.writes? c, k.body.get? "ordered" with
    | some (_, ops), some (.boolean ordered) =>
      (.document (reportOf (execute step ordered ops s).1), (execute step ordered ops s).2)
    | _, _ => (.dropped, s)

theorem says_int64 {doc : Document} {name : String} {n : Nat} (hn : n < 2 ^ 63)
    (h : doc.get? name = some (.int64 (Int64.ofInt n))) : doc.Says name n := by
  refine ⟨_, h, .int64 ?_⟩
  rw [Int64.toInt_ofInt_of_le (by omega) (by omega)]

/-- There are servers for whatever an operation does, as long as counts fit into a reply. -/
theorem executes_diligent {σ : Type} (step : WriteOp → σ → Except WriteFault (Effect × σ)) (c : Collection)
    (h : ∀ ordered ops s, ops.length ≤ Bulk.maxBatch → total Executed.counted (execute step ordered ops s).1 < 2 ^ 63 ∧
      total Executed.changed (execute step ordered ops s).1 < 2 ^ 63) : Executes (diligent step c) step c := by
  intro k limit s kind ops ordered hwrites hordered hlength _
  obtain ⟨hcounted, hchanged⟩ := h ordered ops s hlength
  have hshort : (execute step ordered ops s).1.length ≤ Bulk.maxBatch :=
    (length_execute_le step ordered ops s).trans hlength
  refine ⟨reportOf (execute step ordered ops s).1, ?_, ?_⟩
  · unfold diligent
    rw [hwrites, hordered]
  · constructor
    case ok => exact ⟨_, rfl, .int32 rfl⟩
    case counted => exact says_int64 hcounted rfl
    case changed => exact fun _ => says_int64 hchanged rfl
    case upserted => exact fun _ => List.length_replicate
    case acknowledged => rfl
    case failures =>
      have hplace : ∀ failure ∈ failures 0 (execute step ordered ops s).1, failure.1 < 2 ^ 63 := by
        intro failure hmem
        have hlt := fst_lt_of_mem_failures _ hmem
        have hmax : Bulk.maxBatch = 1000 := rfl
        omega
      have hitems : (reportOf (execute step ordered ops s).1).itemsUnder "writeErrors" =
          (failures 0 (execute step ordered ops s).1).map fun failure => .ofDocument (failureEntry failure) := rfl
      rw [hitems, List.forall₂_map_left_iff, List.forall₂_same]
      intro failure hmem
      exact ⟨failureEntry failure, rfl, says_int64 (hplace failure hmem) rfl, .inl rfl, rfl⟩

end DocClient
