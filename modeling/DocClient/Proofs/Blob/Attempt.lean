import DocClient.Proofs.Blob.Storing

/-! What closing a file exchanges and what it leaves. Main statement: `attempt_of_plays`, which says all that
a close can do; the later modules take closes apart with it and never open `close` itself. -/
namespace DocClient.Blob
namespace File

variable {f g : File} {fresh : Nat → Oid} {log : List Exchange}

/-- A file that is stored when it is closed. -/
structure Pending (f : File) : Prop where
  opened : f.closed = false
  trusted : f.err = none
  writing : f.access = .writing
  content : 0 < f.length

def marked (f : File) : File := { f with chunksStored := true }

/-- The file as the outcome of storing its description leaves it. -/
def settle (f : File) : Except Error Unit → File
  | .ok () => f.shut
  | .error _ => f

/-- The documents of the chunks as they are sent. -/
def chunkDocs (f : File) : List Document := chunkDocuments f.id.outbound.written f.chunkIds f.chunks

def sentDescription (f : File) : Document := (f.description f.id.outbound).written

theorem length_chunkDocs (f : File) : f.chunkDocs.length = min f.chunkIds.length f.chunks.length :=
  length_documentsFrom

theorem get?_sentDescription {name : String} {b : Bson}
    (h : Fields.get? (f.descriptionFields f.id.outbound) name = some b) :
    f.sentDescription.get? name = some b.written :=
  get?_written_description f _ h

/-- A close: what it exchanges, its outcome, and the file that it leaves. -/
inductive Attempt (f : File) (fresh : Nat → Oid) : List Exchange → Except Error Unit → File → Prop
  | again (closed : f.closed = true) : Attempt f fresh [] (.ok ()) f
  | refused {e : Error} (opened : f.closed = false) (err : f.err = some e) :
      Attempt f fresh [] (.error e) { f with err := none }.shut
  | empty (opened : f.closed = false) (trusted : f.err = none)
      (nothing : ¬ (f.access = .writing ∧ 0 < f.length)) : Attempt f fresh [] (.ok ()) f.shut
  | failed {log : List Exchange} {e : Error} (pending : f.Pending) (unstored : f.chunksStored = false)
      (storing : Storing f.store.chunks (f.prepared fresh).chunkIds (f.prepared fresh).chunkDocs f.isRetry
        log (.error e)) :
      Attempt f fresh log (.error e) (f.prepared fresh)
  | stored {first last : List Exchange} {r : Except Error Unit} (pending : f.Pending)
      (unstored : f.chunksStored = false)
      (storing : Storing f.store.chunks (f.prepared fresh).chunkIds (f.prepared fresh).chunkDocs f.isRetry
        first (.ok ()))
      (describing : f.store.files.InsertingOne (f.prepared fresh).sentDescription last r) :
      Attempt f fresh (first ++ last) r ((f.prepared fresh).marked.settle r)
  | described {log : List Exchange} {r : Except Error Unit} (pending : f.Pending)
      (stored : f.chunksStored = true)
      (describing : f.store.files.InsertingOne f.sentDescription log r) :
      Attempt f fresh log r (f.settle r)

theorem prepared_eq (f : File) (fresh : Nat → Oid) :
    ∃ md5 ids, f.prepared fresh = { f with md5 := md5, chunkIds := ids } := by
  unfold prepared
  split
  · exact ⟨f.md5, f.chunkIds, rfl⟩
  · exact ⟨_, _, rfl⟩

@[simp] theorem prepared_store : (f.prepared fresh).store = f.store := by
  obtain ⟨md5, ids, h⟩ := prepared_eq f fresh
  rw [h]

@[simp] theorem prepared_id : (f.prepared fresh).id = f.id := by
  obtain ⟨md5, ids, h⟩ := prepared_eq f fresh
  rw [h]

@[simp] theorem prepared_chunks : (f.prepared fresh).chunks = f.chunks := by
  obtain ⟨md5, ids, h⟩ := prepared_eq f fresh
  rw [h]

@[simp] theorem prepared_chunkSize : (f.prepared fresh).chunkSize = f.chunkSize := by
  obtain ⟨md5, ids, h⟩ := prepared_eq f fresh
  rw [h]

/-- Stores the description of a file whose chunks are stored. -/
def describe (f : File) : Program (Except Error Unit × File) :=
  (f.store.files.insertOne .long (f.description f.id.outbound)).run.bind fun outcome =>
    .done (outcome, f)

theorem plays_describe {r : Except Error Unit} (h : f.describe.Plays log (r, g)) :
    g = f ∧ f.store.files.InsertingOne f.sentDescription log r := by
  obtain ⟨outcome, first, rest, rfl, hinsert, hrest⟩ := Program.plays_bind.mp h
  obtain ⟨rfl, hg⟩ := Program.plays_done.mp hrest
  cases hg
  rw [List.append_nil]
  exact ⟨rfl, Collection.plays_insertOne hinsert⟩

theorem persist_of_stored (h : f.chunksStored = true) (fresh : Nat → Oid) :
    f.persist fresh = f.describe := by
  obtain ⟨⟩ := f
  subst h
  rfl

theorem persist_of_unstored (h : f.chunksStored = false) (fresh : Nat → Oid) :
    f.persist fresh = ((f.prepared fresh).storeChunks f.id.outbound f.isRetry).run.bind fun
      | .error e => .done (.error e, f.prepared fresh)
      | .ok () => (f.prepared fresh).marked.describe := by
  have hid : (f.prepared fresh).marked.id = f.id := prepared_id
  have hstore : (f.prepared fresh).marked.store = f.store := prepared_store
  unfold persist describe
  rw [hid, hstore, h]
  refine congrArg (Program.bind _) (funext fun outcome => ?_)
  obtain e | ⟨⟩ := outcome <;> rfl

theorem close_of_pending (h : f.Pending) (fresh : Nat → Oid) :
    f.close fresh = (f.persist fresh).bind fun
      | (.ok (), f) => .done (.ok (), f.shut)
      | (.error e, f) => .done (.error e, f) := by
  have hstores : (decide (f.access = .writing) && decide (0 < f.length)) = true := by
    simp [h.writing, h.content]
  unfold close
  rw [h.opened, h.trusted]
  exact if_pos hstores

private theorem plays_of_pending (h : f.Pending) {r : Except Error Unit}
    (hplays : (f.close fresh).Plays log (r, g)) :
    ∃ g', (f.persist fresh).Plays log (r, g') ∧ g = g'.settle r := by
  rw [close_of_pending h] at hplays
  obtain ⟨⟨outcome, g'⟩, first, rest, rfl, hpersist, hrest⟩ := Program.plays_bind.mp hplays
  cases outcome with
  | error e =>
    obtain ⟨rfl, hg⟩ := Program.plays_done.mp hrest
    cases hg
    exact ⟨_, by simpa using hpersist, rfl⟩
  | ok u =>
    obtain ⟨rfl, hg⟩ := Program.plays_done.mp hrest
    cases hg
    exact ⟨_, by simpa using hpersist, rfl⟩

/-- A close does one of six things. -/
theorem attempt_of_plays {r : Except Error Unit} (h : (f.close fresh).Plays log (r, g)) :
    Attempt f fresh log r g := by
  by_cases hclosed : f.closed = true
  · rw [close, if_pos hclosed] at h
    obtain ⟨rfl, hg⟩ := Program.plays_done.mp h
    cases hg
    exact .again hclosed
  have hopened : f.closed = false := by simpa using hclosed
  cases herr : f.err with
  | some e =>
    rw [close, if_neg hclosed, herr] at h
    obtain ⟨rfl, hg⟩ := Program.plays_done.mp h
    cases hg
    exact .refused hopened herr
  | none =>
    by_cases hcontent : f.access = .writing ∧ 0 < f.length
    · have hpending : f.Pending := ⟨hopened, herr, hcontent.1, hcontent.2⟩
      obtain ⟨g', hpersist, rfl⟩ := plays_of_pending hpending h
      cases hstored : f.chunksStored with
      | true =>
        rw [persist_of_stored hstored] at hpersist
        obtain ⟨rfl, hdescribing⟩ := plays_describe hpersist
        exact .described hpending hstored hdescribing
      | false =>
        rw [persist_of_unstored hstored] at hpersist
        obtain ⟨outcome, first, rest, rfl, hstore, hrest⟩ := Program.plays_bind.mp hpersist
        have hstoring := plays_storeChunks hstore
        have hid : (f.prepared fresh).id = f.id := prepared_id
        rw [prepared_store, ← hid] at hstoring
        cases outcome with
        | error e =>
          obtain ⟨rfl, hg⟩ := Program.plays_done.mp hrest
          cases hg
          rw [List.append_nil]
          exact .failed hpending hstored hstoring
        | ok u =>
          obtain ⟨rfl, hdescribing⟩ := plays_describe hrest
          have hstore : (f.prepared fresh).marked.store = f.store := prepared_store
          rw [hstore] at hdescribing
          exact .stored hpending hstored hstoring hdescribing
    · rw [close, if_neg hclosed, herr] at h
      have hskip : ¬ (decide (f.access = .writing) && decide (0 < f.length)) = true := by
        simpa using hcontent
      rw [if_neg hskip] at h
      obtain ⟨rfl, hg⟩ := Program.plays_done.mp h
      cases hg
      exact .empty hopened herr hcontent

namespace Attempt

variable {r : Except Error Unit}

/-- A close that sends anything is of a file to store. -/
theorem pending_of_mem (h : Attempt f fresh log r g) {x : Exchange} (hx : x ∈ log) : f.Pending := by
  cases h with
  | again => cases hx
  | refused => cases hx
  | empty => cases hx
  | failed pending => exact pending
  | stored pending => exact pending
  | described pending => exact pending

/-- A close that fails leaves a file without setter errors open. -/
theorem open_of_error {e : Error} (h : Attempt f fresh log (.error e) g) (htrusted : f.err = none) :
    g.closed = false ∧ g.err = none := by
  obtain ⟨md5, ids, hprepared⟩ := prepared_eq f fresh
  cases h with
  | refused opened err => simp [htrusted] at err
  | failed pending => simp [hprepared, pending.opened, htrusted]
  | stored pending => simp [hprepared, settle, marked, pending.opened, htrusted]
  | described pending => exact ⟨pending.opened, htrusted⟩

theorem closed_of_ok (h : Attempt f fresh log (.ok ()) g) : g.closed = true := by
  cases h with
  | again closed => exact closed
  | empty => rfl
  | stored => rfl
  | described => rfl

theorem closed_iff (h : Attempt f fresh log r g) (htrusted : f.err = none) :
    g.closed = true ↔ r = .ok () := by
  cases r with
  | error e => simp [h.open_of_error htrusted]
  | ok u => simp [h.closed_of_ok]

theorem again_of_closed (h : Attempt f fresh log r g) (hclosed : f.closed = true) :
    log = [] ∧ r = .ok () ∧ g = f := by
  cases h with
  | again => exact ⟨rfl, rfl, rfl⟩
  | refused opened => simp [opened] at hclosed
  | empty opened => simp [opened] at hclosed
  | failed pending => simp [pending.opened] at hclosed
  | stored pending => simp [pending.opened] at hclosed
  | described pending => simp [pending.opened] at hclosed

theorem stored_of_stored (h : Attempt f fresh log r g) (hstored : f.chunksStored = true) :
    g.chunksStored = true := by
  cases h with
  | again => exact hstored
  | refused => exact hstored
  | empty => exact hstored
  | failed pending unstored => simp [unstored] at hstored
  | stored => cases r <;> rfl
  | described => cases r <;> exact hstored

/-- What a close leaves as it is. -/
theorem kept (h : Attempt f fresh log r g) :
    g.store = f.store ∧ g.id = f.id ∧ g.chunkSize = f.chunkSize ∧ g.length = f.length := by
  obtain ⟨md5, ids, hprepared⟩ := prepared_eq f fresh
  cases h with
  | again => exact ⟨rfl, rfl, rfl, rfl⟩
  | refused => exact ⟨rfl, rfl, rfl, rfl⟩
  | empty => exact ⟨rfl, rfl, rfl, rfl⟩
  | failed => simp [hprepared]
  | stored => cases r <;> simp [hprepared, settle, marked, shut]
  | described => cases r <;> exact ⟨rfl, rfl, rfl, rfl⟩

/-- A file with content is not finished before its description is inserted. -/
theorem exists_describing (h : Attempt f fresh log (.ok ()) g) (hpending : f.Pending) :
    ∃ x ∈ log, x.command.IsFor "insert" f.store.files := by
  cases h with
  | again closed => simp [hpending.opened] at closed
  | empty opened trusted nothing => exact absurd ⟨hpending.writing, hpending.content⟩ nothing
  | stored pending unstored storing describing =>
    obtain ⟨x, rfl⟩ := describing.exists_eq_singleton rfl
    exact ⟨x, by simp, (describing.forall_mem x (by simp)).1.1⟩
  | described pending stored describing =>
    obtain ⟨x, rfl⟩ := describing.exists_eq_singleton rfl
    exact ⟨x, by simp, (describing.forall_mem x (by simp)).1.1⟩

variable (names : f.store.files.name ≠ f.store.chunks.name)
include names

private theorem not_chunks_of_describing {doc : Document} {x : Exchange}
    (h : f.store.files.InsertingOne doc log r) (hx : x ∈ log) :
    ¬ x.command.IsFor "insert" f.store.chunks := by
  intro hchunks
  exact names ((h.forall_mem x hx).1.1.unique hchunks).2

/-- An insertion of chunks is completed exactly by a close after which the chunks are stored. -/
theorem completes_iff (h : Attempt f fresh log r g) :
    (∃ x ∈ log, x.Completes f.store.chunks) ↔ f.chunksStored = false ∧ g.chunksStored = true := by
  cases h with
  | again => simp
  | refused => simp [shut]
  | empty => simp [shut]
  | failed pending unstored storing =>
    obtain ⟨md5, ids, hprepared⟩ := prepared_eq f fresh
    rw [← storing.ok_iff]
    simp [hprepared, unstored]
  | stored pending unstored storing describing =>
    obtain ⟨x, hx, hcompletes⟩ := storing.ok_iff.mp rfl
    have hstored : ((f.prepared fresh).marked.settle r).chunksStored = true := by cases r <;> rfl
    simp only [unstored, hstored, and_self, iff_true]
    exact ⟨x, List.mem_append_left _ hx, hcompletes⟩
  | described pending stored describing =>
    simp only [stored, reduceCtorEq, false_and, iff_false]
    rintro ⟨x, hx, hcompletes⟩
    exact not_chunks_of_describing names describing hx hcompletes.1

/-- When a close stores the chunks the server took their documents. -/
theorem taken_eq (h : Attempt f fresh log r g) (hf : f.chunksStored = false) (hg : g.chunksStored = true) :
    log.flatMap (·.taken f.store.chunks) = (f.prepared fresh).chunkDocs := by
  cases h with
  | again => simp [hf] at hg
  | refused => simp [shut, hf] at hg
  | empty => simp [shut, hf] at hg
  | failed pending unstored storing =>
    obtain ⟨md5, ids, hprepared⟩ := prepared_eq f fresh
    simp [hprepared, hf] at hg
  | stored pending unstored storing describing =>
    have hnone : ∀ {last : List Exchange}, f.store.files.InsertingOne (f.prepared fresh).sentDescription last r →
        last.flatMap (·.taken f.store.chunks) = [] := by
      intro last hlast
      rw [List.flatMap_eq_nil_iff]
      intro x hx
      exact Exchange.taken_of_not_isFor (not_chunks_of_describing names hlast hx)
    rw [List.flatMap_append, storing.taken_eq rfl, hnone describing, List.append_nil]
  | described pending stored describing => simp [stored] at hf

/-- An insertion into the descriptions is of the description of the file, whose chunks are stored then. -/
theorem describes (h : Attempt f fresh log r g) {x : Exchange} (hx : x ∈ log)
    (hfor : x.command.IsFor "insert" f.store.files) :
    x.command.Inserts f.store.files [g.sentDescription] ∧ g.chunksStored = true ∧
      (r = .ok () ↔ ∃ n, x.reply.inserted = .ok n) := by
  cases h with
  | again => cases hx
  | refused => cases hx
  | empty => cases hx
  | failed pending unstored storing => exact absurd hfor (storing.not_describes names hx)
  | stored pending unstored storing describing =>
    obtain hx | hx := List.mem_append.mp hx
    · exact absurd hfor (storing.not_describes names hx)
    · obtain ⟨hinserts, hreply⟩ := describing.forall_mem x hx
      refine ⟨?_, ?_, hreply⟩
      · cases r <;> exact hinserts
      · cases r <;> rfl
  | described pending stored describing =>
    obtain ⟨hinserts, hreply⟩ := describing.forall_mem x hx
    refine ⟨?_, ?_, hreply⟩
    · cases r <;> exact hinserts
    · cases r <;> exact stored

end Attempt

end File
end DocClient.Blob
