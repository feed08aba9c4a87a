import DocClient.Proofs.Blob.Attempt
import DocClient.Proofs.Blob.History

/-! What one event does to a file and what a history does: whether it is shut, where it is stored, whether its
chunks are. Main statement: `exists_storing`, which takes a history apart at the close that stored the
chunks. -/
namespace DocClient.Blob
namespace File

variable {f g : File} {e : Event} {es : List Event}

/-- What an event that is not a close leaves as it is. -/
structure Touched (f : File) (e : Event) (g : File) : Prop where
  isClose : e.isClose = false
  store : g.store = f.store
  closed : g.closed = f.closed
  chunksStored : g.chunksStored = f.chunksStored
  err : e.isPlain = true → g.err = f.err
  metadata : e.isPlain = true → g.metadata = f.metadata
  size : (∀ n, e ≠ .setChunkSize n) → g.chunkSize = f.chunkSize
  content : 0 < f.length → g.chunkSize = f.chunkSize ∧ 0 < g.length

private theorem touched_of_write {data : Bytes} {outcome : Except Error Nat} (h : f.Does (.write data outcome) g) :
    Touched f (.write data outcome) g := by
  by_cases haccess : f.closed = true ∨ f.access ≠ .writing
  · obtain rfl : f = g := by
      simp only [Does, write] at h
      obtain hclosed | haccess := haccess
      · rw [if_pos hclosed] at h
        exact (Prod.mk.inj h).2
      · split at h
        · exact (Prod.mk.inj h).2
        · exact (Prod.mk.inj h).2
    exact ⟨rfl, rfl, rfl, rfl, fun _ => rfl, fun _ => rfl, fun _ => rfl, fun hlength => ⟨rfl, hlength⟩⟩
  · obtain ⟨hclosed, haccess⟩ := not_or.mp haccess
    simp only [Does, write] at h
    rw [if_neg hclosed, if_neg haccess] at h
    cases herr : f.err with
    | some e =>
      rw [herr] at h
      obtain rfl := (Prod.mk.inj h).2
      exact ⟨rfl, rfl, rfl, rfl, fun _ => rfl, fun _ => rfl, fun _ => rfl, fun hlength => ⟨rfl, hlength⟩⟩
    | none =>
      rw [herr] at h
      obtain rfl := (Prod.mk.inj h).2
      exact ⟨rfl, rfl, rfl, rfl, fun _ => herr.symm, fun _ => rfl, fun _ => rfl,
        fun hlength => ⟨rfl, Nat.add_pos_left hlength _⟩⟩

/-- An event is a close or leaves alone how far storing has come. -/
theorem does_cases (h : f.Does e g) :
    Touched f e g ∨ ∃ log r fresh, e = .close log r ∧ f.Attempt fresh log r g := by
  cases e with
  | write data outcome => exact .inl (touched_of_write h)
  | @setId α inst v =>
    obtain rfl := h
    unfold setId
    cases lift v <;>
      exact .inl ⟨rfl, rfl, rfl, rfl, nofun, nofun, fun _ => rfl, fun hlength => ⟨rfl, hlength⟩⟩
  | setName name =>
    obtain rfl := h
    exact .inl ⟨rfl, rfl, rfl, rfl, fun _ => rfl, fun _ => rfl, fun _ => rfl, fun hlength => ⟨rfl, hlength⟩⟩
  | setContentType contentType =>
    obtain rfl := h
    exact .inl ⟨rfl, rfl, rfl, rfl, fun _ => rfl, fun _ => rfl, fun _ => rfl, fun hlength => ⟨rfl, hlength⟩⟩
  | setUploaded uploaded =>
    obtain rfl := h
    exact .inl ⟨rfl, rfl, rfl, rfl, fun _ => rfl, fun _ => rfl, fun _ => rfl, fun hlength => ⟨rfl, hlength⟩⟩
  | setChunkSize size =>
    obtain rfl := h
    unfold setChunkSize
    by_cases hlength : f.length = 0
    · split <;> exact .inl ⟨rfl, rfl, rfl, rfl, fun _ => rfl, fun _ => rfl, fun hsize => absurd rfl (hsize size),
        fun hpos => by omega⟩
    · rw [if_neg (by simp [hlength])]
      exact .inl ⟨rfl, rfl, rfl, rfl, fun _ => rfl, fun _ => rfl, fun _ => rfl, fun hpos => ⟨rfl, hpos⟩⟩
  | @setMetadata α inst metadata =>
    obtain rfl := h
    unfold setMetadata
    cases lift metadata <;>
      exact .inl ⟨rfl, rfl, rfl, rfl, nofun, nofun, fun _ => rfl, fun hlength => ⟨rfl, hlength⟩⟩
  | close log r =>
    obtain ⟨fresh, hplays⟩ := h
    exact .inr ⟨log, r, fresh, rfl, attempt_of_plays hplays⟩

theorem touched_of_does (h : f.Does e g) (hopen : e.isClose = false) : Touched f e g := by
  obtain htouched | ⟨log, r, fresh, rfl, -⟩ := does_cases h
  · exact htouched
  · cases hopen

theorem attempt_of_does (h : f.Does e g) (hclose : e.isClose = true) :
    ∃ log r fresh, e = .close log r ∧ f.Attempt fresh log r g := by
  obtain htouched | hattempt := does_cases h
  · have := htouched.isClose.symm.trans hclose
    cases this
  · exact hattempt

theorem closed_of_does (h : f.Does e g) (hclosed : f.closed = true) : g.closed = true := by
  obtain htouched | ⟨log, r, fresh, rfl, hattempt⟩ := does_cases h
  · rw [htouched.closed, hclosed]
  · rw [(hattempt.again_of_closed hclosed).2.2, hclosed]

/-- A file is shut by closes alone. -/
theorem closed_of_ran (h : f.Ran es g) (hopen : ∀ e ∈ es, e.isClose = false) : g.closed = f.closed := by
  induction h with
  | nil => rfl
  | snoc before last ih =>
    simp only [List.forall_mem_append, List.forall_mem_singleton] at hopen
    exact (touched_of_does last hopen.2).closed.trans (ih hopen.1)

theorem store_of_does (h : f.Does e g) : g.store = f.store := by
  obtain htouched | ⟨log, r, fresh, rfl, hattempt⟩ := does_cases h
  · exact htouched.store
  · exact hattempt.kept.1

theorem stored_of_does (h : f.Does e g) (hstored : f.chunksStored = true) : g.chunksStored = true := by
  obtain htouched | ⟨log, r, fresh, rfl, hattempt⟩ := does_cases h
  · rw [htouched.chunksStored, hstored]
  · exact hattempt.stored_of_stored hstored

theorem store_of_ran (h : f.Ran es g) : g.store = f.store := by
  induction h with
  | nil => rfl
  | snoc before last ih => exact (store_of_does last).trans ih

/-- The size of the chunks is settled by the first data. -/
theorem chunkSize_of_ran (h : f.Ran es g) (hlength : 0 < f.length) :
    g.chunkSize = f.chunkSize ∧ 0 < g.length := by
  induction h with
  | nil => exact ⟨rfl, hlength⟩
  | snoc before last ih =>
    obtain ⟨hsize, hpos⟩ := ih
    obtain htouched | ⟨log, r, fresh, rfl, hattempt⟩ := does_cases last
    · obtain ⟨hsize', hpos'⟩ := htouched.content hpos
      exact ⟨hsize'.trans hsize, hpos'⟩
    · obtain ⟨-, -, hsize', hlength'⟩ := hattempt.kept
      exact ⟨hsize'.trans hsize, hlength' ▸ hpos⟩

theorem stored_of_ran (h : f.Ran es g) (hstored : f.chunksStored = true) : g.chunksStored = true := by
  induction h with
  | nil => exact hstored
  | snoc before last ih => exact stored_of_does last ih

/-- A history after which the chunks are stored falls apart at the event that stored them. -/
theorem exists_storing (h : f.Ran es g) (hf : f.chunksStored = false) (hg : g.chunksStored = true) :
    ∃ before a e b after, es = before ++ e :: after ∧ f.Ran before a ∧ a.Does e b ∧ b.Ran after g ∧
      a.chunksStored = false ∧ b.chunksStored = true := by
  induction h with
  | nil =>
    rw [hf] at hg
    cases hg
  | @snoc es e g k before last ih =>
    cases hmiddle : g.chunksStored with
    | false => exact ⟨es, g, e, k, [], rfl, before, last, .nil, hmiddle, hg⟩
    | true =>
      -- They were stored before the last event, so the history before it falls apart.
      obtain ⟨first, a, e', b, rest, rfl, hfirst, hdoes, hrest, ha, hb⟩ := ih hmiddle
      exact ⟨first, a, e', b, rest ++ [e], by simp, hfirst, hdoes, .snoc hrest last, ha, hb⟩

section Storing

variable (names : f.store.files.name ≠ f.store.chunks.name)
include names

/-- The chunks are stored by the event after which they count as stored. -/
theorem stores_iff (h : f.Does e g) :
    e.Stores f.store ↔ f.chunksStored = false ∧ g.chunksStored = true := by
  obtain htouched | ⟨log, r, fresh, rfl, hattempt⟩ := does_cases h
  · have hlog : e.log = [] := by
      have := htouched.isClose
      cases e <;> simp_all [Event.isClose, Event.log]
    simp [Event.Stores, hlog, htouched.chunksStored]
  · exact hattempt.completes_iff names

/-- No event stores the chunks while what counts as stored stays the same. -/
theorem not_stores_of_ran (h : f.Ran es g) (hsame : g.chunksStored = f.chunksStored) :
    ∀ e ∈ es, ¬ e.Stores f.store := by
  induction h with
  | nil => nofun
  | @snoc es e g k before last ih =>
    have hmiddle : g.chunksStored = f.chunksStored := by
      cases hf : f.chunksStored with
      | true => exact stored_of_ran before hf
      | false =>
        rw [hf] at hsame
        cases hg : g.chunksStored with
        | false => rfl
        | true =>
          rw [stored_of_does last hg] at hsame
          cases hsame
    intro e' he'
    obtain he' | he' := List.mem_append.mp he'
    · exact ih hmiddle e' he'
    · obtain rfl := List.mem_singleton.mp he'
      have hstore := store_of_ran before
      rw [← hstore, stores_iff (by rw [hstore]; exact names) last]
      rintro ⟨hunstored, hstored⟩
      rw [hsame, ← hmiddle, hunstored] at hstored
      cases hstored

end Storing

end File

/-- Neither writes nor plain setters nor closes that fail shut a file. -/
theorem opened_of_plain {s : Store} {fresh : Oid} {now : Time} {name : String} {es : List Event} {g : File}
    (hran : (File.create s fresh now name).Ran es g)
    (hplain : ∀ e ∈ es, e.isPlain = true) (hfirst : ∀ e ∈ es, e.finishes = false) :
    g.closed = false ∧ g.err = none := by
  induction hran with
  | nil => exact ⟨rfl, rfl⟩
  | @snoc es e f g before doing ih =>
    simp only [List.forall_mem_append, List.forall_mem_singleton] at hplain hfirst
    obtain ⟨hclosed, herr⟩ := ih hplain.1 hfirst.1
    obtain htouched | ⟨log, r, fresh', rfl, hattempt⟩ := File.does_cases doing
    · exact ⟨htouched.closed.trans hclosed, (htouched.err hplain.2).trans herr⟩
    · cases r with
      | ok u => simp [Event.finishes] at hfirst
      | error e => exact hattempt.open_of_error herr

end DocClient.Blob
