import DocClient.Proofs.Blob.Holdings
import DocClient.Proofs.Blob.Progress
import DocClient.Proofs.Blob.Tracking

/-! Closing a file again and again until it succeeds. Whatever the attempts that failed have left, one copy
of the file is stored in the end. Main statement: `copied_of_closed`. -/
namespace DocClient.Blob

/-- Each chunk of a file is held once, under its number, and nothing else of the file. -/
def Complete (f : File) (h : Holdings) : Prop :=
  (h.chunks.filter (·.get? "files_id" = some f.id.outbound.written)).map numbered? =
    (f.chunks.zipIdx.map fun p => some ((p.2 : Int), p.1) : List (Option (Int × Bytes)))

/-- No insertion of chunks was completed, and no description sent. -/
def Fruitless (s : Store) (log : List Exchange) : Prop :=
  ∀ x ∈ log, ¬ x.Completes s.chunks ∧ ¬ x.command.IsFor "insert" s.files

/-- One insertion of chunks was completed, and nothing but descriptions sent from then on. -/
def Ordered (s : Store) (log : List Exchange) : Prop :=
  ∃ first x last, log = first ++ x :: last ∧ Fruitless s first ∧ x.Completes s.chunks ∧
    ∀ y ∈ last, y.command.IsFor "insert" s.files

/-- How far the closes of a file have come, with what was exchanged for them and what is held then. -/
inductive Stage (f : File) (start : Holdings) : List Exchange → File → Holdings → Prop
  | unstored {log : List Exchange} {g : File} {h : Holdings} (pending : g.Pending)
      (unstored : g.chunksStored = false) (store : g.store = f.store) (id : g.id = f.id)
      (chunks : g.chunks = f.chunks) (ids : g.chunkIds = [] ∨ g.chunkIds.length = g.chunks.length)
      (files : h.files = start.files)
      (leftovers : ∀ doc ∈ h.chunks, doc.get? "files_id" = some f.id.outbound.written →
        doc.HasIdIn (g.chunkIds.map .objectId))
      (fruitless : Fruitless f.store log) : Stage f start log g h
  | stored {log : List Exchange} {g : File} {h : Holdings} (pending : g.Pending)
      (stored : g.chunksStored = true) (store : g.store = f.store) (id : g.id = f.id)
      (files : h.files = start.files) (complete : Complete f h) (ordered : Ordered f.store log) :
      Stage f start log g h
  | finished {log : List Exchange} {g : File} {h : Holdings} (closed : g.closed = true) (id : g.id = f.id)
      (files : h.files = start.files + {g.sentDescription}) (complete : Complete f h)
      (ordered : Ordered f.store log) : Stage f start log g h

theorem Fruitless.append {s : Store} {log log' : List Exchange} (h : Fruitless s log)
    (h' : Fruitless s log') : Fruitless s (log ++ log') :=
  List.forall_mem_append.mpr ⟨h, h'⟩

theorem Ordered.append {s : Store} {log log' : List Exchange} (h : Ordered s log)
    (h' : ∀ y ∈ log', y.command.IsFor "insert" s.files) : Ordered s (log ++ log') := by
  obtain ⟨first, x, last, rfl, hfirst, hx, hlast⟩ := h
  exact ⟨first, x, last ++ log', by simp, hfirst, hx, List.forall_mem_append.mpr ⟨hlast, h'⟩⟩

theorem Fruitless.ordered {s : Store} {log log' : List Exchange} (h : Fruitless s log)
    (h' : Ordered s log') : Ordered s (log ++ log') := by
  obtain ⟨first, x, last, rfl, hfirst, hx, hlast⟩ := h'
  exact ⟨log ++ first, x, last, by simp, h.append hfirst, hx, hlast⟩

section Storing

variable {s : Store} (names : s.files.name ≠ s.chunks.name) {ids : List Oid} {docs : List Document}
  {retry : Bool} {log : List Exchange}
include names

theorem Storing.fruitless {e : Error} (h : Storing s.chunks ids docs retry log (.error e)) :
    Fruitless s log := by
  intro x hx
  refine ⟨?_, h.not_describes names hx⟩
  intro hcompletes
  cases h.ok_iff.mpr ⟨x, hx, hcompletes⟩

theorem Storing.ordered (h : Storing s.chunks ids docs retry log (.ok ())) : Ordered s log := by
  obtain ⟨x, hx, hcompletes⟩ := h.ok_iff.mp rfl
  obtain ⟨first, last, hlog⟩ := List.append_of_mem hx
  obtain rfl := h.nil_of_completes hlog hcompletes
  refine ⟨first, x, [], hlog, ?_, hcompletes, nofun⟩
  intro y hy
  refine ⟨?_, h.not_describes names (by simp [hlog, hy])⟩
  intro hcompletes'
  obtain ⟨before, after, rfl⟩ := List.append_of_mem hy
  have hlog' : log = before ++ y :: (after ++ [x]) := by simp [hlog]
  have := h.nil_of_completes hlog' hcompletes'
  simp at this

end Storing

variable {f g k : File} {start h h' : Holdings} {log log' : List Exchange} {r : Except Error Unit}

/-- The documents of as many chunks as there are identifiers are numbered one by one. -/
theorem numbered?_chunkDocs (hids : g.chunkIds.length = g.chunks.length)
    (hfew : g.chunks.length < chunkLimit) :
    g.chunkDocs.map numbered? = g.chunks.zipIdx.map fun p => some ((p.2 : Int), p.1) := by
  have hlimit : 0 + g.chunks.length ≤ chunkLimit := by omega
  unfold File.chunkDocs chunkDocuments
  rw [numbered?_documentsFrom hlimit, hids, List.take_length]

theorem mem_chunkDocs {doc : Document} (hdoc : doc ∈ g.chunkDocs) :
    doc.get? "files_id" = some g.id.outbound.written ∧ doc.HasIdIn (g.chunkIds.map .objectId) := by
  obtain ⟨n, id, hid, data, -, rfl⟩ := exists_of_mem_documentsFrom hdoc
  exact ⟨get?_chunkDocument_filesId, .objectId id, List.mem_map_of_mem hid, get?_chunkDocument_id⟩

/-- Before the first attempt and in every later one there is an identifier for each chunk. -/
private theorem length_prepared (hids : g.chunkIds = [] ∨ g.chunkIds.length = g.chunks.length)
    (fresh : Nat → Oid) : (g.prepared fresh).chunkIds.length = g.chunks.length := by
  cases hg : g.chunkIds with
  | nil => simp [File.prepared, File.isRetry, hg]
  | cons id ids =>
    rw [hg] at hids
    simpa [File.prepared, File.isRetry, hg] using hids

/-- What an earlier attempt left is removed by a retry. -/
private theorem leftover_prepared {doc : Document} (hdoc : doc.HasIdIn (g.chunkIds.map .objectId))
    (fresh : Nat → Oid) :
    g.isRetry = true ∧ doc.HasIdIn ((g.prepared fresh).chunkIds.map .objectId) := by
  have hretry : g.isRetry = true := by
    obtain ⟨id, hid, -⟩ := hdoc
    obtain ⟨oid, hoid, -⟩ := List.mem_map.mp hid
    simpa [File.isRetry] using List.ne_nil_of_mem hoid
  refine ⟨hretry, ?_⟩
  rw [File.prepared, if_pos hretry]
  exact hdoc

/-- Once the chunks are stored, the outcome of the description decides whether a file is finished. -/
private theorem Stage.describe (pending : g.Pending) (stored : g.chunksStored = true) (store : g.store = f.store)
    (id : g.id = f.id) (files : h.files = start.files) (complete : Complete f h) (ordered : Ordered f.store log)
    (hdescribing : f.store.files.InsertingOne g.sentDescription log' r) (hserved : Served f.store h log' h') :
    Stage f start (log ++ log') (g.settle r) h' := by
  obtain ⟨hchunks, hfiles⟩ := served_describing hdescribing hserved
  have hcomplete : Complete f h' := by
    rw [Complete, hchunks]
    exact complete
  have hordered : Ordered f.store (log ++ log') := ordered.append fun y hy => (hdescribing.forall_mem y hy).1.1
  cases r with
  | ok u =>
    refine .finished rfl id ?_ hcomplete hordered
    rw [hfiles, files]
    rfl
  | error e =>
    refine .stored pending stored store id ?_ hcomplete hordered
    rw [hfiles, files]
    exact Multiset.add_zero _

/-- A close goes on from where the closes before it have come. -/
theorem Stage.step (names : f.store.files.name ≠ f.store.chunks.name)
    (hfew : f.chunks.length < chunkLimit) {fresh : Nat → Oid} (hstage : Stage f start log g h)
    (hattempt : g.Attempt fresh log' r k) (hserved : Served f.store h log' h') :
    Stage f start (log ++ log') k h' := by
  cases hstage with
  | unstored pending unstored store id chunks ids files leftovers fruitless =>
    obtain ⟨md5, ids', hprepared⟩ := g.prepared_eq fresh
    have hpending : (g.prepared fresh).Pending := by
      rw [hprepared]
      exact ⟨pending.opened, pending.trusted, pending.writing, pending.content⟩
    have hdocs : ∀ doc ∈ (g.prepared fresh).chunkDocs,
        doc.get? "files_id" = some f.id.outbound.written ∧
          doc.HasIdIn ((g.prepared fresh).chunkIds.map .objectId) := by
      intro doc hdoc
      have := mem_chunkDocs hdoc
      rwa [File.prepared_id, id] at this
    -- What is left of the file carries identifiers from the list that a retry removes first.
    have hleft : ∀ doc ∈ h.chunks, doc.get? "files_id" = some f.id.outbound.written →
        g.isRetry = true ∧ doc.HasIdIn ((g.prepared fresh).chunkIds.map .objectId) :=
      fun doc hdoc hof => leftover_prepared (leftovers doc hdoc hof) fresh
    have hcount : (g.prepared fresh).chunkIds.length = (g.prepared fresh).chunks.length := by
      rw [length_prepared ids fresh, File.prepared_chunks]
    cases hattempt with
    | again closed => simp [pending.opened] at closed
    | refused opened err => simp [pending.trusted] at err
    | empty opened trusted nothing => exact absurd ⟨pending.writing, pending.content⟩ nothing
    | failed _ _ storing =>
      rw [store] at storing
      obtain ⟨hfiles, hleft', -⟩ := served_storing storing hserved hdocs hleft
      have hunstored : (g.prepared fresh).chunksStored = false := by rw [hprepared]; exact unstored
      exact .unstored hpending hunstored (File.prepared_store.trans store) (File.prepared_id.trans id)
        (File.prepared_chunks.trans chunks) (.inr hcount) (hfiles.trans files) hleft'
        (fruitless.append (storing.fruitless names))
    | @stored first last r _ _ storing describing =>
      rw [store] at storing describing
      obtain ⟨h'', hfirst, hlast⟩ := Served.append_iff.mp hserved
      obtain ⟨hfiles, -, hheld⟩ := served_storing storing hfirst hdocs hleft
      have hcomplete : Complete f h'' := by
        have hnumbered := numbered?_chunkDocs hcount (by rw [File.prepared_chunks, chunks]; exact hfew)
        rw [File.prepared_chunks, chunks] at hnumbered
        rw [Complete, hheld rfl, Multiset.map_coe, hnumbered]
      have hmarked : (g.prepared fresh).marked.Pending :=
        ⟨hpending.opened, hpending.trusted, hpending.writing, hpending.content⟩
      rw [← List.append_assoc]
      exact .describe hmarked rfl (File.prepared_store.trans store) (File.prepared_id.trans id) (hfiles.trans files)
        hcomplete (fruitless.ordered (storing.ordered names)) describing hlast
    | described _ stored describing => simp [unstored] at stored
  | stored pending stored store id files complete ordered =>
    cases hattempt with
    | again closed => simp [pending.opened] at closed
    | refused opened err => simp [pending.trusted] at err
    | empty opened trusted nothing => exact absurd ⟨pending.writing, pending.content⟩ nothing
    | failed _ unstored storing => simp [stored] at unstored
    | stored _ unstored storing describing => simp [stored] at unstored
    | described _ _ describing =>
      rw [store] at describing
      exact .describe pending stored store id files complete ordered describing hserved
  | finished closed id files complete ordered =>
    obtain ⟨rfl, -, rfl⟩ := hattempt.again_of_closed closed
    obtain rfl := Served.nil_iff.mp hserved
    rw [List.append_nil]
    exact .finished closed id files complete ordered

/-- What closes do one after the other, to a file that they find at some stage. -/
theorem stage_of_ran (names : f.store.files.name ≠ f.store.chunks.name)
    (hfew : f.chunks.length < chunkLimit) (hfirst : Stage f start [] f start) (hopened : f.closed = false)
    {es : List Event} (hran : f.Ran es g) (hcloses : ∀ e ∈ es, e.isClose = true)
    (hserved : Served f.store start (es.flatMap Event.log) h) :
    Stage f start (es.flatMap Event.log) g h ∧ (g.closed = true ↔ ∃ e ∈ es, e.finishes = true) := by
  induction hran generalizing h with
  | nil =>
    obtain rfl := Served.nil_iff.mp hserved
    exact ⟨hfirst, by simp [hopened]⟩
  | @snoc es e g k before last ih =>
    -- The holdings before the last close are those that the closes before it have left.
    simp only [List.forall_mem_append, List.forall_mem_singleton] at hcloses
    rw [List.flatMap_append, List.flatMap_singleton] at hserved ⊢
    obtain ⟨h', hserved, hlast⟩ := Served.append_iff.mp hserved
    obtain ⟨hstage, hclosed⟩ := ih hcloses.1 hserved
    obtain ⟨log, r, fresh, rfl, hattempt⟩ := File.attempt_of_does last hcloses.2
    refine ⟨hstage.step names hfew hattempt hlast, ?_⟩
    have hsnoc : (∃ e ∈ es ++ [.close log r], e.finishes = true) ↔ g.closed = true ∨ r = .ok () := by
      rw [hclosed]
      simp only [List.mem_append, List.mem_singleton, or_and_right, exists_or, exists_eq_left,
        Event.finishes_close]
    rw [hsnoc]
    by_cases hg : g.closed = true
    · obtain ⟨-, rfl, rfl⟩ := hattempt.again_of_closed hg
      simp [hg]
    · have htrusted : g.err = none := by
        cases hstage with
        | unstored pending => exact pending.trusted
        | stored pending => exact pending.trusted
        | finished closed => exact absurd closed hg
      rw [hattempt.closed_iff htrusted]
      simp [hg]

private theorem append_cons_cases {α : Type} {first last before after : List α} {x y : α}
    (h : first ++ x :: last = before ++ y :: after) :
    y ∈ first ∨ (x = y ∧ last = after) ∨ x ∈ before ∧ y ∈ last := by
  obtain ⟨others, rfl, hrest⟩ | ⟨others, rfl, hrest⟩ := List.append_eq_append_iff.mp h
  · cases others with
    | nil =>
      obtain ⟨rfl, rfl⟩ := List.cons.inj hrest
      exact .inr (.inl ⟨rfl, rfl⟩)
    | cons z others =>
      obtain ⟨rfl, rfl⟩ := List.cons.inj hrest
      exact .inr (.inr ⟨by simp, by simp⟩)
  · cases others with
    | nil =>
      obtain ⟨rfl, rfl⟩ := List.cons.inj hrest
      exact .inr (.inl ⟨rfl, rfl⟩)
    | cons z others =>
      obtain ⟨rfl, -⟩ := List.cons.inj hrest
      exact .inl (by simp)

/-- Descriptions are sent after an insertion of chunks was completed. -/
theorem Ordered.exists_of_describes {s : Store} (names : s.files.name ≠ s.chunks.name)
    (hordered : Ordered s log) {before after : List Exchange} {y : Exchange}
    (hlog : log = before ++ y :: after) (hy : y.command.IsFor "insert" s.files) :
    ∃ x ∈ before, x.Completes s.chunks := by
  obtain ⟨first, x, last, rfl, hfirst, hx, -⟩ := hordered
  obtain hmem | ⟨rfl, -⟩ | ⟨hmem, -⟩ := append_cons_cases hlog
  · exact absurd hy (hfirst y hmem).2
  · exact absurd (hy.unique hx.1).2 names
  · exact ⟨x, hmem, hx⟩

/-- After an insertion of chunks was completed nothing but descriptions is sent. -/
theorem Ordered.describes_of_completes {s : Store} (names : s.files.name ≠ s.chunks.name)
    (hordered : Ordered s log) {before after : List Exchange} {y : Exchange}
    (hlog : log = before ++ y :: after) (hy : y.Completes s.chunks) :
    ∀ z ∈ after, z.command.IsFor "insert" s.files := by
  obtain ⟨first, x, last, rfl, hfirst, -, hlast⟩ := hordered
  obtain hmem | ⟨-, rfl⟩ | ⟨-, hmem⟩ := append_cons_cases hlog
  · exact absurd hy (hfirst y hmem).1
  · exact hlast
  · exact absurd ((hlast y hmem).unique hy.1).2 names

/-- What closes leave of a file, its chunks given, when they start from some holdings. -/
structure Copied (s : Store) (id : Bson) (chunks : List Bytes) (start : Holdings) (es : List Event)
    (h : Holdings) : Prop where
  /-- No description is there before the close that succeeds. -/
  unseen : (∀ e ∈ es, e.finishes = false) → h.files = start.files
  /-- A description is sent after an insertion of chunks was completed. -/
  preceded : ∀ before x after, es.flatMap Event.log = before ++ x :: after →
    x.command.IsFor "insert" s.files → ∃ y ∈ before, y.Completes s.chunks
  /-- No chunk is removed or inserted again once an insertion of chunks was completed. -/
  settled : ∀ before x after, es.flatMap Event.log = before ++ x :: after → x.Completes s.chunks →
    ∀ y ∈ after, ¬ y.command.IsFor "delete" s.chunks ∧ ¬ y.command.IsFor "insert" s.chunks
  /-- After the close that succeeds each chunk is held once, and nothing else of the file. -/
  complete : (∃ e ∈ es, e.finishes = true) →
    (h.chunks.filter (·.get? "files_id" = some id)).map numbered? =
      (chunks.zipIdx.map fun p => some ((p.2 : Int), p.1) : List (Option (Int × Bytes)))
  /-- There is one description then. -/
  described : (∃ e ∈ es, e.finishes = true) →
    ∃ d, d.get? "_id" = some id ∧ h.files = start.files + {d}
  /-- Later closes do nothing. -/
  finished : ∀ before e after, es = before ++ e :: after → e.finishes = true →
    ∀ e' ∈ after, e' = .close [] (.ok ())

private theorem Stage.copied (names : f.store.files.name ≠ f.store.chunks.name) {es : List Event}
    (hstage : Stage f start (es.flatMap Event.log) g h)
    (hclosed : g.closed = true ↔ ∃ e ∈ es, e.finishes = true)
    (hfinished : ∀ before e after, es = before ++ e :: after → e.finishes = true →
      ∀ e' ∈ after, e' = .close [] (.ok ())) :
    Copied f.store f.id.outbound.written f.chunks start es h where
  unseen := by
    intro hnone
    cases hstage with
    | unstored _ _ _ _ _ _ files => exact files
    | stored _ _ _ _ files => exact files
    | finished closed =>
      obtain ⟨e, he, hfinishes⟩ := hclosed.mp closed
      rw [hnone e he] at hfinishes
      cases hfinishes
  preceded := by
    intro before x after hlog hx
    cases hstage with
    | unstored _ _ _ _ _ _ _ _ fruitless => exact absurd hx (fruitless x (by simp [hlog])).2
    | stored _ _ _ _ _ _ ordered => exact ordered.exists_of_describes names hlog hx
    | finished _ _ _ _ ordered => exact ordered.exists_of_describes names hlog hx
  settled := by
    intro before x after hlog hx y hy
    have hdescribes : y.command.IsFor "insert" f.store.files := by
      cases hstage with
      | unstored _ _ _ _ _ _ _ _ fruitless => exact absurd hx (fruitless x (by simp [hlog])).1
      | stored _ _ _ _ _ _ ordered => exact ordered.describes_of_completes names hlog hx y hy
      | finished _ _ _ _ ordered => exact ordered.describes_of_completes names hlog hx y hy
    refine ⟨?_, ?_⟩
    · intro hdelete
      exact absurd (hdescribes.unique hdelete).1 (by decide)
    · intro hinsert
      exact names (hdescribes.unique hinsert).2
  complete := by
    intro hfinishes
    cases hstage with
    | unstored pending =>
      have := pending.opened.symm.trans (hclosed.mpr hfinishes)
      cases this
    | stored _ _ _ _ _ complete => exact complete
    | finished _ _ _ complete => exact complete
  described := by
    intro hfinishes
    have hshut := hclosed.mpr hfinishes
    cases hstage with
    | unstored pending =>
      rw [pending.opened] at hshut
      cases hshut
    | stored pending =>
      rw [pending.opened] at hshut
      cases hshut
    | finished _ id files =>
      refine ⟨g.sentDescription, ?_, files⟩
      rw [← id]
      exact File.get?_sentDescription (f := g) (b := g.id.outbound) rfl
  finished := hfinished

private theorem again_of_ran {es : List Event} (hran : f.Ran es g) (hclosed : f.closed = true)
    (hcloses : ∀ e ∈ es, e.isClose = true) :
    g.closed = true ∧ ∀ e ∈ es, e = .close [] (.ok ()) := by
  induction hran with
  | nil => exact ⟨hclosed, nofun⟩
  | @snoc es e g k before last ih =>
    simp only [List.forall_mem_append, List.forall_mem_singleton] at hcloses ⊢
    obtain ⟨hg, hall⟩ := ih hcloses.1
    obtain ⟨log, r, fresh, rfl, hattempt⟩ := File.attempt_of_does last hcloses.2
    obtain ⟨rfl, rfl, rfl⟩ := hattempt.again_of_closed hg
    exact ⟨hg, hall, rfl⟩

/-- Closing a file until it succeeds leaves one copy of it, whatever the attempts that failed have left. -/
theorem copied_of_closed (db : Database) (start : String) {fresh : Oid} {now : Time} {name : String}
    {setup es : List Event} {held : Holdings}
    (hsetup : (File.create (db.blobs start) fresh now name).Ran setup f)
    (hopen : ∀ e ∈ setup, e.isClose = false) (htrusted : f.err = none) (hdata : accepted setup ≠ [])
    (hfew : (split f.chunkSize (accepted setup)).length < chunkLimit)
    (hcloses : ∀ e ∈ es, e.isClose = true) (hran : f.Ran es g)
    (hclean : ∀ doc ∈ held.chunks, doc.get? "files_id" ≠ some f.id.outbound.written)
    (hserved : Served (db.blobs start) held (es.flatMap Event.log) h) :
    Copied (db.blobs start) f.id.outbound.written (split f.chunkSize (accepted setup)) held es h := by
  have names := blobs_names_ne db start
  have hopened : f.closed = false := File.closed_of_ran hsetup hopen
  have htracks := tracks_of_ran hsetup hopened
  have hpending := htracks.pending htrusted hdata
  have hstore : f.store = db.blobs start := htracks.store
  have hfirst : Stage f held [] f held := by
    obtain ⟨hids, hunstored, -⟩ | htried := htracks.tried
    · exact .unstored hpending hunstored rfl rfl rfl (.inl hids) rfl
        (fun doc hdoc hof => absurd hof (hclean doc hdoc)) nofun
    · obtain ⟨e, he, hclose⟩ := htried.closed
      rw [hopen e he] at hclose
      cases hclose
  obtain ⟨hstage, hclosed⟩ := stage_of_ran (by rw [hstore]; exact names) (by rw [htracks.chunks]; exact hfew)
    hfirst hopened hran hcloses (by rw [hstore]; exact hserved)
  have hfinished : ∀ before e after, es = before ++ e :: after → e.finishes = true →
      ∀ e' ∈ after, e' = .close [] (.ok ()) := by
    intro before e after hsplit hfinishes
    rw [hsplit, List.append_cons] at hran
    rw [hsplit, List.forall_mem_append, List.forall_mem_cons] at hcloses
    obtain ⟨k, hbefore, hafter⟩ := File.ran_append.mp hran
    obtain ⟨g', -, hlast⟩ := File.ran_snoc.mp hbefore
    obtain ⟨log, r, fresh', rfl, hattempt⟩ := File.attempt_of_does hlast hcloses.2.1
    obtain rfl := (Event.finishes_close log r).mp hfinishes
    exact (again_of_ran hafter hattempt.closed_of_ok hcloses.2.2).2
  have hcopied := hstage.copied (by rw [hstore]; exact names) hclosed hfinished
  rw [hstore, htracks.chunks] at hcopied
  exact hcopied

/-- A file that is closed three times, the first time with the connection lost. -/
theorem copied_of_lost_connection : ∃ (first last : List Exchange) (f g : File) (h : Holdings),
    Sample.file.Ran [.write [97] (.ok 1)] f ∧
    f.Ran [.close first (.error (.transport .io)), .close last (.ok ()), .close [] (.ok ())] g ∧
    Copied (Sample.database.blobs "fs") f.id.outbound.written (split f.chunkSize [97]) ⟨0, 0⟩
      [.close first (.error (.transport .io)), .close last (.ok ()), .close [] (.ok ())] h := by
  let f : File := (Sample.file.write [97]).2
  have hwrite : Sample.file.Ran ([] ++ [.write [97] (.ok 1)]) f :=
    .snoc .nil (show Sample.file.Does (.write [97] (.ok 1)) f from rfl)
  have hone : (split defaultChunkSize [97]).length ≤ 1 := (length_split_le_iff (by decide)).mpr (by decide)
  obtain ⟨first, hfailed⟩ := Sample.exists_close_dropped (f := f) ⟨rfl, rfl, rfl, by decide⟩ rfl
    ⟨⟨_, rfl⟩, ⟨_, rfl⟩, by decide, rfl, nofun⟩
  let g : File := f.prepared Sample.fresh
  have hdocs : (g.prepared Sample.fresh).chunkDocs.length ≤ 1 := by
    rw [File.length_chunkDocs, File.prepared_chunks]
    exact Nat.le_trans (Nat.min_le_right _ _) hone
  let k : File := (g.prepared Sample.fresh).marked.shut
  obtain ⟨last, hclosed⟩ := Sample.exists_close_done (f := g) ⟨rfl, rfl, rfl, by decide⟩ rfl
    ⟨⟨_, rfl⟩, ⟨_, rfl⟩, by decide, rfl, nofun⟩ hdocs
  have hagain : k.Does (.close [] (.ok ())) k := ⟨Sample.fresh, .done _⟩
  have hran := ((File.Ran.nil.snoc hfailed).snoc hclosed).snoc hagain
  obtain ⟨h, hserved⟩ := exists_served (blobs_names_ne Sample.database "fs") ⟨0, 0⟩
    (List.flatMap Event.log _)
  exact ⟨first, last, f, k, h, hwrite, hran, copied_of_closed Sample.database "fs" hwrite
    (by simp [Event.isClose]) rfl (by simp [accepted, Event.accepted])
    (Nat.lt_of_le_of_lt hone (by decide)) (by simp [Event.isClose]) hran nofun hserved⟩

end DocClient.Blob
