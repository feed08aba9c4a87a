import DocClient.Proofs.Blob.Content
import DocClient.Proofs.Blob.Steps

/-! What an open file knows of its history, and what was stored of it. Main statements: `tracks_of_ran` and
`storedAt_of_ran`. -/
namespace DocClient.Blob

/-- What a file knows of its history once storing it was tried. -/
structure Tried (es : List Event) (f : File) : Prop where
  ids : f.chunkIds ≠ []
  closed : ∃ e ∈ es, e.isClose = true
  digest : f.md5 = Md5.hexDigest (early es)
  count : f.chunkIds.length = (split f.chunkSize (early es)).length

/-- What an open file knows of its history. -/
structure Tracks (s : Store) (id : Value) (es : List Event) (f : File) : Prop where
  opened : f.closed = false
  store : f.store = s
  writing : f.access = .writing
  size : 0 < f.chunkSize
  id : f.id = identified id es
  length : f.length = (accepted es).length
  chunks : f.chunks = split f.chunkSize (accepted es)
  tried : (f.chunkIds = [] ∧ f.chunksStored = false ∧ ∀ e ∈ es, e.isClose = false) ∨ Tried es f

theorem Tried.early_ne_nil {es : List Event} {f : File} (h : Tried es f) : early es ≠ [] := by
  intro hnil
  have hcount := h.count
  rw [hnil, split_nil, List.length_nil] at hcount
  exact h.ids (List.eq_nil_of_length_eq_zero hcount)

theorem Tried.append {es : List Event} {f g : File} (h : Tried es f) (more : List Event)
    (hids : g.chunkIds = f.chunkIds) (hmd5 : g.md5 = f.md5) (hsize : g.chunkSize = f.chunkSize) :
    Tried (es ++ more) g := by
  obtain ⟨e, he, hclose⟩ := h.closed
  refine ⟨?_, ⟨e, List.mem_append_left _ he, hclose⟩, ?_, ?_⟩
  · rw [hids]
    exact h.ids
  · rw [hmd5, early_append_of_exists h.closed, h.digest]
  · rw [hids, hsize, early_append_of_exists h.closed, h.count]

namespace Tracks

variable {s : Store} {id : Value} {es : List Event} {f g : File}

theorem create (s : Store) (fresh : Oid) (now : Time) (name : String) :
    Tracks s (.objectId (.ofOid fresh)) [] (File.create s fresh now name) where
  opened := rfl
  store := rfl
  writing := rfl
  size := by change 0 < defaultChunkSize; decide
  id := rfl
  length := rfl
  chunks := (split_nil _).symm
  tried := .inl ⟨rfl, rfl, nofun⟩

private theorem tried_snoc (h : Tracks s id es f) {e : Event} (he : e.isClose = false)
    (hids : g.chunkIds = f.chunkIds) (hstored : g.chunksStored = f.chunksStored) (hmd5 : g.md5 = f.md5)
    (hsize : g.chunkSize = f.chunkSize) :
    (g.chunkIds = [] ∧ g.chunksStored = false ∧ ∀ e' ∈ es ++ [e], e'.isClose = false) ∨
      Tried (es ++ [e]) g := by
  obtain ⟨hnone, hunstored, hall⟩ | htried := h.tried
  · refine .inl ⟨hids.trans hnone, hstored.trans hunstored, ?_⟩
    intro e' he'
    obtain he' | he' := List.mem_append.mp he'
    · exact hall e' he'
    · obtain rfl := List.mem_singleton.mp he'
      exact he
  · exact .inr (htried.append [e] hids hmd5 hsize)

/-- An event without data that is not a close leaves a file its content. -/
private theorem setting (h : Tracks s id es f) {e : Event} (hdata : e.accepted = [])
    (he : e.isClose = false) {v : Value} (hv : v = e.identify f.id) (name contentType : String)
    (uploaded : Time) (metadata : Option Value) (err : Option Error) :
    Tracks s id (es ++ [e]) { f with id := v, name, contentType, uploaded, metadata, err } where
  opened := h.opened
  store := h.store
  writing := h.writing
  size := h.size
  id := by rw [identified_snoc, ← h.id]; exact hv
  length := by rw [accepted_snoc, hdata, List.append_nil]; exact h.length
  chunks := by rw [accepted_snoc, hdata, List.append_nil]; exact h.chunks
  tried := h.tried_snoc he rfl rfl rfl rfl

private theorem setChunkSize (h : Tracks s id es f) (size : Nat) :
    Tracks s id (es ++ [.setChunkSize size]) (f.setChunkSize size) := by
  unfold File.setChunkSize
  by_cases hheeded : (f.access = .writing && f.length = 0 && 0 < size : Bool) = true
  · rw [if_pos hheeded]
    simp only [Bool.and_eq_true, decide_eq_true_eq] at hheeded
    obtain ⟨⟨-, hlength⟩, hsize⟩ := hheeded
    have hnil : accepted es = [] := List.eq_nil_of_length_eq_zero (h.length.symm.trans hlength)
    -- A size is heeded while there is no data, and without data no close has tried to store anything.
    have huntried : f.chunkIds = [] ∧ f.chunksStored = false ∧ ∀ e ∈ es, e.isClose = false := by
      obtain huntried | htried := h.tried
      · exact huntried
      · have hprefix := early_prefix es
        rw [hnil, List.prefix_nil] at hprefix
        exact absurd hprefix htried.early_ne_nil
    exact {
      opened := h.opened
      store := h.store
      writing := h.writing
      size := hsize
      id := by rw [identified_snoc, ← h.id]; rfl
      length := by rw [accepted_snoc]; simpa [Event.accepted] using h.length
      chunks := by
        have hchunks := h.chunks
        rw [hnil, split_nil] at hchunks
        rw [accepted_snoc, hnil]
        simpa [Event.accepted] using hchunks
      tried := .inl ⟨huntried.1, huntried.2.1, by simpa [or_imp, forall_and, Event.isClose] using huntried.2.2⟩ }
  · rw [if_neg hheeded]
    exact h.setting rfl rfl rfl _ _ _ _ _

private theorem write (h : Tracks s id es f) {data : Bytes} {outcome : Except Error Nat}
    (hwrite : f.write data = (outcome, g)) : Tracks s id (es ++ [.write data outcome]) g := by
  unfold File.write at hwrite
  rw [h.opened, h.writing] at hwrite
  cases herr : f.err with
  | some e =>
    rw [herr] at hwrite
    cases hwrite
    exact h.setting rfl rfl rfl _ _ _ _ _
  | none =>
    rw [herr] at hwrite
    cases hwrite
    have haccepted : accepted (es ++ [.write data (.ok data.length)]) = accepted es ++ data :=
      accepted_snoc _ _
    exact {
      opened := rfl
      store := h.store
      writing := rfl
      size := h.size
      id := by rw [identified_snoc, ← h.id]; rfl
      length := by rw [haccepted, List.length_append, ← h.length]
      chunks := by rw [haccepted, ← append_split h.size, ← h.chunks]
      tried := h.tried_snoc rfl rfl rfl rfl rfl }

theorem length_pos (h : Tracks s id es f) (hdata : accepted es ≠ []) : 0 < f.length := by
  rw [h.length]
  exact List.length_pos_iff.mpr hdata

theorem pending (h : Tracks s id es f) (htrusted : f.err = none) (hdata : accepted es ≠ []) : f.Pending where
  opened := h.opened
  trusted := htrusted
  writing := h.writing
  content := h.length_pos hdata

theorem content_ne_nil (h : Tracks s id es f) (hlength : 0 < f.length) : accepted es ≠ [] := by
  rw [h.length] at hlength
  exact List.length_pos_iff.mp hlength

/-- A close that stores fixes the digest and the identifiers, if an earlier one did not. -/
theorem tried_prepared (h : Tracks s id es f) (hlength : 0 < f.length) (log : List Exchange)
    (r : Except Error Unit) (fresh : Nat → Oid) :
    Tried (es ++ [.close log r]) (f.prepared fresh) := by
  obtain ⟨hnone, -, hall⟩ | htried := h.tried
  · have hearly : early (es ++ [.close log r]) = accepted es := by
      rw [early_append_of_forall hall]
      exact List.append_nil _
    have hchunks : f.chunks ≠ [] := by
      rw [h.chunks, Ne, split_eq_nil_iff h.size]
      exact h.content_ne_nil hlength
    have hprepared : f.prepared fresh =
        { f with md5 := checksum f.chunks, chunkIds := f.chunks.mapIdx fun i _ => fresh i } := by
      simp [File.prepared, File.isRetry, hnone]
    rw [hprepared]
    refine ⟨?_, ⟨_, List.mem_append_right _ List.mem_cons_self, rfl⟩, ?_, ?_⟩
    · simpa using hchunks
    · rw [hearly, checksum, h.chunks, flatten_split h.size]
    · rw [hearly, List.length_mapIdx, h.chunks]
  · have hprepared : f.prepared fresh = f := by simp [File.prepared, File.isRetry, htried.ids]
    rw [hprepared]
    exact htried.append _ rfl rfl rfl

private theorem close_step (h : Tracks s id es f) {log : List Exchange} {r : Except Error Unit}
    (hg : ∃ md5 ids stored, g = { f with md5 := md5, chunkIds := ids, chunksStored := stored })
    (ht : Tried (es ++ [.close log r]) g) : Tracks s id (es ++ [.close log r]) g := by
  obtain ⟨md5, ids, stored, rfl⟩ := hg
  have haccepted := accepted_snoc_close es log r
  exact {
    opened := h.opened
    store := h.store
    writing := h.writing
    size := h.size
    id := by rw [identified_snoc, ← h.id]; rfl
    length := by rw [haccepted]; exact h.length
    chunks := by rw [haccepted]; exact h.chunks
    tried := .inr ht }

/-- A close of a file with content leaves one that knows of it, and shuts it if it succeeds. -/
theorem attempt (h : Tracks s id es f) {fresh : Nat → Oid} {log : List Exchange} {r : Except Error Unit}
    (hpending : f.Pending) (hattempt : f.Attempt fresh log r g) :
    ∃ k, Tracks s id (es ++ [.close log r]) k ∧ g = k.settle r := by
  have htried := h.tried_prepared hpending.content log r fresh
  obtain ⟨md5, ids, hprepared⟩ := f.prepared_eq fresh
  cases hattempt with
  | again closed => simp [hpending.opened] at closed
  | refused opened err => simp [hpending.trusted] at err
  | empty opened trusted nothing => exact absurd ⟨hpending.writing, hpending.content⟩ nothing
  | failed pending unstored storing =>
    exact ⟨_, h.close_step ⟨md5, ids, f.chunksStored, hprepared⟩ htried, rfl⟩
  | stored pending unstored storing describing =>
    refine ⟨(f.prepared fresh).marked, h.close_step ⟨md5, ids, true, ?_⟩ ?_, rfl⟩
    · rw [hprepared]
      rfl
    · exact ⟨htried.ids, htried.closed, htried.digest, htried.count⟩
  | described pending stored describing =>
    refine ⟨f, h.close_step ⟨f.md5, f.chunkIds, f.chunksStored, rfl⟩ ?_, rfl⟩
    obtain ⟨-, hunstored, -⟩ | hold := h.tried
    · simp [stored] at hunstored
    · exact hold.append _ rfl rfl rfl

/-- An open file that stays open goes on knowing its history. -/
theorem step (h : Tracks s id es f) {e : Event} (hdoes : f.Does e g) (hopened : g.closed = false) :
    Tracks s id (es ++ [e]) g := by
  cases e with
  | write data outcome => exact h.write hdoes
  | @setId α inst v =>
    obtain rfl := hdoes
    unfold File.setId
    cases hlift : lift v with
    | ok v' =>
      have hv : v' = (Event.setId v).identify f.id := by simp [Event.identify, hlift]
      exact h.setting rfl rfl hv _ _ _ _ _
    | error e =>
      have hv : f.id = (Event.setId v).identify f.id := by simp [Event.identify, hlift]
      exact h.setting rfl rfl hv _ _ _ _ _
  | setName name =>
    obtain rfl := hdoes
    exact h.setting rfl rfl rfl _ _ _ _ _
  | setContentType contentType =>
    obtain rfl := hdoes
    exact h.setting rfl rfl rfl _ _ _ _ _
  | setUploaded uploaded =>
    obtain rfl := hdoes
    exact h.setting rfl rfl rfl _ _ _ _ _
  | setChunkSize size =>
    obtain rfl := hdoes
    exact h.setChunkSize size
  | @setMetadata α inst metadata =>
    obtain rfl := hdoes
    unfold File.setMetadata
    cases lift metadata with
    | ok v => exact h.setting rfl rfl rfl _ _ _ _ _
    | error e => exact h.setting rfl rfl rfl _ _ _ _ _
  | close log r =>
    obtain ⟨fresh, hplays⟩ := hdoes
    have hattempt := File.attempt_of_plays hplays
    have hpending : f.Pending := by
      cases hattempt with
      | again closed => simp [h.opened] at closed
      | refused opened err => cases hopened
      | empty opened trusted nothing => cases hopened
      | failed pending => exact pending
      | stored pending => exact pending
      | described pending => exact pending
    obtain ⟨k, hk, rfl⟩ := h.attempt hpending hattempt
    cases r with
    | ok u => cases hopened
    | error e => exact hk

end Tracks

/-- An open file knows its whole history. -/
theorem tracks_of_ran {s : Store} {fresh : Oid} {now : Time} {name : String} {es : List Event} {g : File}
    (h : (File.create s fresh now name).Ran es g) (hopened : g.closed = false) :
    Tracks s (.objectId (.ofOid fresh)) es g := by
  induction h with
  | nil => exact .create s fresh now name
  | @snoc es e f g before last ih =>
    have hf : f.closed = false := by
      cases hclosed : f.closed with
      | false => rfl
      | true =>
        rw [File.closed_of_does last hclosed] at hopened
        cases hopened
    exact (ih hf).step last hopened

/-- The size of the chunks is the one that was asked for before the first data. -/
theorem chunkSize_eq_requested {s : Store} {fresh : Oid} {now : Time} {name : String} {es : List Event}
    {f : File} (hran : (File.create s fresh now name).Ran es f) (hopen : ∀ e ∈ es, e.isClose = false) :
    f.chunkSize = requested es := by
  induction hran with
  | nil => rfl
  | @snoc es e f g before last ih =>
    simp only [List.forall_mem_append, List.forall_mem_singleton] at hopen
    have htracks := tracks_of_ran before (File.closed_of_ran before hopen.1)
    have htouched := File.touched_of_does last hopen.2
    rw [requested_snoc, ← ih hopen.1]
    by_cases hnil : accepted es = []
    · have hlength : f.length = 0 := by
        rw [htracks.length, hnil]
        rfl
      rw [if_pos hnil]
      cases e with
      | setChunkSize n =>
        obtain rfl := last
        unfold File.setChunkSize
        by_cases hn : 0 < n <;> simp [Event.resize, htracks.writing, hlength, hn]
      | _ =>
        refine htouched.size ?_
        intro n heq
        cases heq
    · rw [if_neg hnil]
      exact (htouched.content (htracks.length_pos hnil)).1

/-- The place in a history where the chunks were stored. -/
structure StoredAt (s : Store) (es before : List Event) (log : List Exchange) (r : Except Error Unit)
    (after : List Event) : Prop where
  split : es = before ++ .close log r :: after
  stores : (Event.close log r).Stores s
  once : ∀ e ∈ before ++ after, ¬ e.Stores s

theorem StoredAt.accepted_eq {s : Store} {es before after : List Event} {log : List Exchange}
    {r : Except Error Unit} (h : StoredAt s es before log r after) :
    accepted es = accepted before ++ accepted after := by
  rw [h.split, List.append_cons, accepted_append, accepted_snoc_close]

theorem blobs_names_ne (db : Database) (start : String) :
    (db.blobs start).files.name ≠ (db.blobs start).chunks.name := by
  simp [Database.blobs, Database.collection]

/-- Once the chunks are stored there is one place in the history where they were. The server took the
chunks of what was accepted before it, as many as there were of what was accepted before the first close,
and under the identifier that was in force. -/
theorem storedAt_of_ran {s : Store} (names : s.files.name ≠ s.chunks.name) {fresh : Oid} {now : Time}
    {name : String} {es : List Event} {g : File} (h : (File.create s fresh now name).Ran es g)
    (hstored : g.chunksStored = true) :
    ∃ before log r after ids, StoredAt s es before log r after ∧ accepted before ≠ [] ∧
      0 < g.chunkSize ∧ ids ≠ [] ∧ ids.length = (split g.chunkSize (early es)).length ∧
      log.flatMap (·.taken s.chunks) =
        chunkDocuments (identified (.objectId (.ofOid fresh)) before).outbound.written ids
          (split g.chunkSize (accepted before)) := by
  obtain ⟨before, a, e, b, after, rfl, hbefore, hdoes, hafter, ha, hb⟩ :=
    File.exists_storing h rfl hstored
  have hstore : a.store = s := File.store_of_ran hbefore
  have hstore' : b.store = s := (File.store_of_does hdoes).trans hstore
  obtain htouched | ⟨log, r, fresh', rfl, hattempt⟩ := File.does_cases hdoes
  · rw [htouched.chunksStored, ha] at hb
    cases hb
  have hstores : (Event.close log r).Stores s :=
    hstore ▸ (hattempt.completes_iff (by rw [hstore]; exact names)).mpr ⟨ha, hb⟩
  have hpending : a.Pending := by
    obtain ⟨x, hx, -⟩ := hstores
    exact hattempt.pending_of_mem hx
  have htracks := tracks_of_ran hbefore hpending.opened
  have htried := htracks.tried_prepared hpending.content log r fresh'
  -- The size of the chunks cannot change after the close, since the file has content then.
  obtain ⟨-, -, hsize, hlength⟩ := hattempt.kept
  obtain ⟨hsize', -⟩ := File.chunkSize_of_ran hafter (hlength ▸ hpending.content)
  obtain ⟨md5, ids, hprepared⟩ := a.prepared_eq fresh'
  have hearly : early (before ++ .close log r :: after) = early (before ++ [.close log r]) := by
    rw [List.append_cons, early_append_of_exists htried.closed]
  refine ⟨before, log, r, after, (a.prepared fresh').chunkIds, ⟨rfl, hstores, ?_⟩,
    htracks.content_ne_nil hpending.content, ?_, htried.ids, ?_, ?_⟩
  · intro e he
    obtain he | he := List.mem_append.mp he
    · exact File.not_stores_of_ran names hbefore (by rw [ha]; rfl) e he
    · have := File.not_stores_of_ran (by rw [hstore']; exact names) hafter (by rw [hb, hstored]) e he
      rwa [hstore'] at this
  · rw [hsize', hsize]
    exact htracks.size
  · rw [hearly, htried.count, hsize', hsize, hprepared]
  · rw [← hstore, hattempt.taken_eq (by rw [hstore]; exact names) ha hb, hsize', hsize,
      ← htracks.id, ← htracks.chunks, hprepared]
    rfl

end DocClient.Blob
