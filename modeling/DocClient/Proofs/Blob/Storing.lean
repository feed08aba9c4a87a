import DocClient.Proofs.Blob.Documents
import DocClient.Proofs.Collection.Insert
import DocClient.Proofs.Collection.Upkeep

/-! The storing of the chunks of a file: what is exchanged for it and when it succeeds. Main statement:
`plays_storeChunks`. -/
namespace DocClient.Blob

/-- The removal of what an earlier attempt left, which a first attempt leaves out. -/
inductive Clearing (c : Collection) (ids : List Bson) : Bool → List Exchange → Except Error Unit → Prop
  | skipped : Clearing c ids false [] (.ok ())
  | unsent (e : Error) : Clearing c ids true [] (.error e)
  | sent {x : Exchange} {r : Except Error Unit} (sent : x.command.RemovesIds c ids)
      (reply : r = .ok () ↔ ∃ n, x.reply.removed = .ok n) : Clearing c ids true [x] r

/-- The storing of chunks: their index, the removal of leftovers, and the insertion of all chunks. -/
inductive Storing (c : Collection) (ids : List Oid) (docs : List Document) (retry : Bool) :
    List Exchange → Except Error Unit → Prop
  | unsent (e : Error) : Storing c ids docs retry [] (.error e)
  | unindexed {x : Exchange} (e : Error) (index : x.command.IsFor "createIndexes" c) :
      Storing c ids docs retry [x] (.error e)
  | uncleared {x : Exchange} {clear : List Exchange} {e : Error}
      (index : x.command.IsFor "createIndexes" c)
      (clearing : Clearing c (ids.map .objectId) retry clear (.error e)) :
      Storing c ids docs retry (x :: clear) (.error e)
  | cleared {x : Exchange} {clear insert : List Exchange} {r : Except Error Unit}
      (index : x.command.IsFor "createIndexes" c)
      (clearing : Clearing c (ids.map .objectId) retry clear (.ok ()))
      (inserting : c.Inserting docs insert r) :
      Storing c ids docs retry (x :: (clear ++ insert)) r

theorem Clearing.forall_mem {c : Collection} {ids : List Bson} {retry : Bool} {log : List Exchange}
    {r : Except Error Unit} (h : Clearing c ids retry log r) :
    ∀ x ∈ log, retry = true ∧ x.command.RemovesIds c ids := by
  cases h with
  | skipped => nofun
  | unsent e => nofun
  | sent sent reply =>
    intro y hy
    obtain rfl := List.mem_singleton.mp hy
    exact ⟨rfl, sent⟩

namespace Storing

variable {c : Collection} {ids : List Oid} {docs : List Document} {retry : Bool} {log : List Exchange}
  {r : Except Error Unit}

/-- What is sent besides insertions. -/
def Prepares (c : Collection) (ids : List Oid) (retry : Bool) (x : Exchange) : Prop :=
  x.command.IsFor "createIndexes" c ∨ retry = true ∧ x.command.RemovesIds c (ids.map .objectId)

theorem Prepares.not_insert {x : Exchange} (h : Prepares c ids retry x) :
    ¬ x.command.IsFor "insert" c := by
  intro hinsert
  obtain hindex | ⟨-, hdelete, -⟩ := h
  · exact absurd (hindex.unique hinsert).1 (by decide)
  · exact absurd (hdelete.unique hinsert).1 (by decide)

/-- Storing comes to nothing before the insertion, or it ends with the insertion. -/
theorem cases_insert (h : Storing c ids docs retry log r) :
    ((∃ e, r = .error e) ∧ ∀ x ∈ log, Prepares c ids retry x) ∨
      ∃ first insert, log = first ++ insert ∧ (∀ x ∈ first, Prepares c ids retry x) ∧
        c.Inserting docs insert r := by
  have hclear : ∀ {clear : List Exchange} {x : Exchange} {r : Except Error Unit},
      x.command.IsFor "createIndexes" c → Clearing c (ids.map .objectId) retry clear r →
      ∀ y ∈ x :: clear, Prepares c ids retry y := by
    intro clear x r index clearing y hy
    obtain rfl | hy := List.mem_cons.mp hy
    · exact .inl index
    · exact .inr (clearing.forall_mem y hy)
  cases h with
  | unsent e => exact .inl ⟨⟨e, rfl⟩, nofun⟩
  | unindexed e index => exact .inl ⟨⟨e, rfl⟩, by simpa using .inl index⟩
  | uncleared index clearing => exact .inl ⟨⟨_, rfl⟩, hclear index clearing⟩
  | cleared index clearing inserting => exact .inr ⟨_, _, rfl, hclear index clearing, inserting⟩

/-- Every command builds the index, removes leftovers or inserts chunks from some place on. -/
theorem forall_mem (h : Storing c ids docs retry log r) :
    ∀ x ∈ log, Prepares c ids retry x ∨
      x.command.IsFor "insert" c ∧ x.command.insertedInto c <:+ docs := by
  intro x hx
  obtain ⟨-, hall⟩ | ⟨first, insert, rfl, hfirst, hinsert⟩ := h.cases_insert
  · exact .inl (hall x hx)
  · obtain hx | hx := List.mem_append.mp hx
    · exact .inl (hfirst x hx)
    · exact .inr (hinsert.forall_mem x hx)

theorem not_describes (h : Storing c ids docs retry log r) {d : Collection} (names : d.name ≠ c.name)
    {x : Exchange} (hx : x ∈ log) : ¬ x.command.IsFor "insert" d := by
  intro hfor
  obtain (hindex | ⟨-, hdelete, -⟩) | ⟨hinsert, -⟩ := h.forall_mem x hx
  · exact absurd (hindex.unique hfor).1 (by decide)
  · exact absurd (hdelete.unique hfor).1 (by decide)
  · exact names (hfor.unique hinsert).2

/-- Storing succeeds exactly when one of its exchanges completes the insertion. -/
theorem ok_iff (h : Storing c ids docs retry log r) : r = .ok () ↔ ∃ x ∈ log, x.Completes c := by
  obtain ⟨⟨e, rfl⟩, hall⟩ | ⟨first, insert, rfl, hfirst, hinsert⟩ := h.cases_insert
  · simpa using fun x hx hcompletes => (hall x hx).not_insert hcompletes.1
  · rw [hinsert.ok_iff]
    constructor
    · rintro ⟨x, hx, hcompletes⟩
      exact ⟨x, List.mem_append_right _ hx, hcompletes⟩
    · rintro ⟨x, hx, hcompletes⟩
      obtain hx | hx := List.mem_append.mp hx
      · exact absurd hcompletes.1 (hfirst x hx).not_insert
      · exact ⟨x, hx, hcompletes⟩

/-- When storing succeeds the server took the chunks. -/
theorem taken_eq (h : Storing c ids docs retry log r) (hr : r = .ok ()) :
    log.flatMap (·.taken c) = docs := by
  obtain ⟨⟨e, rfl⟩, -⟩ | ⟨first, insert, rfl, hfirst, hinsert⟩ := h.cases_insert
  · cases hr
  · have hnone : first.flatMap (·.taken c) = [] := by
      rw [List.flatMap_eq_nil_iff]
      intro x hx
      exact Exchange.taken_of_not_isFor (hfirst x hx).not_insert
    rw [List.flatMap_append, hnone, List.nil_append, hinsert.taken_eq hr]

/-- Nothing is sent after the exchange that completes the insertion. -/
theorem nil_of_completes (h : Storing c ids docs retry log r) {before after : List Exchange}
    {x : Exchange} (hlog : log = before ++ x :: after) (hx : x.Completes c) : after = [] := by
  have hmem : x ∈ log := by simp [hlog]
  obtain ⟨-, hall⟩ | ⟨first, insert, rfl, hfirst, hinsert⟩ := h.cases_insert
  · exact absurd hx.1 (hall x hmem).not_insert
  · obtain ⟨others, hbefore, hrest⟩ | ⟨others, hfirst', hrest⟩ := List.append_eq_append_iff.mp hlog
    · exact hinsert.nil_of_completes hrest hx
    · cases others with
      | nil =>
        have hempty : insert = [] ++ x :: after := hrest.symm
        exact hinsert.nil_of_completes hempty hx
      | cons y others =>
        obtain ⟨rfl, -⟩ := List.cons.inj hrest
        exact absurd hx.1 (hfirst x (by simp [hfirst'])).not_insert

end Storing

namespace File

variable {f : File} {log : List Exchange}

theorem removeLeftovers_eq_ask (f : File) : f.removeLeftovers =
    Call.ask (f.store.chunks.writeCommand "delete"
      (Collection.deleteFields (Collection.idsFilter f.chunkIds) true)) .short
      fun reply => reply.removed.map fun _ => () := by
  unfold removeLeftovers
  refine (congrArg (· >>= _) (Collection.removeAll_idsFilter_eq_ask _ _)).trans ?_
  refine (Call.ask_bind_pure _ _ _ _).trans (congrArg _ (funext fun reply => ?_))
  cases reply.removed <;> rfl

private theorem plays_removeLeftovers {r : Except Error Unit} (h : f.removeLeftovers.run.Plays log r) :
    Clearing f.store.chunks (f.chunkIds.map .objectId) true log r := by
  rw [removeLeftovers_eq_ask, Call.plays_ask] at h
  obtain ⟨e, -, rfl, rfl⟩ | ⟨k, reply, hk, rfl, rfl⟩ := h
  · exact .unsent e
  · refine .sent (Collection.removesIds_of_writeCommand hk) ?_
    cases reply.removed <;> simp [Except.map]

private theorem plays_clearing {retry : Bool} {r : Except Error Unit}
    (h : (if retry then f.removeLeftovers else pure () : Call Unit).run.Plays log r) :
    Clearing f.store.chunks (f.chunkIds.map .objectId) retry log r := by
  cases retry with
  | false =>
    obtain ⟨rfl, rfl⟩ := Program.plays_done.mp h
    exact .skipped
  | true => exact plays_removeLeftovers h

theorem storeChunks_eq (f : File) (id : Bson) (retry : Bool) : f.storeChunks id retry =
    (f.store.chunks.ensureIndex chunkIndex >>= fun _ =>
      (if retry then f.removeLeftovers else pure () : Call Unit) >>= fun _ =>
        f.store.chunks.insertMany .long (chunkDocuments id f.chunkIds f.chunks)) := by
  cases retry <;> rfl

theorem plays_storeChunks {id : Bson} {retry : Bool} {r : Except Error Unit}
    (h : (f.storeChunks id retry).run.Plays log r) :
    Storing f.store.chunks f.chunkIds (chunkDocuments id.written f.chunkIds f.chunks) retry log r := by
  have hdocs : (chunkDocuments id f.chunkIds f.chunks).map Document.written =
      chunkDocuments id.written f.chunkIds f.chunks := written_documentsFrom
  rw [storeChunks_eq, Collection.ensureIndex_eq_ask] at h
  obtain ⟨e, hindex, rfl⟩ | ⟨u, first, rest, rfl, hindex, hrest⟩ := Call.plays_bind.mp h
  · obtain ⟨e', -, rfl, -⟩ | ⟨k, reply, hk, rfl, -⟩ := Call.plays_ask.mp hindex
    · exact .unsent e
    · exact .unindexed e (Collection.isFor_of_indexCommand hk)
  obtain ⟨e', -, -, he⟩ | ⟨k, reply, hk, rfl, -⟩ := Call.plays_ask.mp hindex
  · cases he
  have hfor := Collection.isFor_of_indexCommand hk
  obtain ⟨e, hclear, rfl⟩ | ⟨u', clear, insert, rfl, hclear, hinsert⟩ := Call.plays_bind.mp hrest
  · exact .uncleared hfor (plays_clearing hclear)
  · have hinserting := Collection.plays_insertMany hinsert
    rw [hdocs] at hinserting
    rw [List.singleton_append]
    exact .cleared hfor (plays_clearing hclear) hinserting

end File
end DocClient.Blob
