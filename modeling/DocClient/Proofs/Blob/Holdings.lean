import DocClient.Bson.Equality
import DocClient.Proofs.Blob.Attempt
import Mathlib.Data.Multiset.Filter

/-! What the server holds of a store while a file is closed. A command that fails may have been carried out
in part, except that a description is inserted or not. Main statement: `served_storing`, what the storing of
chunks leaves, however it goes. -/
namespace DocClient

/-- A document whose identifier is one of a list. -/
def Document.HasIdIn (ids : List Bson) (doc : Document) : Prop := ∃ id ∈ ids, doc.get? "_id" = some id

instance (ids : List Bson) : DecidablePred (Document.HasIdIn ids) :=
  fun _ => inferInstanceAs (Decidable (∃ id ∈ ids, _))

namespace Blob

/-- The documents of a store, in any order. -/
structure Holdings where
  files : Multiset Document
  chunks : Multiset Document

/-- What an exchange may do to the documents of a store that nobody else touches. -/
structure Serves (s : Store) (h : Holdings) (x : Exchange) (h' : Holdings) : Prop where
  index : x.command.IsFor "createIndexes" s.chunks → h' = h
  removal : ∀ ids, x.command.RemovesIds s.chunks ids → h'.files = h.files ∧ h'.chunks ≤ h.chunks ∧
    h.chunks.filter (¬ ·.HasIdIn ids) ≤ h'.chunks ∧
    ∀ n, x.reply.removed = .ok n → h'.chunks = h.chunks.filter (¬ ·.HasIdIn ids)
  insertion : x.command.IsFor "insert" s.chunks → h'.files = h.files ∧
    ∃ new ≤ (x.command.insertedInto s.chunks : Multiset Document), h'.chunks = h.chunks + new ∧
      ∀ n, x.reply.inserted = .ok n → new = ((x.command.insertedInto s.chunks).take n : List Document)
  description : x.command.IsFor "insert" s.files → h'.chunks = h.chunks ∧
    (∀ n, x.reply.inserted = .ok n → h'.files = h.files + x.command.insertedInto s.files) ∧
    ∀ e, x.reply.inserted = .error e → h'.files = h.files

/-- What exchanges one after the other may do. -/
inductive Served (s : Store) : Holdings → List Exchange → Holdings → Prop
  | nil (h : Holdings) : Served s h [] h
  | cons {h h' h'' : Holdings} {x : Exchange} {log : List Exchange} (first : Serves s h x h')
      (rest : Served s h' log h'') : Served s h (x :: log) h''

/-- Every exchange can be served: the commands that fail may have been carried out or not. -/
theorem exists_serves {s : Store} (names : s.files.name ≠ s.chunks.name) (h : Holdings) (x : Exchange) :
    ∃ h', Serves s h x h' := by
  by_cases hindex : x.command.IsFor "createIndexes" s.chunks
  · refine ⟨h, fun _ => rfl, ?_, ?_, ?_⟩
    · intro ids hremoves
      exact absurd (hindex.unique hremoves.1).1 (by decide)
    · intro hinsert
      exact absurd (hindex.unique hinsert).1 (by decide)
    · intro hinsert
      exact absurd (hindex.unique hinsert).1 (by decide)
  by_cases hremoval : ∃ ids, x.command.RemovesIds s.chunks ids
  · obtain ⟨ids, hremoves⟩ := hremoval
    refine ⟨⟨h.files, h.chunks.filter (¬ ·.HasIdIn ids)⟩, fun hfor => absurd hfor hindex, ?_, ?_, ?_⟩
    · intro ids' hremoves'
      obtain rfl := hremoves.unique hremoves'
      exact ⟨rfl, Multiset.filter_le _ _, le_refl _, fun _ _ => rfl⟩
    · intro hinsert
      exact absurd (hremoves.1.unique hinsert).1 (by decide)
    · intro hinsert
      exact absurd (hremoves.1.unique hinsert).1 (by decide)
  by_cases hinsertion : x.command.IsFor "insert" s.chunks
  · refine ⟨⟨h.files, h.chunks + x.taken s.chunks⟩, fun hfor => absurd hfor hindex,
      fun ids hremoves => absurd ⟨ids, hremoves⟩ hremoval, ?_,
      fun hinsert => absurd (hinsert.unique hinsertion).2 names⟩
    refine fun _ => ⟨rfl, _, ?_, rfl, ?_⟩
    · unfold Exchange.taken
      cases x.reply.inserted with
      | ok n => exact (List.take_sublist _ _).subperm
      | error e => exact Multiset.zero_le _
    · intro n hn
      simp [Exchange.taken, hn]
  · let added : Multiset Document := if x.reply.inserted.isOk then x.command.insertedInto s.files else 0
    refine ⟨⟨h.files + added, h.chunks⟩, fun hfor => absurd hfor hindex,
      fun ids hremoves => absurd ⟨ids, hremoves⟩ hremoval, fun hinsert => absurd hinsert hinsertion, ?_⟩
    refine fun _ => ⟨rfl, ?_, ?_⟩
    · intro n hn
      simp [added, hn, Except.isOk, Except.toBool]
    · intro e he
      simp [added, he, Except.isOk, Except.toBool]

theorem exists_served {s : Store} (names : s.files.name ≠ s.chunks.name) (h : Holdings)
    (log : List Exchange) : ∃ h', Served s h log h' := by
  induction log generalizing h with
  | nil => exact ⟨h, .nil h⟩
  | cons x log ih =>
    obtain ⟨k, hfirst⟩ := exists_serves names h x
    obtain ⟨h', hrest⟩ := ih k
    exact ⟨h', .cons hfirst hrest⟩

namespace Served

variable {s : Store} {h h' : Holdings} {x : Exchange} {log log' : List Exchange}

@[simp] theorem nil_iff : Served s h [] h' ↔ h' = h := by
  constructor
  · rintro ⟨⟩
    rfl
  · rintro rfl
    exact .nil _

@[simp] theorem cons_iff : Served s h (x :: log) h' ↔ ∃ k, Serves s h x k ∧ Served s k log h' := by
  constructor
  · rintro (_ | ⟨first, rest⟩)
    exact ⟨_, first, rest⟩
  · rintro ⟨k, first, rest⟩
    exact .cons first rest

theorem append_iff : Served s h (log ++ log') h' ↔ ∃ k, Served s h log k ∧ Served s k log' h' := by
  induction log generalizing h with
  | nil => simp
  | cons x log ih =>
    simp only [List.cons_append, cons_iff, ih]
    constructor
    · rintro ⟨k, first, k', hmiddle, hrest⟩
      exact ⟨k', ⟨k, first, hmiddle⟩, hrest⟩
    · rintro ⟨k', ⟨k, first, hmiddle⟩, hrest⟩
      exact ⟨k, first, k', hmiddle, hrest⟩

end Served

section Storing

variable {s : Store} {h h' : Holdings} {docs : List Document} {log : List Exchange}
  {r : Except Error Unit}

/-- An insertion adds some of its documents, and all of them if it succeeds. -/
theorem served_inserting (hinserting : s.chunks.Inserting docs log r) (hserved : Served s h log h') :
    h'.files = h.files ∧ ∃ new : Multiset Document, h'.chunks = h.chunks + new ∧
      (∀ doc ∈ new, doc ∈ docs) ∧ (r = .ok () → new = docs) := by
  induction hinserting generalizing h with
  | unsent docs e =>
    obtain rfl := Served.nil_iff.mp hserved
    exact ⟨rfl, 0, (Multiset.add_zero _).symm, nofun, nofun⟩
  | failed e sent reply =>
    obtain ⟨k, hserves, hrest⟩ := Served.cons_iff.mp hserved
    obtain rfl := Served.nil_iff.mp hrest
    obtain ⟨hfiles, new, hle, hchunks, -⟩ := hserves.insertion sent.1
    rw [sent.2] at hle
    exact ⟨hfiles, new, hchunks, fun doc hdoc => Multiset.mem_coe.mp (Multiset.mem_of_le hle hdoc), nofun⟩
  | finished sent reply all =>
    obtain ⟨k, hserves, hrest⟩ := Served.cons_iff.mp hserved
    obtain rfl := Served.nil_iff.mp hrest
    obtain ⟨hfiles, new, hle, hchunks, hnew⟩ := hserves.insertion sent.1
    have hall := hnew _ reply
    rw [sent.2, List.take_of_length_le all] at hall
    exact ⟨hfiles, new, hchunks, fun doc hdoc => Multiset.mem_coe.mp (hall ▸ hdoc), fun _ => hall⟩
  | @more docs x n log r sent reply some rest ih =>
    obtain ⟨k, hserves, hrest⟩ := Served.cons_iff.mp hserved
    obtain ⟨hfiles, new, hle, hchunks, hnew⟩ := hserves.insertion sent.1
    have hfirst := hnew _ reply
    rw [sent.2] at hfirst
    obtain ⟨hfiles', new', hchunks', hmem, hall⟩ := ih hrest
    refine ⟨hfiles'.trans hfiles, new + new', ?_, ?_, ?_⟩
    · rw [hchunks', hchunks, Multiset.add_assoc]
    · intro doc hdoc
      obtain hdoc | hdoc := Multiset.mem_add.mp hdoc
      · rw [hfirst] at hdoc
        exact List.mem_of_mem_take (Multiset.mem_coe.mp hdoc)
      · exact List.mem_of_mem_drop (hmem doc hdoc)
    · intro hr
      rw [hfirst, hall hr, Multiset.coe_add, List.take_append_drop]

theorem served_clearing {ids : List Bson} {retry : Bool} (hclearing : Clearing s.chunks ids retry log r)
    (hserved : Served s h log h') : h'.files = h.files ∧ h'.chunks ≤ h.chunks ∧
      (r = .ok () → retry = true → ∀ doc ∈ h'.chunks, ¬ doc.HasIdIn ids) := by
  cases hclearing with
  | skipped =>
    obtain rfl := Served.nil_iff.mp hserved
    exact ⟨rfl, le_refl _, nofun⟩
  | unsent e =>
    obtain rfl := Served.nil_iff.mp hserved
    exact ⟨rfl, le_refl _, nofun⟩
  | sent sent reply =>
    obtain ⟨k, hserves, hrest⟩ := Served.cons_iff.mp hserved
    obtain rfl := Served.nil_iff.mp hrest
    obtain ⟨hfiles, hle, -, hgone⟩ := hserves.removal ids sent
    refine ⟨hfiles, hle, ?_⟩
    intro hr _ doc hdoc
    obtain ⟨n, hn⟩ := reply.mp hr
    rw [hgone n hn] at hdoc
    exact (Multiset.mem_filter.mp hdoc).2

/-- However the storing of chunks goes, nothing of the file is left but documents under the identifiers of
its chunks. When it succeeds the documents of the chunks are left, each of them once. -/
theorem served_storing {ids : List Oid} {retry : Bool} {filesId : Bson}
    (hstoring : Storing s.chunks ids docs retry log r) (hserved : Served s h log h')
    (hdocs : ∀ doc ∈ docs, doc.get? "files_id" = some filesId ∧ doc.HasIdIn (ids.map .objectId))
    (hleft : ∀ doc ∈ h.chunks, doc.get? "files_id" = some filesId →
      retry = true ∧ doc.HasIdIn (ids.map .objectId)) :
    h'.files = h.files ∧
      (∀ doc ∈ h'.chunks, doc.get? "files_id" = some filesId → doc.HasIdIn (ids.map .objectId)) ∧
      (r = .ok () → h'.chunks.filter (·.get? "files_id" = some filesId) = docs) := by
  have hkept : ∀ {k : Holdings}, k.chunks ≤ h.chunks →
      ∀ doc ∈ k.chunks, doc.get? "files_id" = some filesId → doc.HasIdIn (ids.map .objectId) := by
    intro k hle doc hdoc hof
    exact (hleft doc (Multiset.mem_of_le hle hdoc) hof).2
  cases hstoring with
  | unsent e =>
    obtain rfl := Served.nil_iff.mp hserved
    exact ⟨rfl, hkept (le_refl _), nofun⟩
  | unindexed e index =>
    obtain ⟨k, hserves, hrest⟩ := Served.cons_iff.mp hserved
    obtain rfl := hserves.index index
    obtain rfl := Served.nil_iff.mp hrest
    exact ⟨rfl, hkept (le_refl _), nofun⟩
  | uncleared index clearing =>
    obtain ⟨k, hserves, hrest⟩ := Served.cons_iff.mp hserved
    obtain rfl := hserves.index index
    obtain ⟨hfiles, hle, -⟩ := served_clearing clearing hrest
    exact ⟨hfiles, hkept hle, nofun⟩
  | cleared index clearing inserting =>
    obtain ⟨k, hserves, hrest⟩ := Served.cons_iff.mp hserved
    obtain rfl := hserves.index index
    obtain ⟨k', hclear, hinsert⟩ := Served.append_iff.mp hrest
    obtain ⟨hfiles, hle, hgone⟩ := served_clearing clearing hclear
    obtain ⟨hfiles', new, hchunks, hmem, hall⟩ := served_inserting inserting hinsert
    refine ⟨hfiles'.trans hfiles, ?_, ?_⟩
    · intro doc hdoc hof
      rw [hchunks] at hdoc
      obtain hdoc | hdoc := Multiset.mem_add.mp hdoc
      · exact hkept hle doc hdoc hof
      · exact (hdocs doc (hmem doc hdoc)).2
    · intro hr
      -- What is left of an earlier attempt is gone by now, so that the insertion adds to nothing.
      have hnone : k'.chunks.filter (·.get? "files_id" = some filesId) = 0 := by
        rw [Multiset.filter_eq_nil]
        intro doc hdoc hof
        obtain ⟨hretry, hid⟩ := hleft doc (Multiset.mem_of_le hle hdoc) hof
        exact hgone rfl hretry doc hdoc hid
      have hown : (docs : Multiset Document).filter (·.get? "files_id" = some filesId) = docs := by
        rw [Multiset.filter_eq_self]
        intro doc hdoc
        exact (hdocs doc (Multiset.mem_coe.mp hdoc)).1
      rw [hchunks, hall hr, Multiset.filter_add, hnone, hown, Multiset.zero_add]

theorem served_describing {doc : Document} (hdescribing : s.files.InsertingOne doc log r)
    (hserved : Served s h log h') :
    h'.chunks = h.chunks ∧ h'.files = h.files + if r = .ok () then {doc} else 0 := by
  cases hdescribing with
  | unsent e =>
    obtain rfl := Served.nil_iff.mp hserved
    simp
  | @sent x r sent reply =>
    obtain ⟨k, hserves, hrest⟩ := Served.cons_iff.mp hserved
    obtain rfl := Served.nil_iff.mp hrest
    obtain ⟨hchunks, hinserted, hrefused⟩ := hserves.description sent.1
    refine ⟨hchunks, ?_⟩
    cases hreply : x.reply.inserted with
    | ok n =>
      rw [if_pos (reply.mpr ⟨n, hreply⟩), hinserted n hreply, sent.2]
      rfl
    | error e =>
      have hr : r ≠ .ok () := by
        rw [Ne, reply, hreply]
        nofun
      rw [if_neg hr, hrefused e hreply, Multiset.add_zero]

end Storing

end Blob
end DocClient
