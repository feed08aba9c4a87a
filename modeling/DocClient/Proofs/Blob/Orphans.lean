import DocClient.Proofs.Blob.Holdings
import DocClient.Proofs.Blob.Removing
import Mathlib.Data.Multiset.Filter

/-! Removing the files of a name again and again until it succeeds, with a server on which each command may fail
without effect. What was described is found by the next removal; chunks whose description is gone are not. Main
statement: `chunks_gone_iff_of_tried`, by which the chunks of the files are gone in the end exactly if some removal
of them succeeded, or there were none. -/
namespace DocClient

/-- How a server compares a value of a filter with what a field holds. -/
structure Comparison where
  alike : Bson → Bson → Bool
  refl : ∀ b, alike b b = true

/-- A document in which a field has one of some values. -/
def Document.HasIn (cmp : Comparison) (field : String) (values : Multiset Bson) (doc : Document) : Prop :=
  ∃ v ∈ values, (doc.get? field).any (cmp.alike v) = true

instance (cmp : Comparison) (field : String) (values : Multiset Bson) :
    DecidablePred (Document.HasIn cmp field values) :=
  fun _ => Multiset.decidableExistsMultiset

theorem Document.hasIn_iff {cmp : Comparison} {field : String} {values : Multiset Bson} {doc : Document} :
    doc.HasIn cmp field values ↔ ∃ v ∈ values, ∃ b, doc.get? field = some b ∧ cmp.alike v b = true := by
  unfold HasIn
  cases doc.get? field <;> simp

/-- The description of a file of a name. -/
def Document.IsNamed (name : String) (doc : Document) : Prop := doc.get? "filename" = some (.string name)

instance (name : String) : DecidablePred (Document.IsNamed name) := fun _ => inferInstanceAs (Decidable (_ = _))

/-- What a projection to the identifier shows of a document. -/
def Document.idOnly (doc : Document) : Document := ⟨(doc.get? "_id").toList.map fun id => ("_id", id)⟩

namespace Blob

/-- The identifiers of the files of a name. -/
def idsNamed (name : String) (files : Multiset Document) : Multiset Bson :=
  (files.filter (·.IsNamed name)).filterMap (·.get? "_id")

/-- What a server holds of a store, and what it still has to give of a search. -/
structure Shelves extends Holdings where
  pending : List Document

/-- Documents that show the identifiers of the files of a name. -/
def Lists (name : String) (files : Multiset Document) (docs : List Document) : Prop :=
  (docs : Multiset Document) = (files.filter (·.IsNamed name)).map Document.idOnly

namespace Removal

variable {cmp : Comparison} {s : Store} {name : String}

/-- An exchange with a server that does what it is asked or fails without effect. -/
inductive Serves (cmp : Comparison) (s : Store) (name : String) : Shelves → Exchange → Shelves → Prop
  | search {h : Shelves} {pending : List Document} {x : Exchange}
      (asks : x.command.ListsIds s.files (Store.named name))
      (honest : ∀ batch, x.reply.batch "firstBatch" = .ok batch →
        Lists name h.files (batch.documents ++ pending) ∧ (batch.id = 0 → pending = [])) :
      Serves cmp s name h x { h with pending }
  | more {h : Shelves} {pending : List Document} {x : Exchange} (asks : x.command.AsksForMore)
      (honest : ∀ batch, x.reply.batch "nextBatch" = .ok batch →
        h.pending = batch.documents ++ pending ∧ (batch.id = 0 → pending = [])) :
      Serves cmp s name h x { h with pending }
  | files {h : Shelves} {x : Exchange} {ids : List Bson} {n : Nat} (asks : x.command.RemovesIn s.files "_id" ids)
      (done : x.reply.removed = .ok n) :
      Serves cmp s name h x { h with files := h.files.filter (¬ ·.HasIn cmp "_id" ids) }
  | chunks {h : Shelves} {x : Exchange} {ids : List Bson} {n : Nat}
      (asks : x.command.RemovesIn s.chunks "files_id" ids) (done : x.reply.removed = .ok n) :
      Serves cmp s name h x { h with chunks := h.chunks.filter (¬ ·.HasIn cmp "files_id" ids) }
  | failed {h : Shelves} {x : Exchange} {c : Collection} {field : String} {ids : List Bson} {e : Error}
      (asks : x.command.RemovesIn c field ids) (failed : x.reply.removed = .error e) : Serves cmp s name h x h

/-- Exchanges one after the other, with no other client in between. -/
inductive Served (cmp : Comparison) (s : Store) (name : String) : Shelves → List Exchange → Shelves → Prop
  | nil (h : Shelves) : Served cmp s name h [] h
  | cons {h h' h'' : Shelves} {x : Exchange} {log : List Exchange} (first : Serves cmp s name h x h')
      (rest : Served cmp s name h' log h'') : Served cmp s name h (x :: log) h''

/-- Removals of a name one after the other, with what was exchanged for each and what came of it. -/
inductive Tried (cmp : Comparison) (s : Store) (name : String) (start : Shelves) :
    List (List Exchange × Except Error Unit) → Shelves → Prop
  | nil : Tried cmp s name start [] start
  | snoc {tries : List (List Exchange × Except Error Unit)} {h h' : Shelves} {log : List Exchange}
      {outcome : Except Error Unit} (before : Tried cmp s name start tries h)
      (plays : (s.remove name).run.Plays log outcome) (served : Served cmp s name h log h') :
      Tried cmp s name start (tries ++ [(log, outcome)]) h'

/-- Some removal of chunks succeeded. -/
def RemovesChunks (s : Store) (log : List Exchange) : Prop :=
  ∃ x ∈ log, (∃ ids, x.command.RemovesIn s.chunks "files_id" ids) ∧ ∃ n, x.reply.removed = .ok n

/-! ### Single exchanges -/

section Exchanging

variable {h h' : Shelves} {x : Exchange} {ids : List Bson}

theorem Serves.of_listsIds (hserves : Serves cmp s name h x h')
    (hasks : x.command.ListsIds s.files (Store.named name)) :
    h'.toHoldings = h.toHoldings ∧ ∀ batch, x.reply.batch "firstBatch" = .ok batch →
      Lists name h.files (batch.documents ++ h'.pending) ∧ (batch.id = 0 → h'.pending = []) := by
  cases hserves with
  | search asks honest => exact ⟨rfl, honest⟩
  | more asks honest => exact absurd hasks.isFor (asks.not_isFor _ _)
  | files asks done => exact absurd (asks.isFor.unique hasks.isFor).1 (by decide)
  | chunks asks done => exact absurd (asks.isFor.unique hasks.isFor).1 (by decide)
  | failed asks failed => exact absurd (asks.isFor.unique hasks.isFor).1 (by decide)

theorem Serves.of_asksForMore (hserves : Serves cmp s name h x h') (hasks : x.command.AsksForMore) :
    h'.toHoldings = h.toHoldings ∧ ∀ batch, x.reply.batch "nextBatch" = .ok batch →
      h.pending = batch.documents ++ h'.pending ∧ (batch.id = 0 → h'.pending = []) := by
  cases hserves with
  | search asks honest => exact absurd asks.isFor (hasks.not_isFor _ _)
  | more asks honest => exact ⟨rfl, honest⟩
  | files asks done => exact absurd asks.isFor (hasks.not_isFor _ _)
  | chunks asks done => exact absurd asks.isFor (hasks.not_isFor _ _)
  | failed asks failed => exact absurd asks.isFor (hasks.not_isFor _ _)

theorem Serves.of_failed {c : Collection} {field : String} {e : Error} (hserves : Serves cmp s name h x h')
    (hasks : x.command.RemovesIn c field ids) (hfailed : x.reply.removed = .error e) : h' = h := by
  cases hserves with
  | search asks honest => exact absurd (asks.isFor.unique hasks.isFor).1 (by decide)
  | more asks honest => exact absurd hasks.isFor (asks.not_isFor _ _)
  | files asks done => cases done.symm.trans hfailed
  | chunks asks done => cases done.symm.trans hfailed
  | failed asks failed => rfl

theorem Serves.of_files {n : Nat} (hserves : Serves cmp s name h x h')
    (hasks : x.command.RemovesIn s.files "_id" ids) (hdone : x.reply.removed = .ok n) :
    h' = { h with files := h.files.filter (¬ ·.HasIn cmp "_id" ids) } := by
  cases hserves with
  | search asks honest => exact absurd (asks.isFor.unique hasks.isFor).1 (by decide)
  | more asks honest => exact absurd hasks.isFor (asks.not_isFor _ _)
  | files asks done =>
    obtain rfl := (asks.unique hasks).2
    rfl
  | chunks asks done => exact absurd (asks.unique hasks).1 (by decide)
  | failed asks failed => cases failed.symm.trans hdone

theorem Serves.of_chunks {n : Nat} (hserves : Serves cmp s name h x h')
    (hasks : x.command.RemovesIn s.chunks "files_id" ids) (hdone : x.reply.removed = .ok n) :
    h' = { h with chunks := h.chunks.filter (¬ ·.HasIn cmp "files_id" ids) } := by
  cases hserves with
  | search asks honest => exact absurd (asks.isFor.unique hasks.isFor).1 (by decide)
  | more asks honest => exact absurd hasks.isFor (asks.not_isFor _ _)
  | files asks done => exact absurd (asks.unique hasks).1 (by decide)
  | chunks asks done =>
    obtain rfl := (asks.unique hasks).2
    rfl
  | failed asks failed => cases failed.symm.trans hdone

end Exchanging

theorem served_append {h h' : Shelves} {log more : List Exchange} :
    Served cmp s name h (log ++ more) h' ↔ ∃ k, Served cmp s name h log k ∧ Served cmp s name k more h' := by
  induction log generalizing h with
  | nil =>
    constructor
    · exact fun hmore => ⟨h, .nil h, hmore⟩
    · rintro ⟨_, ⟨⟩, hmore⟩
      exact hmore
  | cons x log ih =>
    constructor
    · rintro (_ | ⟨hx, hlog⟩)
      obtain ⟨k, hfirst, hmore⟩ := ih.mp hlog
      exact ⟨k, .cons hx hfirst, hmore⟩
    · rintro ⟨k, _ | ⟨hx, hfirst⟩, hmore⟩
      exact .cons hx (ih.mpr ⟨k, hfirst, hmore⟩)

/-! ### Listing -/

section Listing

variable {h h' : Shelves} {more : List Exchange}

theorem Served.holdings_of_more (hserved : Served cmp s name h more h')
    (hmore : ∀ y ∈ more, y.command.AsksForMore) : h'.toHoldings = h.toHoldings := by
  induction hserved with
  | nil h => rfl
  | cons first rest ih =>
    obtain ⟨hx, hrest⟩ := List.forall_mem_cons.mp hmore
    exact (ih hrest).trans (first.of_asksForMore hx).1

/-- A result that is followed to its end has what was still to be given of it. -/
theorem Served.yields_pending {id : Int64} {here docs : List Document} (hserved : Served cmp s name h more h')
    (hmore : ∀ y ∈ more, y.command.AsksForMore) (hyields : Yields id here (more.map Exchange.reply) docs)
    (hend : id = 0 → h.pending = []) : docs = here ++ h.pending := by
  induction hserved generalizing id here docs with
  | nil h =>
    cases hyields with
    | last => rw [hend rfl, List.append_nil]
  | cons first rest ih =>
    obtain ⟨hx, hrest⟩ := List.forall_mem_cons.mp hmore
    cases hyields with
    | more _ open_ next yields =>
      obtain ⟨hpending, hend'⟩ := (first.of_asksForMore hx).2 _ next
      rw [ih hrest yields hend', hpending]

/-- A listing that comes whole has the identifiers of the files of the name, and changes nothing. -/
theorem Served.lists {x : Exchange} {docs : List Document} (hserved : Served cmp s name h (x :: more) h')
    (hasks : x.command.ListsIds s.files (Store.named name)) (hmore : ∀ y ∈ more, y.command.AsksForMore)
    (hopens : x.reply.Opens (more.map Exchange.reply) docs) :
    h'.toHoldings = h.toHoldings ∧ Lists name h.files docs := by
  obtain _ | ⟨first, rest⟩ := hserved
  obtain ⟨hsame, hlists⟩ := first.of_listsIds hasks
  obtain ⟨batch, hbatch, hyields⟩ := hopens
  obtain ⟨hdocs, hend⟩ := hlists batch hbatch
  refine ⟨(rest.holdings_of_more hmore).trans hsame, ?_⟩
  rw [rest.yields_pending hmore hyields hend]
  exact hdocs

end Listing

/-! ### Identifiers -/

/-- Files with identifiers of their own, of which those of a name come back unchanged when they are sent. -/
structure Catalogued (cmp : Comparison) (name : String) (files : Multiset Document) : Prop where
  identified : ∀ doc ∈ files, doc.IsNamed name → ∃ id, doc.get? "_id" = some id
  distinct : ∀ doc ∈ files, ∀ other ∈ files, ∀ id id', doc.get? "_id" = some id → other.get? "_id" = some id' →
    cmp.alike id id' = true → doc = other
  echoed : ∀ id ∈ idsNamed name files, id.echoed = id

section Identifying

variable {files : Multiset Document} {docs : List Document}

theorem mem_idsNamed {id : Bson} :
    id ∈ idsNamed name files ↔ ∃ doc ∈ files, doc.IsNamed name ∧ doc.get? "_id" = some id := by
  simp [idsNamed, and_assoc]

/-- The identifiers that are sent are those of the files of the name. -/
theorem coe_resent_idsOf (hlists : Lists name files docs) (hcat : Catalogued cmp name files) :
    (((Store.idsOf docs).map Bson.resent : List Bson) : Multiset Bson) = idsNamed name files := by
  have hget (doc : Document) : (Value.ofDocument doc.idOnly).get? "_id" = (doc.get? "_id").map Bson.inbound := by
    have hnames : doc.idOnly.names.Nodup := by
      unfold Document.idOnly Document.names
      cases doc.get? "_id" <;> simp [Fields.names]
    rw [Value.get?_ofDocument hnames]
    unfold Document.idOnly
    cases doc.get? "_id" <;> simp [Document.get?]
  have hsent : (((Store.idsOf docs).map Bson.resent : List Bson) : Multiset Bson) =
      (idsNamed name files).map Bson.echoed := by
    unfold Store.idsOf
    rw [← Multiset.map_coe, ← Multiset.filterMap_coe, ← Multiset.map_coe, hlists, Multiset.map_map,
      Multiset.filterMap_map, Multiset.map_filterMap, idsNamed, Multiset.map_filterMap]
    refine congrArg (fun f => Multiset.filterMap f _) (funext fun doc => ?_)
    simp only [Function.comp_apply, hget, Option.map_map]
    rfl
  rw [hsent, Multiset.map_congr rfl hcat.echoed, Multiset.map_id']

theorem filter_not_hasIn (hcat : Catalogued cmp name files) :
    files.filter (¬ ·.HasIn cmp "_id" (idsNamed name files)) = files.filter (¬ ·.IsNamed name) := by
  refine Multiset.filter_congr fun doc hdoc => not_congr ⟨fun hin => ?_, fun hnamed => ?_⟩
  · obtain ⟨id, hid, id', hid', halike⟩ := Document.hasIn_iff.mp hin
    obtain ⟨other, hother, hnamed, hother_id⟩ := mem_idsNamed.mp hid
    rwa [hcat.distinct other hother doc hdoc id id' hother_id hid' halike] at hnamed
  · obtain ⟨id, hid⟩ := hcat.identified doc hdoc hnamed
    exact Document.hasIn_iff.mpr ⟨id, mem_idsNamed.mpr ⟨doc, hdoc, hnamed, hid⟩, id, hid, cmp.refl id⟩

theorem Catalogued.of_le {left : Multiset Document} (hcat : Catalogued cmp name files) (hle : left ≤ files) :
    Catalogued cmp name left where
  identified doc hdoc := hcat.identified doc (Multiset.mem_of_le hle hdoc)
  distinct doc hdoc other hother :=
    hcat.distinct doc (Multiset.mem_of_le hle hdoc) other (Multiset.mem_of_le hle hother)
  echoed id hid := by
    obtain ⟨doc, hdoc, hnamed, hid'⟩ := mem_idsNamed.mp hid
    exact hcat.echoed id (mem_idsNamed.mpr ⟨doc, Multiset.mem_of_le hle hdoc, hnamed, hid'⟩)

theorem exists_named_iff (hcat : Catalogued cmp name files) :
    (∃ doc ∈ files, doc.IsNamed name) ↔ idsNamed name files ≠ 0 := by
  constructor
  · rintro ⟨doc, hdoc, hnamed⟩ hnone
    obtain ⟨id, hid⟩ := hcat.identified doc hdoc hnamed
    exact Multiset.notMem_zero id (hnone ▸ mem_idsNamed.mpr ⟨doc, hdoc, hnamed, hid⟩)
  · intro hsome
    obtain ⟨id, hid⟩ := Multiset.exists_mem_of_ne_zero hsome
    obtain ⟨doc, hdoc, hnamed, -⟩ := mem_idsNamed.mp hid
    exact ⟨doc, hdoc, hnamed⟩

end Identifying

/-! ### One removal -/

/-- What a removal leaves: everything, or all but the descriptions of the name, or neither these nor the chunks of
their identifiers. -/
inductive Leaves (cmp : Comparison) (s : Store) (name : String) (h : Holdings) :
    List Exchange → Except Error Unit → Holdings → Prop
  | unchanged {log : List Exchange} {outcome : Except Error Unit} (kept : ¬ RemovesChunks s log)
      (unnamed : outcome = .ok () → idsNamed name h.files = 0) : Leaves cmp s name h log outcome h
  | undescribed {log : List Exchange} {e : Error} (kept : ¬ RemovesChunks s log)
      (named : idsNamed name h.files ≠ 0) :
      Leaves cmp s name h log (.error e) ⟨h.files.filter (¬ ·.IsNamed name), h.chunks⟩
  | gone {log : List Exchange} {outcome : Except Error Unit} (removed : RemovesChunks s log)
      (named : idsNamed name h.files ≠ 0) :
      Leaves cmp s name h log outcome ⟨h.files.filter (¬ ·.IsNamed name),
        h.chunks.filter (¬ ·.HasIn cmp "files_id" (idsNamed name h.files))⟩

section Removing

variable {log more last : List Exchange} {x : Exchange}

theorem removesChunks_append : RemovesChunks s (log ++ more) ↔ RemovesChunks s log ∨ RemovesChunks s more := by
  simp [RemovesChunks, or_and_right, exists_or]

theorem not_removesChunks_of_search (hasks : x.command.ListsIds s.files (Store.named name))
    (hmore : ∀ y ∈ more, y.command.AsksForMore) : ¬ RemovesChunks s (x :: more) := by
  rintro ⟨y, hy, ⟨ids, hids⟩, -⟩
  rcases List.mem_cons.mp hy with rfl | hy
  · exact absurd (hids.isFor.unique hasks.isFor).1 (by decide)
  · exact (hmore y hy).not_isFor _ _ hids.isFor

theorem not_removesChunks_of_files {ids : List Bson} (hasks : x.command.RemovesIn s.files "_id" ids) :
    ¬ RemovesChunks s [x] := by
  rintro ⟨y, hy, ⟨ids', hids'⟩, -⟩
  obtain rfl := List.mem_singleton.mp hy
  exact absurd (hids'.unique hasks).1 (by decide)

theorem not_removesChunks_of_failed {e : Error} (hfailed : x.reply.removed = .error e) : ¬ RemovesChunks s [x] := by
  rintro ⟨y, hy, -, n, hn⟩
  obtain rfl := List.mem_singleton.mp hy
  cases hn.symm.trans hfailed

variable {h h' : Shelves} {outcome : Except Error Unit}

/-- What follows a listing of all identifiers removes the descriptions and then the chunks, as far as it comes. -/
theorem leaves_of_clears {ids : List Bson} (hcat : Catalogued cmp name h.files)
    (hids : (ids : Multiset Bson) = idsNamed name h.files) (hsome : idsNamed name h.files ≠ 0)
    (hclears : Store.Clears s ids log outcome) (hserved : Served cmp s name h log h') :
    Leaves cmp s name h.toHoldings log outcome h'.toHoldings := by
  have hfiles : h.files.filter (¬ ·.HasIn cmp "_id" ids) = h.files.filter (¬ ·.IsNamed name) := by
    rw [hids]
    exact filter_not_hasIn hcat
  cases hclears with
  | unsent e =>
    obtain ⟨⟩ := hserved
    exact .unchanged (by simp [RemovesChunks]) nofun
  | undescribed asks failed =>
    obtain _ | ⟨hx, ⟨⟩⟩ := hserved
    obtain rfl := hx.of_failed asks failed
    exact .unchanged (not_removesChunks_of_files asks) nofun
  | halfway asks done e =>
    obtain _ | ⟨hx, ⟨⟩⟩ := hserved
    rw [hx.of_files asks done, hfiles]
    exact .undescribed (not_removesChunks_of_files asks) hsome
  | @both x y n asks done asks_chunks =>
    obtain _ | ⟨hx, _ | ⟨hy, ⟨⟩⟩⟩ := hserved
    have hdescribed := hx.of_files asks done
    rw [hfiles] at hdescribed
    cases hremoved : y.reply.removed with
    | error e =>
      rw [hy.of_failed asks_chunks hremoved, hdescribed]
      have hkept : ¬ RemovesChunks s ([x] ++ [y]) := fun hremoves => (removesChunks_append.mp hremoves).elim
        (not_removesChunks_of_files asks) (not_removesChunks_of_failed hremoved)
      exact .undescribed hkept hsome
    | ok m =>
      rw [hy.of_chunks asks_chunks hremoved, hdescribed, hids]
      exact .gone ⟨y, by simp, ⟨ids, asks_chunks⟩, m, hremoved⟩ hsome

theorem Leaves.of_search {first log : List Exchange} {start left : Holdings} (hfirst : ¬ RemovesChunks s first)
    (hleaves : Leaves cmp s name start log outcome left) : Leaves cmp s name start (first ++ log) outcome left := by
  have hsame : RemovesChunks s (first ++ log) ↔ RemovesChunks s log :=
    removesChunks_append.trans (or_iff_right hfirst)
  cases hleaves with
  | unchanged kept unnamed => exact .unchanged (mt hsame.mp kept) unnamed
  | undescribed kept named => exact .undescribed (mt hsame.mp kept) named
  | gone removed named => exact .gone (hsame.mpr removed) named

/-- What a removal leaves on a server that does what it is asked or fails without effect. -/
theorem leaves_of_served (hcat : Catalogued cmp name h.files) (hremoving : Store.Removing s name log outcome)
    (hserved : Served cmp s name h log h') : Leaves cmp s name h.toHoldings log outcome h'.toHoldings := by
  cases hremoving with
  | unsent e =>
    obtain ⟨⟩ := hserved
    exact .unchanged (by simp [RemovesChunks]) nofun
  | unlisted asks asks_more e =>
    obtain _ | ⟨first, rest⟩ := hserved
    rw [(rest.holdings_of_more asks_more).trans (first.of_listsIds asks).1]
    exact .unchanged (not_removesChunks_of_search asks asks_more) nofun
  | nothing asks asks_more opens empty =>
    obtain ⟨hsame, hlists⟩ := hserved.lists asks asks_more opens
    have hnone := coe_resent_idsOf hlists hcat
    rw [empty] at hnone
    rw [hsame]
    exact .unchanged (not_removesChunks_of_search asks asks_more) fun _ => hnone.symm
  | @listed x more last docs _ asks asks_more opens nonempty clears =>
    rw [← List.cons_append] at hserved ⊢
    obtain ⟨k, hlisting, hlast⟩ := served_append.mp hserved
    obtain ⟨hsame, hlists⟩ := hlisting.lists asks asks_more opens
    have hids := coe_resent_idsOf hlists hcat
    have hsome : idsNamed name h.files ≠ 0 := by
      rw [← hids]
      simpa using nonempty
    have hfiles : k.files = h.files := congrArg Holdings.files hsame
    rw [← hfiles] at hcat hids hsome
    have hleaves := leaves_of_clears hcat hids hsome clears hlast
    rw [hsame] at hleaves
    exact hleaves.of_search (not_removesChunks_of_search asks asks_more)

end Removing

/-! ### Removals until one succeeds -/

/-- How far the removals of a name have come, with what was exchanged for them and what is held then. -/
inductive Stage (cmp : Comparison) (s : Store) (name : String) (start : Holdings) :
    List Exchange → Holdings → Prop
  | untouched {log : List Exchange} (kept : ¬ RemovesChunks s log) : Stage cmp s name start log start
  | undescribed {log : List Exchange} (kept : ¬ RemovesChunks s log) :
      Stage cmp s name start log ⟨start.files.filter (¬ ·.IsNamed name), start.chunks⟩
  | gone {log : List Exchange} (removed : RemovesChunks s log) :
      Stage cmp s name start log ⟨start.files.filter (¬ ·.IsNamed name),
        start.chunks.filter (¬ ·.HasIn cmp "files_id" (idsNamed name start.files))⟩

section Trying

variable {log more : List Exchange} {start h : Holdings} {outcome : Except Error Unit}

theorem idsNamed_filter_not (files : Multiset Document) : idsNamed name (files.filter (¬ ·.IsNamed name)) = 0 := by
  refine Multiset.eq_zero_of_forall_notMem fun id hid => ?_
  obtain ⟨doc, hdoc, hnamed, -⟩ := mem_idsNamed.mp hid
  exact (Multiset.mem_filter.mp hdoc).2 hnamed

/-- Once the descriptions are gone a removal finds nothing. -/
theorem Leaves.of_unnamed {left : Holdings} (hleaves : Leaves cmp s name h log outcome left)
    (hnone : idsNamed name h.files = 0) : left = h ∧ ¬ RemovesChunks s log := by
  cases hleaves with
  | unchanged kept unnamed => exact ⟨rfl, kept⟩
  | undescribed kept named => exact absurd hnone named
  | gone removed named => exact absurd hnone named

/-- A removal goes on from where the removals before it have come. -/
theorem Stage.step {left : Holdings} (hstage : Stage cmp s name start log h)
    (hleaves : Leaves cmp s name h more outcome left) : Stage cmp s name start (log ++ more) left := by
  cases hstage with
  | untouched kept =>
    cases hleaves with
    | unchanged kept' unnamed => exact .untouched fun h => (removesChunks_append.mp h).elim kept kept'
    | undescribed kept' named => exact .undescribed fun h => (removesChunks_append.mp h).elim kept kept'
    | gone removed named => exact .gone (removesChunks_append.mpr (.inr removed))
  | undescribed kept =>
    obtain ⟨rfl, kept'⟩ := hleaves.of_unnamed (idsNamed_filter_not start.files)
    exact .undescribed fun h => (removesChunks_append.mp h).elim kept kept'
  | gone removed =>
    obtain ⟨rfl, -⟩ := hleaves.of_unnamed (idsNamed_filter_not start.files)
    exact .gone (removesChunks_append.mpr (.inl removed))

theorem Stage.catalogued (hstage : Stage cmp s name start log h) (hcat : Catalogued cmp name start.files) :
    Catalogued cmp name h.files := by
  cases hstage with
  | untouched kept => exact hcat
  | undescribed kept => exact hcat.of_le (Multiset.filter_le _ _)
  | gone removed => exact hcat.of_le (Multiset.filter_le _ _)

/-- After a removal that succeeds the descriptions are gone. -/
theorem Stage.files_of_ok {left : Holdings} (hcat : Catalogued cmp name start.files)
    (hstage : Stage cmp s name start log h) (hleaves : Leaves cmp s name h more (.ok ()) left) :
    left.files = start.files.filter (¬ ·.IsNamed name) := by
  cases hstage with
  | untouched kept =>
    cases hleaves with
    | unchanged kept' unnamed =>
      refine (Multiset.filter_eq_self.mpr fun doc hdoc hnamed => ?_).symm
      exact (exists_named_iff hcat).mp ⟨doc, hdoc, hnamed⟩ (unnamed rfl)
    | gone removed named => rfl
  | undescribed kept => rw [(hleaves.of_unnamed (idsNamed_filter_not start.files)).1]
  | gone removed => rw [(hleaves.of_unnamed (idsNamed_filter_not start.files)).1]

/-- Other chunks are left alone, and those of the files are gone exactly if their removal succeeded. -/
theorem Stage.chunks_gone_iff (hstage : Stage cmp s name start log h) :
    h.chunks.filter (¬ ·.HasIn cmp "files_id" (idsNamed name start.files)) =
        start.chunks.filter (¬ ·.HasIn cmp "files_id" (idsNamed name start.files)) ∧
      ((∀ chunk ∈ h.chunks, ¬ chunk.HasIn cmp "files_id" (idsNamed name start.files)) ↔
        RemovesChunks s log ∨ ∀ chunk ∈ start.chunks, ¬ chunk.HasIn cmp "files_id" (idsNamed name start.files)) := by
  cases hstage with
  | untouched kept => exact ⟨rfl, (or_iff_right kept).symm⟩
  | undescribed kept => exact ⟨rfl, (or_iff_right kept).symm⟩
  | gone removed =>
    refine ⟨?_, iff_of_true (fun chunk hchunk => (Multiset.mem_filter.mp hchunk).2) (.inl removed)⟩
    rw [Multiset.filter_filter]
    simp only [and_self]

variable {first last : Shelves} {tries : List (List Exchange × Except Error Unit)}

theorem stage_of_tried (hcat : Catalogued cmp name first.files) (htried : Tried cmp s name first tries last) :
    Stage cmp s name first.toHoldings (tries.flatMap Prod.fst) last.toHoldings := by
  induction htried with
  | nil => exact .untouched (by simp [RemovesChunks])
  | snoc before plays served ih =>
    rw [List.flatMap_append, List.flatMap_singleton]
    exact ih.step (leaves_of_served (ih.catalogued hcat) (Store.removing_of_plays plays) served)

/-- A removal of a name that succeeds in the end, whatever failed before it without effect, leaves no description of
the name and all other documents. Of the chunks of the files there is nothing left exactly if some removal of chunks
succeeded or there were none. -/
theorem chunks_gone_iff_of_tried (hcat : Catalogued cmp name first.files)
    (htried : Tried cmp s name first (tries ++ [(log, .ok ())]) last) :
    last.files = first.files.filter (¬ ·.IsNamed name) ∧
      last.chunks.filter (¬ ·.HasIn cmp "files_id" (idsNamed name first.files)) =
        first.chunks.filter (¬ ·.HasIn cmp "files_id" (idsNamed name first.files)) ∧
      ((∀ chunk ∈ last.chunks, ¬ chunk.HasIn cmp "files_id" (idsNamed name first.files)) ↔
        RemovesChunks s (tries.flatMap Prod.fst ++ log) ∨
          ∀ chunk ∈ first.chunks, ¬ chunk.HasIn cmp "files_id" (idsNamed name first.files)) := by
  generalize hall : tries ++ [(log, .ok ())] = all at htried
  cases htried with
  | nil => simp at hall
  | @snoc tries' before_last _ log' outcome before plays served =>
    obtain ⟨rfl, hlast⟩ := List.append_inj' hall rfl
    obtain ⟨rfl, rfl⟩ := Prod.mk.inj (List.singleton_inj.mp hlast)
    have hstage := stage_of_tried hcat before
    have hleaves := leaves_of_served (hstage.catalogued hcat) (Store.removing_of_plays plays) served
    exact ⟨hstage.files_of_ok hcat hleaves, (hstage.step hleaves).chunks_gone_iff⟩

end Trying

/-! ### A file with one chunk -/

namespace Sample

def fs : Store := Database.blobs ⟨"app", .primary, none, 8⟩ "fs"

def verbatim : Comparison := ⟨fun a b => a = b, by simp⟩

def file : Document := ⟨[("_id", .int32 7), ("filename", .string "a.txt")]⟩

def chunk : Document := ⟨[("_id", .int32 1), ("files_id", .int32 7)]⟩

/-- One file with its chunk. -/
def stored : Shelves := ⟨⟨{file}, {chunk}⟩, []⟩

def listing (docs : List Bson) : Reply :=
  .document ⟨[("ok", .int32 1), ("cursor", .document [("id", .int64 0), ("ns", .string "app.fs.files"),
    ("firstBatch", .array docs)])]⟩

def removedOne : Reply := .document ⟨[("ok", .int32 1), ("n", .int32 1)]⟩

theorem idsNamed_stored : idsNamed "a.txt" stored.files = {.int32 7} := rfl

theorem catalogued_stored : Catalogued verbatim "a.txt" stored.files where
  identified doc hdoc _ := by
    obtain rfl := Multiset.mem_singleton.mp hdoc
    exact ⟨.int32 7, rfl⟩
  distinct doc hdoc other hother _ _ _ _ _ :=
    (Multiset.mem_singleton.mp hdoc).trans (Multiset.mem_singleton.mp hother).symm
  echoed id hid := by
    obtain rfl := Multiset.mem_singleton.mp (idsNamed_stored ▸ hid)
    rfl

/-- The commands of a removal, and what comes of them. -/
theorem exists_commands : ∃ search files chunks : Command,
    search.ListsIds fs.files (Store.named "a.txt") ∧ files.RemovesIn fs.files "_id" [.int32 7] ∧
      chunks.RemovesIn fs.chunks "files_id" [.int32 7] ∧
      (fs.remove "a.txt").run.Plays [⟨search, .short, listing [.ofDocument file.idOnly]⟩, ⟨files, .short, removedOne⟩,
        ⟨chunks, .short, removedOne⟩] (.ok ()) ∧
      (fs.remove "a.txt").run.Plays [⟨search, .short, listing [.ofDocument file.idOnly]⟩, ⟨files, .short, removedOne⟩,
        ⟨chunks, .short, .dropped⟩] (.error (.transport .io)) ∧
      (fs.remove "a.txt").run.Plays [⟨search, .short, listing []⟩] (.ok ()) := by
  refine ⟨_, _, _, ?search, ?files, ?chunks, .send _ (.send _ (.send _ (.done _))),
    .send _ (.send _ (.send _ (.done _))), .send _ (.done _)⟩
  case search => exact ⟨⟨rfl, rfl⟩, rfl, rfl, rfl, rfl⟩
  case files => exact ⟨⟨rfl, rfl⟩, rfl⟩
  case chunks => exact ⟨⟨rfl, rfl⟩, rfl⟩

/-- Of one document that has one of the values nothing is left. -/
theorem filter_singleton {field : String} {values : Multiset Bson} {doc : Document}
    (h : doc.HasIn verbatim field values) :
    ({doc} : Multiset Document).filter (¬ ·.HasIn verbatim field values) = 0 := by
  refine Multiset.filter_eq_nil.mpr fun other hother => ?_
  rw [Multiset.mem_singleton.mp hother]
  exact not_not.mpr h

section Serving

variable {search files chunks : Command}

/-- The search lists the file as long as it is described. -/
theorem serves_search (hsearch : search.ListsIds fs.files (Store.named "a.txt")) :
    Serves verbatim fs "a.txt" stored ⟨search, .short, listing [.ofDocument file.idOnly]⟩ stored := by
  refine .search hsearch fun batch hbatch => ?_
  obtain rfl := Except.ok.inj hbatch
  exact ⟨rfl, fun _ => rfl⟩

/-- Nothing is listed once it is not. -/
theorem serves_search_again (hsearch : search.ListsIds fs.files (Store.named "a.txt")) :
    Serves verbatim fs "a.txt" ⟨⟨0, {chunk}⟩, []⟩ ⟨search, .short, listing []⟩ ⟨⟨0, {chunk}⟩, []⟩ := by
  refine .search hsearch fun batch hbatch => ?_
  obtain rfl := Except.ok.inj hbatch
  exact ⟨rfl, fun _ => rfl⟩

theorem serves_files (hfiles : files.RemovesIn fs.files "_id" [.int32 7]) :
    Serves verbatim fs "a.txt" stored ⟨files, .short, removedOne⟩ ⟨⟨0, {chunk}⟩, []⟩ := by
  have hnone : stored.files.filter (¬ ·.HasIn verbatim "_id" ([.int32 7] : List Bson)) = 0 :=
    filter_singleton ⟨.int32 7, Multiset.mem_singleton_self _, rfl⟩
  have hserves : Serves verbatim fs "a.txt" stored ⟨files, .short, removedOne⟩
      { stored with files := stored.files.filter (¬ ·.HasIn verbatim "_id" ([.int32 7] : List Bson)) } :=
    .files (n := 1) hfiles rfl
  rwa [hnone] at hserves

theorem serves_chunks (hchunks : chunks.RemovesIn fs.chunks "files_id" [.int32 7]) :
    Serves verbatim fs "a.txt" ⟨⟨0, {chunk}⟩, []⟩ ⟨chunks, .short, removedOne⟩ ⟨⟨0, 0⟩, []⟩ := by
  have hnone : ({chunk} : Multiset Document).filter (¬ ·.HasIn verbatim "files_id" ([.int32 7] : List Bson)) = 0 :=
    filter_singleton ⟨.int32 7, Multiset.mem_singleton_self _, rfl⟩
  have hserves : Serves verbatim fs "a.txt" ⟨⟨0, {chunk}⟩, []⟩ ⟨chunks, .short, removedOne⟩
      ⟨⟨0, ({chunk} : Multiset Document).filter (¬ ·.HasIn verbatim "files_id" ([.int32 7] : List Bson))⟩, []⟩ :=
    .chunks (n := 1) hchunks rfl
  rwa [hnone] at hserves

end Serving

/-- A removal in which nothing fails leaves neither the description nor the chunk. -/
theorem chunk_removed : ∃ log last, Tried verbatim fs "a.txt" stored [(log, .ok ())] last ∧
    ∀ doc ∈ last.chunks, ¬ doc.HasIn verbatim "files_id" (idsNamed "a.txt" stored.files) := by
  obtain ⟨search, files, chunks, hsearch, hfiles, hchunks, hplays, -, -⟩ := exists_commands
  have htried := Tried.snoc .nil hplays (.cons (serves_search hsearch) (.cons (serves_files hfiles)
    (.cons (serves_chunks hchunks) (.nil _))))
  have hremoves : RemovesChunks fs [⟨search, .short, listing [.ofDocument file.idOnly]⟩,
      ⟨files, .short, removedOne⟩, ⟨chunks, .short, removedOne⟩] :=
    ⟨⟨chunks, .short, removedOne⟩, by simp, ⟨_, hchunks⟩, 1, rfl⟩
  obtain ⟨-, -, hgone⟩ := chunks_gone_iff_of_tried catalogued_stored htried
  exact ⟨_, _, htried, hgone.mpr (.inl hremoves)⟩

/-- The removal of the chunk fails, and the next removal finds no description and succeeds: the chunk is left. -/
theorem chunk_orphaned : ∃ log log' e last,
    Tried verbatim fs "a.txt" stored [(log, .error e), (log', .ok ())] last ∧
      ∃ doc ∈ last.chunks, doc.HasIn verbatim "files_id" (idsNamed "a.txt" stored.files) := by
  obtain ⟨search, files, chunks, hsearch, hfiles, hchunks, -, hfails, hagain⟩ := exists_commands
  have htried := (Tried.snoc .nil hfails (.cons (serves_search hsearch) (.cons (serves_files hfiles)
    (.cons (.failed hchunks rfl) (.nil _))))).snoc hagain (.cons (serves_search_again hsearch) (.nil _))
  exact ⟨_, _, _, _, htried, chunk, by simp, .int32 7, Multiset.mem_singleton_self _, rfl⟩

end Sample

end Removal
end Blob
end DocClient
