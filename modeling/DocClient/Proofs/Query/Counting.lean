import DocClient.Proofs.Query.Requests
import Mathlib.Data.Multiset.Filter

/-! Counting the matches of a query and listing them, against a server that goes by one rule for both. Main statement:
`counts_as_listed`, by which the number that is counted is that of the documents that are listed exactly if the limit
of the query is not below zero or leaves no match out. -/
namespace DocClient

/-! ### Servers -/

/-- A number of documents, as an integer. -/
inductive Bson.IsNumber : Bson → Nat → Prop
  | int32 {i : Int32} {n : Nat} (h : i.toInt = n) : IsNumber (.int32 i) n
  | int64 {i : Int64} {n : Nat} (h : i.toInt = n) : IsNumber (.int64 i) n

/-- What a listing gives of the documents that are found: those after some and up to a limit, and in a single
batch no more than its size. -/
def Listing.window {α : Type} (l : Listing) (found : List α) : List α :=
  let wanted := (found.drop l.skip).take (l.limit.getD found.length)
  if l.single then wanted.take (l.batchSize.getD wanted.length) else wanted

namespace Engine

open Classical in
/-- What a listing may give: a window of the matches, in whatever order the server has put them. -/
def Lists (e : Engine) (store : Multiset Document) (l : Listing) (docs : List Document) : Prop :=
  ∃ found : List Document, (found : Multiset Document) = store.filter (e.selects l.filter) ∧
    docs = (l.window found).map (e.shown l.projection)

open Classical in
/-- What comes out of stages for documents that go in. -/
inductive Passes (e : Engine) : List Stage → List Document → List Document → Prop
  | done (rows : List Document) : Passes e [] rows rows
  | select {filter : Document} {stages : List Stage} {docs rows : List Document}
      (rest : Passes e stages (docs.filter fun doc => e.selects filter doc) rows) :
      Passes e (.select filter :: stages) docs rows
  | skip {n : Nat} {stages : List Stage} {docs rows : List Document} (rest : Passes e stages (docs.drop n) rows) :
      Passes e (.skip n :: stages) docs rows
  | limit {n : Nat} {stages : List Stage} {docs rows : List Document} (rest : Passes e stages (docs.take n) rows) :
      Passes e (.limit n :: stages) docs rows
  | none {stages : List Stage} {rows : List Document} (rest : Passes e stages [] rows) :
      Passes e (.total :: stages) [] rows
  | total {stages : List Stage} {docs rows : List Document} {row : Document} {b : Bson} (nonempty : docs ≠ [])
      (counted : row.get? "n" = some b) (number : b.IsNumber docs.length) (rest : Passes e stages [row] rows) :
      Passes e (.total :: stages) docs rows

/-- A server that answers listings and aggregations of a collection by what it has stored. The replies that bring
the further batches of a listing follow. -/
structure Answers (e : Engine) (c : Collection) (store : Multiset Document) (x : Exchange) (more : List Reply) :
    Prop where
  listing : ∀ l, x.command.listing? c = some l → ∃ docs, e.Lists store l docs ∧ x.reply.Opens more docs
  stages : ∀ stages, x.command.stages? c = some stages → ∃ (found : List Document) (batch : Batch),
    (found : Multiset Document) = store ∧ e.Passes stages found batch.documents ∧
      x.reply.batch "firstBatch" = .ok batch

/-- Exchanges of which the first is answered so, and the others bring the further batches. -/
def Honest (e : Engine) (c : Collection) (store : Multiset Document) (log : List Exchange) : Prop :=
  ∀ x rest, log = x :: rest → e.Answers c store x (rest.map Exchange.reply)

end Engine

/-! ### What is answered -/

section Answering

variable {e : Engine} {store : Multiset Document} {docs rows : List Document} {stages : List Stage} {n : Nat}

open Classical in
theorem Engine.passes_select_iff {filter : Document} :
    e.Passes (.select filter :: stages) docs rows ↔
      e.Passes stages (docs.filter fun doc => e.selects filter doc) rows := by
  constructor
  · rintro (_ | rest)
    assumption
  · exact .select

theorem Engine.passes_skip_iff : e.Passes (.skip n :: stages) docs rows ↔ e.Passes stages (docs.drop n) rows := by
  constructor
  · rintro (_ | _ | rest)
    assumption
  · exact .skip

theorem Engine.passes_limit_iff : e.Passes (.limit n :: stages) docs rows ↔ e.Passes stages (docs.take n) rows := by
  constructor
  · rintro (_ | _ | _ | rest)
    assumption
  · exact .limit

/-- The rows that tell a number: none for none, and else one with the number. -/
inductive TellsNumber : List Document → Nat → Prop
  | none : TellsNumber [] 0
  | row {row : Document} {b : Bson} {n : Nat} (counted : row.get? "n" = some b) (number : b.IsNumber n) :
      TellsNumber [row] n

theorem Engine.tellsNumber_of_passes (h : e.Passes [.total] docs rows) : TellsNumber rows docs.length := by
  cases h with
  | none rest =>
    cases rest
    exact .none
  | total nonempty counted number rest =>
    cases rest
    exact .row counted number

open Classical in
/-- How many matches are left of a store after those that a query skips. -/
noncomputable def Query.left (q : Query) (e : Engine) (store : Multiset Document) : Nat :=
  (store.filter (e.selects q.filter.written)).card - q.skipped.toNat

/-- What is counted of the matches that are left. -/
def Query.counted (q : Query) (left : Nat) : Nat := if 0 < q.limited then min left q.limited.toInt.natAbs else left

theorem Query.tellsNumber_of_counting {q : Query} (hdocs : (docs : Multiset Document) = store)
    (h : e.Passes q.counting docs rows) : TellsNumber rows (q.counted (q.left e store)) := by
  unfold counting at h
  rw [Engine.passes_select_iff] at h
  have hskipped : ∀ {stages : List Stage} {docs : List Document},
      e.Passes ((if q.skipped = 0 then [] else [.skip q.skipped.toNat]) ++ stages) docs rows →
        e.Passes stages (docs.drop q.skipped.toNat) rows := by
    intro stages docs h
    split at h
    next hzero => rwa [hzero]
    next => exact Engine.passes_skip_iff.mp h
  rw [List.append_assoc] at h
  have hleft := hskipped h
  unfold counted left
  rw [← hdocs, Multiset.filter_coe, Multiset.coe_card]
  split at hleft
  next hlimit =>
    have htold := Engine.tellsNumber_of_passes (Engine.passes_limit_iff.mp hleft)
    rw [List.length_take, List.length_drop, Nat.min_comm] at htold
    rw [if_pos hlimit]
    exact htold
  next hlimit =>
    have htold := Engine.tellsNumber_of_passes hleft
    rw [List.length_drop] at htold
    rw [if_neg hlimit]
    exact htold

theorem decodeCount_of_isNumber {b : Bson} (h : b.IsNumber n) : decodeCount b = .ok n := by
  have hbounded : ∀ i : Int, i = n → i < 0x8000000000000000 →
      (if (decide (0 ≤ i) && decide (i ≤ 0x7fffffffffffffff)) = true then Except.ok i
        else .error (.outOfRange "a count" i)) = (.ok (n : Int) : Except DecodeCause Int) := by
    rintro _ rfl hn
    rw [if_pos]
    rw [Bool.and_eq_true, decide_eq_true_eq, decide_eq_true_eq]
    omega
  unfold decodeCount decodeInt
  cases h with
  | @int32 i n h =>
    have hupper := i.toInt_lt
    exact congrArg (Except.map Int.toNat) (hbounded _ h (by omega))
  | @int64 i n h => exact congrArg (Except.map Int.toNat) (hbounded _ h i.toInt_lt)

/-- The number that the rows of a reply tell is the number that is counted. -/
theorem readCount_of_tellsNumber {reply : Reply} {batch : Batch} (hbatch : reply.batch "firstBatch" = .ok batch)
    (h : TellsNumber batch.documents n) : (reply.success >>= readReply readCount) = .ok n := by
  obtain ⟨doc, hdoc, hread⟩ := bind_eq_ok_iff.mp hbatch
  have hread : readBatch "firstBatch" doc = .ok batch := mapError_eq_ok_iff.mp hread
  unfold readBatch at hread
  obtain ⟨cursor, hcursor, hrest⟩ := bind_eq_ok_iff.mp hread
  obtain ⟨id, -, hrest⟩ := bind_eq_ok_iff.mp hrest
  obtain ⟨names, -, hrest⟩ := bind_eq_ok_iff.mp hrest
  obtain ⟨documents, hdocuments, hrest⟩ := bind_eq_ok_iff.mp hrest
  obtain ⟨token, -, hrest⟩ := bind_eq_ok_iff.mp hrest
  cases hrest
  refine bind_eq_ok_iff.mpr ⟨doc, hdoc, mapError_eq_ok_iff.mpr ?_⟩
  refine bind_eq_ok_iff.mpr ⟨cursor, hcursor, bind_eq_ok_iff.mpr ⟨documents, hdocuments, ?_⟩⟩
  dsimp only at h
  cases h with
  | none => rfl
  | @row row b n counted number =>
    have hrow : row.required "n" decodeCount = .ok n := by
      unfold Document.required
      rw [counted]
      exact decodeCount_of_isNumber number
    rw [List.mapM_cons, hrow]
    rfl

theorem Listing.length_window {α : Type} (l : Listing) (found : List α) :
    (l.window found).length =
      if l.single then min (min (found.length - l.skip) (l.limit.getD found.length)) (l.batchSize.getD found.length)
      else min (found.length - l.skip) (l.limit.getD found.length) := by
  have hwanted : ((found.drop l.skip).take (l.limit.getD found.length)).length =
      min (found.length - l.skip) (l.limit.getD found.length) := by
    rw [List.length_take, List.length_drop, Nat.min_comm]
  unfold window
  dsimp only
  split
  next =>
    rw [List.length_take, hwanted]
    cases l.batchSize with
    | none =>
      rw [Option.getD_none, Option.getD_none]
      omega
    | some size => exact Nat.min_comm _ _
  next => exact hwanted

/-- As many are counted as are listed, unless a limit below zero leaves matches out. -/
theorem Query.counted_eq_length_window_iff {α : Type} (q : Query) (found : List α) :
    q.counted (found.length - q.skipped.toNat) = (q.listing.window found).length ↔
      0 ≤ q.limited ∨ found.length - q.skipped.toNat ≤ q.limited.toInt.natAbs ∧
        ∀ size ∈ q.batchSize, found.length - q.skipped.toNat ≤ size.toNat := by
  have hpos : 0 < q.limited ↔ 0 < q.limited.toInt := Int64.lt_iff_toInt_lt
  have hneg : q.limited < 0 ↔ q.limited.toInt < 0 := Int64.lt_iff_toInt_lt
  have hnonneg : 0 ≤ q.limited ↔ 0 ≤ q.limited.toInt := Int64.le_iff_toInt_le
  have hzero : q.limited = 0 ↔ q.limited.toInt = 0 := Int64.toInt_inj.symm
  rw [Listing.length_window]
  unfold counted listing
  simp only [hpos, hneg, hnonneg, hzero, decide_eq_true_eq]
  obtain hlimit | hlimit | hlimit := lt_trichotomy q.limited.toInt 0
  · -- A negative limit is not counted up to, and listed up to in one batch.
    have hsize : q.sentBatchSize = q.batchSize := by
      unfold sentBatchSize
      cases q.batchSize with
      | none => rfl
      | some n =>
        have hne : ¬ q.limited.toInt = n.toNat := by omega
        simp [hne]
    rw [hsize, if_neg (by omega), if_pos hlimit, if_neg (by omega), or_iff_right (by omega)]
    cases q.batchSize with
    | none =>
      simp only [Option.map_none, Option.getD_none, Option.getD_some, Option.not_mem_none, false_implies,
        implies_true, and_true]
      omega
    | some n =>
      simp only [Option.map_some, Option.getD_some, Option.mem_some_iff, forall_eq']
      omega
  · simp [hlimit]
  · rw [if_pos hlimit, if_neg (by omega), if_neg (by omega), Option.getD_some]
    exact iff_of_true rfl (.inl hlimit.le)

end Answering

/-! ### Counting and listing -/

namespace Query

variable {q : Query} {e : Engine} {store : Multiset Document} {α : Type} [Destination α] {previous held : List α}
  {k : Command} {docs : List Document} {log : List Exchange}

/-- What a server has found for a listing that is asked for is listed, in whatever batches it comes. -/
theorem exists_honest_listing (previous : List α) (hk : q.listCommand = .ok k) (hlists : e.Lists store q.listing docs)
    {reply : Reply} {replies : List Reply} {as : List α} (hopens : reply.Opens replies docs)
    (hreplies : replies.length ≤ q.collection.database.rounds) (hrounds : docs.length < q.collection.database.rounds)
    (hdecoded : decodeEach (docs.map Value.ofDocument) = .ok as) :
    ∃ log, (q.all previous).Plays log (.ok (), as) ∧ log.map Exchange.reply = reply :: replies ∧
      e.Honest q.collection store log := by
  obtain ⟨rest, hplays, hrest⟩ := exists_plays_all previous hk hopens hreplies hrounds
  unfold decodeEachInto at hplays
  rw [hdecoded] at hplays
  have hlisting := listing?_of_listCommand hk
  refine ⟨_, hplays, by rw [List.map_cons, hrest], ?_⟩
  rintro _ _ ⟨⟩
  refine ⟨fun l hl => ?_, fun stages hstages => ?_⟩
  · obtain rfl := Option.some.inj (hlisting.symm.trans hl)
    exact ⟨docs, hlists, hrest ▸ hopens⟩
  · cases (Command.stages?_of_listing? hlisting).symm.trans hstages

/-- The rows that come out of the stages that are asked for tell a number, which is counted. -/
theorem exists_honest_count (hk : q.countCommand = .ok k) {reply : Reply} {batch : Batch} {n : Nat}
    (hdocs : (docs : Multiset Document) = store) (hpasses : e.Passes q.counting docs batch.documents)
    (hbatch : reply.batch "firstBatch" = .ok batch) (htold : TellsNumber batch.documents n) :
    ∃ log, q.count.run.Plays log (.ok n) ∧ log.map Exchange.reply = [reply] ∧ e.Honest q.collection store log := by
  have hnumber := readCount_of_tellsNumber hbatch htold
  have hstages := stages?_of_countCommand hk
  refine ⟨[⟨k, .short, reply⟩], ?_, rfl, ?_⟩
  · rw [count_eq_ask]
    exact Call.plays_ask.mpr (.inr ⟨k, reply, hk, rfl, hnumber.symm⟩)
  · rintro _ _ ⟨⟩
    refine ⟨fun l hl => ?_, fun stages h => ?_⟩
    · cases (Command.stages?_of_listing? hl).symm.trans hstages
    · obtain rfl := Option.some.inj (hstages.symm.trans h)
      exact ⟨docs, batch, hdocs, hpasses, hbatch⟩

theorem length_of_decodeEachInto {vs : List Value} (h : decodeEachInto vs previous = (.ok (), held)) :
    held.length = vs.length :=
  (eachItem_eq_ok_iff.mp (assigned_eq_ok_iff.mp h)).length_eq.symm

/-- Honest servers list as many documents as the window of the matches has. -/
theorem exists_length_of_listed (hall : (q.all previous).Plays log (.ok (), held))
    (hhonest : e.Honest q.collection store log) :
    ∃ found : List Document, q.left e store = found.length - q.skipped.toNat ∧
      held.length = (q.listing.window found).length := by
  obtain ⟨_, -, h⟩ | ⟨k, reply, rest, hk, rfl, -, hdone⟩ := plays_all hall
  · cases h
  obtain ⟨docs, hopens, hdecoded⟩ := hdone rfl
  obtain ⟨docs', ⟨found, hfound, rfl⟩, hopens'⟩ :=
    (hhonest _ _ rfl).listing q.listing (listing?_of_listCommand hk)
  have hsame : rest.map Exchange.reply ++ [] = rest.map Exchange.reply ++ [] := rfl
  obtain ⟨-, rfl⟩ := hopens.unique hopens' hsame
  refine ⟨found, ?_, ?_⟩
  · have hcard := (congrArg Multiset.card hfound).symm.trans (Multiset.coe_card found)
    exact congrArg (· - q.skipped.toNat) hcard
  · rw [length_of_decodeEachInto hdecoded, List.length_map, List.length_map]

/-- Honest servers have the matches counted that are left and within the limit. -/
theorem counted_of_honest {r : Except Error Nat} (h : q.Sendable) (hcount : q.count.run.Plays log r)
    (hhonest : e.Honest q.collection store log) : r = .ok (q.counted (q.left e store)) := by
  rw [count_eq_ask] at hcount
  obtain ⟨_, hrefused, -⟩ | ⟨k, reply, hk, rfl, rfl⟩ := Call.plays_ask.mp hcount
  · obtain ⟨k, hk⟩ := h.exists_countCommand
    cases hk.symm.trans hrefused
  obtain ⟨found, batch, hfound, hpasses, hbatch⟩ :=
    (hhonest _ _ rfl).stages q.counting (stages?_of_countCommand hk)
  exact readCount_of_tellsNumber hbatch (tellsNumber_of_counting hfound hpasses)

/-- Counting and listing the matches of a query, against servers that go by one rule for both. -/
structure CountsAsListed (q : Query) (e : Engine) (store : Multiset Document) (previous : List α) : Prop where
  /-- All that a server may list is listed, if it can be decoded. -/
  listed : ∀ docs reply replies as, e.Lists store q.listing docs → reply.Opens replies docs →
    replies.length ≤ q.collection.database.rounds → docs.length < q.collection.database.rounds →
    decodeEach (docs.map Value.ofDocument) = .ok as →
    ∃ log, (q.all previous).Plays log (.ok (), as) ∧ log.map Exchange.reply = reply :: replies ∧
      e.Honest q.collection store log
  /-- Whatever rows a server gives, a number is counted. -/
  counted : ∀ (docs : List Document) reply batch, (docs : Multiset Document) = store →
    e.Passes q.counting docs batch.documents → reply.batch "firstBatch" = .ok batch →
    ∃ log n, q.count.run.Plays log (.ok n) ∧ log.map Exchange.reply = [reply] ∧ e.Honest q.collection store log
  /-- The number is that of the listed documents, unless a limit below zero leaves matches out. -/
  agree : ∀ listed held counted r, (q.all previous).Plays listed (.ok (), held) → e.Honest q.collection store listed →
    q.count.run.Plays counted r → e.Honest q.collection store counted →
    ∃ n, r = .ok n ∧ (n = held.length ↔ 0 ≤ q.limited ∨ q.left e store ≤ q.limited.toInt.natAbs ∧
      ∀ size ∈ q.batchSize, q.left e store ≤ size.toNat)

theorem counts_as_listed (h : q.Sendable) (e : Engine) (store : Multiset Document) (previous : List α) :
    q.CountsAsListed e store previous := by
  obtain ⟨k, hk⟩ := h.exists_listCommand
  obtain ⟨k', hk'⟩ := h.exists_countCommand
  refine ⟨?_, ?_, ?_⟩
  · intro docs reply replies as hlists hopens hreplies hrounds hdecoded
    exact exists_honest_listing previous hk hlists hopens hreplies hrounds hdecoded
  · intro docs reply batch hdocs hpasses hbatch
    obtain ⟨log, hlog⟩ := exists_honest_count hk' hdocs hpasses hbatch (tellsNumber_of_counting hdocs hpasses)
    exact ⟨log, _, hlog⟩
  · intro listed held counted r hall hlisted hcount hcounted
    obtain ⟨found, hleft, hlength⟩ := exists_length_of_listed hall hlisted
    refine ⟨_, counted_of_honest h hcount hcounted, ?_⟩
    rw [hlength, hleft]
    exact q.counted_eq_length_window_iff found

/-! ### Two documents -/

/-- All documents of a collection, up to a limit. -/
def upTo (limit : Int64) : Query :=
  { Collection.search ⟨⟨"app", .primary, none, 2⟩, "people"⟩ .empty none with limited := limit }

def both : List Document := [⟨[("_id", .int32 1)]⟩, ⟨[("_id", .int32 2)]⟩]

theorem sendable_upTo (limit : Int64) : (upTo limit).Sendable :=
  ⟨rfl, show (0 : UInt64).toNat < 0x8000000000000000 by decide, nofun, rfl, nofun, nofun, ⟨[], rfl⟩⟩

theorem plain_selects_all (doc : Document) : Engine.plain.selects .empty doc := nofun

/-- The first document is in a window of one. -/
theorem lists_first {l : Listing} (hfilter : l.filter = .empty) (hprojection : l.projection = none)
    (hwindow : l.window both = [⟨[("_id", .int32 1)]⟩]) :
    Engine.plain.Lists (both : Multiset Document) l [⟨[("_id", .int32 1)]⟩] := by
  classical
  refine ⟨both, ?_, ?_⟩
  · rw [hfilter]
    exact (Multiset.filter_eq_self.mpr fun doc _ => plain_selects_all doc).symm
  · rw [hwindow, hprojection]
    rfl

/-- Both documents pass the filter. -/
theorem passes_select_both {stages : List Stage} {rows : List Document} (h : Engine.plain.Passes stages both rows) :
    Engine.plain.Passes (.select .empty :: stages) both rows := by
  classical
  have hall : (both.filter fun doc => Engine.plain.selects .empty doc) = both :=
    List.filter_eq_self.mpr fun doc _ => decide_eq_true (plain_selects_all doc)
  refine .select ?_
  convert h

theorem opens_first : (foundReply [.document [("_id", .int32 1)]]).Opens [] [⟨[("_id", .int32 1)]⟩] :=
  ⟨_, rfl, .last _⟩

theorem decodeEach_first : decodeEach ([⟨[("_id", .int32 1)]⟩].map Value.ofDocument) =
    .ok ([⟨[("_id", .int32 1)]⟩] : List Document) := rfl

/-- A limit of one lists one document and counts one. -/
theorem counted_as_listed_up_to_one :
    ∃ (listed counted : List Exchange) (held : List Document) (n : Nat), ((upTo 1).all []).Plays listed (.ok (), held) ∧
      Engine.plain.Honest (upTo 1).collection both listed ∧ (upTo 1).count.run.Plays counted (.ok n) ∧
      Engine.plain.Honest (upTo 1).collection both counted ∧ n = held.length := by
  have h : (upTo 1).CountsAsListed Engine.plain both ([] : List Document) :=
    counts_as_listed (sendable_upTo 1) Engine.plain both []
  have hpasses : Engine.plain.Passes (upTo 1).counting both [⟨[("_id", .int32 1), ("n", .int32 1)]⟩] :=
    passes_select_both (.limit (.total (List.cons_ne_nil _ _) rfl (.int32 rfl) (.done _)))
  have hbatch : (foundReply [.document [("_id", .int32 1), ("n", .int32 1)]]).batch "firstBatch" =
      .ok ⟨0, "app", "people", [⟨[("_id", .int32 1), ("n", .int32 1)]⟩]⟩ := rfl
  obtain ⟨listed, hlisted, -, hlists⟩ := h.listed _ _ _ _ (lists_first rfl rfl rfl) opens_first (Nat.zero_le 2)
    (by decide) decodeEach_first
  obtain ⟨counted, _, hcounted, -, hcounts⟩ := h.counted both _ _ rfl hpasses hbatch
  obtain ⟨n, hn, hagree⟩ := h.agree _ _ _ _ hlisted hlists hcounted hcounts
  obtain rfl := Except.ok.inj hn
  exact ⟨listed, counted, _, _, hlisted, hlists, hcounted, hcounts, hagree.mpr (.inl (by decide))⟩

/-- A limit of minus one lists one document and counts both. -/
theorem two_counted_of_one_listed :
    ∃ (listed counted : List Exchange) (held : List Document), ((upTo (-1)).all []).Plays listed (.ok (), held) ∧
      Engine.plain.Honest (upTo (-1)).collection both listed ∧ (upTo (-1)).count.run.Plays counted (.ok 2) ∧
      Engine.plain.Honest (upTo (-1)).collection both counted ∧ held.length = 1 := by
  obtain ⟨k, hk⟩ := (sendable_upTo (-1)).exists_listCommand
  obtain ⟨k', hk'⟩ := (sendable_upTo (-1)).exists_countCommand
  have hpasses : Engine.plain.Passes (upTo (-1)).counting both [⟨[("_id", .int32 1), ("n", .int32 2)]⟩] :=
    passes_select_both (.total (List.cons_ne_nil _ _) rfl (.int32 rfl) (.done _))
  have hbatch : (foundReply [.document [("_id", .int32 1), ("n", .int32 2)]]).batch "firstBatch" =
      .ok ⟨0, "app", "people", [⟨[("_id", .int32 1), ("n", .int32 2)]⟩]⟩ := rfl
  obtain ⟨listed, hlisted, -, hlists⟩ := exists_honest_listing [] hk (lists_first rfl rfl rfl) opens_first
    (Nat.zero_le 2) (by decide) decodeEach_first
  obtain ⟨counted, hcounted, -, hcounts⟩ := exists_honest_count hk' rfl hpasses hbatch (.row rfl (.int32 rfl))
  exact ⟨listed, counted, _, hlisted, hlists, hcounted, hcounts, rfl⟩

end Query
end DocClient
