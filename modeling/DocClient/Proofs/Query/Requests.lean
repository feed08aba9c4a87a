import DocClient.Proofs.Collection.Carrying
import DocClient.Proofs.Query.Listing
import DocClient.Proofs.Query.Modification

/-! What the listing and the count of a query ask of a server. Main statements: `listing?_of_listCommand` and
`stages?_of_countCommand`, what a server reads in their commands, and `Sendable`, for queries whose commands can be
sent. -/
namespace DocClient

/-! ### Requests, as servers read them -/

/-- A listing of all matches of a filter, within bounds. The order in which they are wanted does not matter here. -/
structure Listing where
  filter : Document
  projection : Option Document
  skip : Nat
  limit : Option Nat
  /-- Whether no batch is wanted but the first. -/
  single : Bool
  batchSize : Option Nat

/-- A stage of an aggregation. -/
inductive Stage
  | select (filter : Document)
  | skip (n : Nat)
  | limit (n : Nat)
  /-- One row with the number of all documents, or none if there are no documents. -/
  | total

/-- The size of an integer, whatever its sign. -/
def Bson.size? : Bson → Option Nat
  | .int32 n => some n.toInt.natAbs
  | .int64 n => some n.toInt.natAbs
  | _ => none

def Bson.stage? : Bson → Option Stage
  | .document [(name, b)] =>
    if name = "$match" then b.asDocument?.map .select
    else if name = "$skip" then b.size?.map .skip
    else if name = "$limit" then b.size?.map .limit
    else if name = "$group" ∧ b = .document [("_id", .int32 1), ("n", .document [("$sum", .int32 1)])] then some .total
    else none
  | _ => none

namespace Command

def size? (k : Command) (name : String) : Option Nat := (k.body.get? name).bind Bson.size?

/-- The listing that a command asks for. A limit of zero is none. -/
def listing? (k : Command) (c : Collection) : Option Listing :=
  if k.IsFor "find" c then
    (k.document? "filter").map fun filter =>
      ⟨filter, k.document? "projection", (k.size? "skip").getD 0, (k.size? "limit").filter (· ≠ 0),
        k.flag "singleBatch", k.size? "batchSize"⟩
  else none

/-- The stages of the aggregation that a command asks for. -/
def stages? (k : Command) (c : Collection) : Option (List Stage) :=
  if k.IsFor "aggregate" c then
    match k.body.get? "pipeline" with
    | some (.array stages) => stages.mapM Bson.stage?
    | _ => none
  else none

theorem isFor_of_listing? {k : Command} {c : Collection} {l : Listing} (h : k.listing? c = some l) :
    k.IsFor "find" c := by
  unfold listing? at h
  split at h
  next hfind => exact hfind
  next => cases h

theorem isFor_of_stages? {k : Command} {c : Collection} {stages : List Stage} (h : k.stages? c = some stages) :
    k.IsFor "aggregate" c := by
  unfold stages? at h
  split at h
  next haggregate => exact haggregate
  next => cases h

/-- A command asks for a listing or for an aggregation, but not for both. -/
theorem stages?_of_listing? {k : Command} {c : Collection} {l : Listing} (h : k.listing? c = some l) :
    k.stages? c = none :=
  if_neg fun haggregate => absurd (haggregate.unique (isFor_of_listing? h)).1 (by decide)

end Command

/-! ### What is sent -/

namespace Query

variable {q : Query} {k : Command}

/-- What a query asks a server to list. -/
def listing (q : Query) : Listing :=
  ⟨q.filter.written, q.projection.map Document.written, q.skipped.toNat,
    if q.limited = 0 then none else some q.limited.toInt.natAbs, q.limited < 0, q.sentBatchSize.map UInt32.toNat⟩

theorem size?_int64 {n : Nat} (h : n < 0x8000000000000000) : (Bson.int64 (Int64.ofInt n)).size? = some n := by
  have hn : (Int64.ofInt n).toInt = n := Int64.toInt_ofInt_of_le (by omega) (by omega)
  rw [Bson.size?, hn, Int.natAbs_natCast]

/-- The size of a limit is sent, also that of the least one, which is its own opposite. -/
theorem size?_limit (n : Int64) : (Bson.int64 (Int64.ofInt n.toInt.natAbs)).size? = some n.toInt.natAbs := by
  have hlower := n.le_toInt
  have hupper := n.toInt_lt
  by_cases hn : n.toInt.natAbs < 0x8000000000000000
  · exact size?_int64 hn
  · have hsize : n.toInt.natAbs = 0x8000000000000000 := by omega
    rw [hsize]
    rfl

theorem size?_skipBson {skip : Option Bson} (h : q.skipBson = .ok skip) :
    (skip.bind Bson.size?).getD 0 = q.skipped.toNat ∧ skip.map Bson.written = skip := by
  unfold skipBson countBson at h
  split at h
  next hzero =>
    cases h
    rw [hzero]
    exact ⟨rfl, rfl⟩
  next =>
    split at h
    next hbound =>
      cases h
      rw [Option.bind_some, size?_int64 hbound]
      exact ⟨rfl, rfl⟩
    next => cases h

theorem size?_batchSizes {size : Option Bson} (h : q.sentBatchSize.mapM batchSizeBson = .ok size) :
    size.bind Bson.size? = q.sentBatchSize.map UInt32.toNat ∧ size.map Bson.written = size := by
  cases hsent : q.sentBatchSize with
  | none =>
    rw [hsent] at h
    cases h
    exact ⟨rfl, rfl⟩
  | some n =>
    rw [hsent] at h
    obtain ⟨b, hb, hsize⟩ := map_eq_ok_iff.mp h
    obtain rfl := hsize
    unfold batchSizeBson at hb
    split at hb
    next hbound =>
      cases hb
      have hn : (Int32.ofInt n.toNat).toInt = n.toNat := Int32.toInt_ofInt_of_le (by omega) (by omega)
      rw [Option.bind_some, Bson.size?, hn, Int.natAbs_natCast]
      exact ⟨rfl, rfl⟩
    next => cases hb

/-- The body of a listing, option by option. -/
theorem eq_of_allBody {body : Document} (h : q.allBody = .ok body) : ∃ skip size,
    q.skipBson = .ok skip ∧ q.sentBatchSize.mapM batchSizeBson = .ok size ∧
      body = ((((((q.collection.body "find" [("filter", .ofDocument q.filter)]).putSome "projection"
        (q.projection.map .ofDocument)).putSome "sort" (q.order.map .ofDocument)).putSome "skip" skip).putSome "limit"
          (if q.limited = 0 then none else some (.int64 (Int64.ofInt q.limited.toInt.natAbs)))).putSome "batchSize"
            size).putSome "singleBatch" (if q.limited < 0 then some (.boolean true) else none) := by
  unfold allBody at h
  obtain ⟨search, hsearch, hrest⟩ := bind_eq_ok_iff.mp h
  obtain ⟨skip, hskip, rfl⟩ := eq_of_searchBody hsearch
  obtain ⟨size, hsize, hlast⟩ := bind_eq_ok_iff.mp hrest
  exact ⟨skip, size, hskip, hsize, (Except.ok.inj hlast).symm⟩

/-- The body of a listing, read back. -/
structure ListBody (q : Query) (body : Document) (skip size : Option Bson) : Prop where
  head : body.fields.head? = some ("find", .string q.collection.name)
  filter : body.get? "filter" = some (.ofDocument q.filter)
  projection : body.get? "projection" = q.projection.map .ofDocument
  skip : body.get? "skip" = skip
  limit : body.get? "limit" =
    if q.limited = 0 then none else some (.int64 (Int64.ofInt q.limited.toInt.natAbs))
  batchSize : body.get? "batchSize" = size
  singleBatch : body.get? "singleBatch" = if q.limited < 0 then some (.boolean true) else none

theorem listBody_of_allBody {body : Document} (h : q.allBody = .ok body) : ∃ skip size,
    q.skipBson = .ok skip ∧ q.sentBatchSize.mapM batchSizeBson = .ok size ∧ q.ListBody body skip size := by
  obtain ⟨skip, size, hskip, hsize, rfl⟩ := eq_of_allBody h
  have hstart : q.collection.body "find" [("filter", .ofDocument q.filter)] =
      ⟨[("find", .string q.collection.name), ("filter", .ofDocument q.filter)]⟩ := by
    rw [Collection.body_find]
    rfl
  have hfirst : ∀ name, Document.get? ⟨[("find", .string q.collection.name), ("filter", .ofDocument q.filter)]⟩ name =
      if "find" = name then some (.string q.collection.name)
      else if "filter" = name then some (.ofDocument q.filter) else none := fun _ => rfl
  rw [hstart]
  refine ⟨skip, size, hskip, hsize, ?_, ?_, ?_, ?_, ?_, ?_, ?_⟩
  · iterate 6 refine Document.head?_putSome ?_ (by decide)
    rfl
  all_goals simp [Document.get?_putSome, hfirst]

theorem listing?_of_listCommand (hk : q.listCommand = .ok k) : k.listing? q.collection = some q.listing := by
  unfold listCommand at hk
  obtain ⟨-, -, hrest⟩ := bind_eq_ok_iff.mp hk
  obtain ⟨body, hbody, hsent⟩ := bind_eq_ok_iff.mp hrest
  obtain ⟨skip, size, hskip, hsize, hread⟩ := listBody_of_allBody hbody
  obtain ⟨hskip, hskipped⟩ := size?_skipBson hskip
  obtain ⟨hsize, hsized⟩ := size?_batchSizes hsize
  have hfor := Collection.isFor_of_sent hread.head hsent
  obtain rfl := Database.eq_of_sent hsent
  have hget : ∀ name, (Command.written ⟨q.collection.database.name, body,
      q.collection.database.readPreference⟩).body.get? name = (body.get? name).map Bson.written :=
    Document.get?_written body
  have hprojection : ((q.projection.map Bson.ofDocument).map Bson.written).bind Bson.asDocument? =
      q.projection.map Document.written := by
    cases q.projection <;> simp
  have hlimit : (((if q.limited = 0 then none else some (Bson.int64 (Int64.ofInt q.limited.toInt.natAbs))).map
      Bson.written).bind Bson.size?).filter (· ≠ 0) =
        if q.limited = 0 then none else some q.limited.toInt.natAbs := by
    split
    next => rfl
    next hzero =>
      have hne : q.limited.toInt.natAbs ≠ 0 := fun h => hzero (Int64.toInt_inj.mp (Int.natAbs_eq_zero.mp h))
      rw [Option.map_some, Option.bind_some]
      exact (congrArg (Option.filter _) (size?_limit q.limited)).trans (if_pos (decide_eq_true hne))
  have hsingle : decide ((if q.limited < 0 then some (Bson.boolean true) else none).map Bson.written =
      some (.boolean true)) = decide (q.limited < 0) := by
    split
    next hneg => simp [hneg, Bson.written]
    next hneg => simp [hneg]
  unfold Command.listing? Command.size? Command.document? Command.flag
  rw [if_pos hfor, hget, hget, hget, hget, hget, hget, hread.filter, hread.projection, hread.skip, hread.limit,
    hread.batchSize, hread.singleBatch, hskipped, hsized, hskip, hsize, hprojection, hlimit, hsingle]
  simp [listing]

/-! ### Counting -/

/-- The stages of a count, as they are sent. -/
def countStages (q : Query) : List Bson :=
  [.document [("$match", .ofDocument q.filter)]] ++
    (if q.skipped = 0 then [] else [.document [("$skip", .int64 (Int64.ofInt q.skipped.toNat))]]) ++
    (if 0 < q.limited then [.document [("$limit", .int64 q.limited)]] else []) ++
    [.document [("$group", .document [("_id", .int32 1), ("n", .document [("$sum", .int32 1)])])]]

def countFields (q : Query) : Fields Bson := [("pipeline", .array q.countStages), ("cursor", .document [])]

theorem nodup_countFields (q : Query) : ("writeConcern" :: "aggregate" :: Fields.names q.countFields).Nodup := by
  change ["writeConcern", "aggregate", "pipeline", "cursor"].Nodup
  decide

/-- The command that counts, unless it is refused. -/
def countCommand (q : Query) : Except Error Command := do
  q.check
  if q.skipped.toNat < 0x8000000000000000 then
    q.collection.database.withConcern (q.collection.body "aggregate" q.countFields) >>=
      q.collection.database.sent q.collection.database.readPreference
  else .error (.transport .invalidArgument)

/-- The stages of a count, as a server reads them. -/
def counting (q : Query) : List Stage :=
  .select q.filter.written :: ((if q.skipped = 0 then [] else [.skip q.skipped.toNat]) ++
    (if 0 < q.limited then [.limit q.limited.toInt.natAbs] else []) ++ [.total])

theorem countMatches_eq_ask (q : Query) :
    q.collection.countMatches q.filter
        (if q.skipped = 0 then none else some (Int64.ofInt q.skipped.toNat))
        (if 0 < q.limited then some q.limited else none) =
      Call.ask (q.collection.database.withConcern (q.collection.body "aggregate" q.countFields) >>=
        q.collection.database.sent q.collection.database.readPreference) .short
          fun reply => reply.success >>= readReply readCount := by
  unfold Collection.countMatches countFields countStages
  simp only [Database.concernedCommand_eq_ask, Call.ask_bind_settled]
  split <;> split <;> rfl

theorem count_eq_ask (q : Query) :
    q.count = Call.ask q.countCommand .short fun reply => reply.success >>= readReply readCount := by
  unfold count countCommand
  cases q.check with
  | error e => rfl
  | ok =>
    rw [Call.settled_ok_bind]
    split
    next => exact q.countMatches_eq_ask
    next => rfl

theorem writeCommand_of_concerned {c : Collection} {name : String} {fields : Fields Bson}
    {readPreference : ReadPreference}
    (hk : (c.database.withConcern (c.body name fields) >>= c.database.sent readPreference) = .ok k) :
    c.writeCommand name fields = .ok { k with readPreference := .primary } := by
  obtain ⟨body, hbody, hsent⟩ := bind_eq_ok_iff.mp hk
  refine bind_eq_ok_iff.mpr ⟨body, hbody, ?_⟩
  rw [Database.sent_eq_map c.database readPreference, hsent]
  rfl

theorem stages?_countStages (hskip : q.skipped.toNat < 0x8000000000000000) :
    (q.countStages.map Bson.written).mapM Bson.stage? = some q.counting := by
  have hselect : Bson.stage? (.document [("$match", .ofDocument q.filter.written)]) =
      some (.select q.filter.written) := rfl
  have hskipped : Bson.stage? (.document [("$skip", .int64 (Int64.ofInt q.skipped.toNat))]) =
      some (.skip q.skipped.toNat) := congrArg (Option.map Stage.skip) (size?_int64 hskip)
  have hlimited : Bson.stage? (.document [("$limit", .int64 q.limited)]) = some (.limit q.limited.toInt.natAbs) := rfl
  have htotal : Bson.stage? (.document
      [("$group", .document [("_id", .int32 1), ("n", .document [("$sum", .int32 1)])])]) = some .total := rfl
  unfold countStages counting
  split <;> split <;> simp [hselect, hskipped, hlimited, htotal, Bson.written, Bson.writtenFields]

theorem stages?_of_countCommand (hk : q.countCommand = .ok k) : k.stages? q.collection = some q.counting := by
  unfold countCommand at hk
  obtain ⟨-, -, hrest⟩ := bind_eq_ok_iff.mp hk
  split at hrest
  next hskip =>
    have hwrite := writeCommand_of_concerned hrest
    obtain ⟨hdatabase, hname⟩ := Collection.isFor_of_writeCommand q.nodup_countFields hwrite
    have hpipeline : k.body.get? "pipeline" = some (.array (q.countStages.map Bson.written)) := by
      rw [← Bson.writtenItems_eq_map]
      exact Collection.get?_of_writeCommand q.nodup_countFields hwrite (b := .array q.countStages) rfl
    unfold Command.stages?
    rw [if_pos ⟨hdatabase, hname⟩, hpipeline]
    exact q.stages?_countStages hskip
  next => cases hrest

end Query

/-! ### What can be sent -/

/-- A query whose commands can be sent. -/
structure Query.Sendable (q : Query) : Prop where
  err : q.err = none
  skip : q.skipped.toNat < 0x8000000000000000
  batchSize : ∀ n ∈ q.sentBatchSize, n.toNat < 0x80000000
  filter : q.filter.isWritable = true
  order : ∀ order ∈ q.order, order.isWritable = true
  projection : ∀ projection ∈ q.projection, projection.isWritable = true
  concern : ∃ extra, q.collection.database.concernFields = .ok extra

namespace Query

variable {q : Query}

theorem check_of_err (h : q.err = none) : q.check = .ok () := by
  unfold Query.check
  rw [h]

theorem Sendable.exists_allBody (h : q.Sendable) : ∃ body, q.allBody = .ok body := by
  have hskip : ∃ skip, q.skipBson = .ok skip := by
    unfold skipBson countBson
    split
    next => exact ⟨_, rfl⟩
    next => exact ⟨_, congrArg (Except.map some) (if_pos h.skip)⟩
  have hoptions : q.checkOptions = .ok () := checkOptions_of_isWritable h.order h.projection
  have hsize : ∃ size, q.sentBatchSize.mapM batchSizeBson = .ok size := by
    cases hsent : q.sentBatchSize with
    | none => exact ⟨none, rfl⟩
    | some n => exact ⟨_, congrArg (Except.map some) (if_pos (h.batchSize n hsent))⟩
  obtain ⟨skip, hskip⟩ := hskip
  obtain ⟨size, hsize⟩ := hsize
  unfold allBody searchBody
  rw [hskip, hoptions, hsize]
  exact ⟨_, rfl⟩

private theorem isWritable_skipBson {skip : Option Bson} (hskip : q.skipBson = .ok skip) :
    ∀ v ∈ skip, v.isWritable = true := by
  unfold skipBson countBson at hskip
  split at hskip
  · cases hskip
    nofun
  · split at hskip
    · cases hskip
      rintro _ ⟨⟩
      rfl
    · cases hskip

private theorem isWritable_batchSizes {size : Option Bson} (hsize : q.sentBatchSize.mapM batchSizeBson = .ok size) :
    ∀ v ∈ size, v.isWritable = true := by
  cases hsent : q.sentBatchSize with
  | none =>
    rw [hsent] at hsize
    cases hsize
    nofun
  | some n =>
    rw [hsent] at hsize
    obtain ⟨b, hb, rfl⟩ := map_eq_ok_iff.mp hsize
    unfold batchSizeBson at hb
    split at hb
    · cases hb
      rintro _ ⟨⟩
      rfl
    · cases hb

theorem isWritable_body_find (h : q.filter.isWritable = true) :
    (q.collection.body "find" [("filter", .ofDocument q.filter)]).isWritable = true := by
  have hterm : Bson.isTerminable "find" = true ∧ Bson.isTerminable "filter" = true := by decide
  have hfilter : Bson.fieldsWritable q.filter.fields = true := h
  rw [Collection.body_find]
  simp [Document.isWritable, Collection.searchFields, Bson.fieldsWritable, Bson.isWritable, hterm, hfilter]

theorem Sendable.isWritable_searchBody (h : q.Sendable) {body : Document} (hbody : q.searchBody = .ok body) :
    body.isWritable = true := by
  obtain ⟨skip, hskip, rfl⟩ := eq_of_searchBody hbody
  have hdocument : ∀ docs : Option Document, (∀ doc ∈ docs, doc.isWritable = true) →
      ∀ v ∈ docs.map Bson.ofDocument, v.isWritable = true := by
    intro docs hdocs v hv
    obtain ⟨doc, hdoc, rfl⟩ := Option.map_eq_some_iff.mp hv
    exact (Bson.isWritable_ofDocument doc).trans (hdocs doc hdoc)
  refine Document.isWritable_putSome ?_ (by decide) (isWritable_skipBson hskip)
  refine Document.isWritable_putSome ?_ (by decide) (hdocument _ h.order)
  exact Document.isWritable_putSome (isWritable_body_find h.filter) (by decide) (hdocument _ h.projection)

theorem Sendable.isWritable_allBody (h : q.Sendable) {body : Document} (hbody : q.allBody = .ok body) :
    body.isWritable = true := by
  unfold allBody at hbody
  obtain ⟨search, hsearch, hrest⟩ := bind_eq_ok_iff.mp hbody
  obtain ⟨size, hsize, hlast⟩ := bind_eq_ok_iff.mp hrest
  have hlimited : ∀ v ∈ (if q.limited = 0 then none else some (Bson.int64 (Int64.ofInt q.limited.toInt.natAbs))),
      v.isWritable = true := by
    intro v hv
    split at hv
    · cases hv
    · cases hv
      rfl
  have hsingle : ∀ v ∈ (if q.limited < 0 then some (Bson.boolean true) else none), v.isWritable = true := by
    intro v hv
    split at hv
    · cases hv
      rfl
    · cases hv
  rw [← Except.ok.inj hlast]
  refine Document.isWritable_putSome ?_ (by decide) hsingle
  refine Document.isWritable_putSome ?_ (by decide) (isWritable_batchSizes hsize)
  exact Document.isWritable_putSome (h.isWritable_searchBody hsearch) (by decide) hlimited

theorem Sendable.exists_listCommand (h : q.Sendable) : ∃ k, q.listCommand = .ok k := by
  obtain ⟨body, hbody⟩ := h.exists_allBody
  have hne : body.fields ≠ [] := by
    obtain ⟨skip, size, -, -, hread⟩ := listBody_of_allBody hbody
    intro hnil
    cases hnil ▸ hread.head
  have hw : body.isWritable = true := h.isWritable_allBody hbody
  unfold listCommand
  rw [check_of_err h.err, hbody]
  exact ⟨_, Database.sent_eq_ok _ _ hne hw⟩

theorem Sendable.exists_countCommand (h : q.Sendable) : ∃ k, q.countCommand = .ok k := by
  obtain ⟨extra, hextra⟩ := h.concern
  have hfields : Bson.fieldsWritable q.countFields = true := by
    have hterm : ∀ name ∈ ["pipeline", "cursor", "$match", "$skip", "$limit", "$group", "_id", "n", "$sum"],
        Bson.isTerminable name = true := by decide
    simp only [List.forall_mem_cons] at hterm
    have hfilter : Bson.fieldsWritable q.filter.fields = true := h.filter
    unfold countFields countStages
    split <;> split <;> simp [Bson.fieldsWritable, Bson.isWritable, Bson.areWritable, hterm, hfilter, Bson.ofDocument]
  obtain ⟨k, hk⟩ := Collection.exists_writeCommand q.nodup_countFields hextra (by decide) hfields
  obtain ⟨body, hbody, hsent⟩ := bind_eq_ok_iff.mp hk
  unfold countCommand
  rw [check_of_err h.err]
  refine ⟨{ k with readPreference := q.collection.database.readPreference }, (if_pos h.skip).trans ?_⟩
  refine bind_eq_ok_iff.mpr ⟨body, hbody, ?_⟩
  rw [Database.sent_eq_map q.collection.database .primary, hsent]
  rfl

end Query
end DocClient
