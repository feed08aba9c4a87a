import DocClient.Proofs.Arguments
import DocClient.Proofs.Collection.Upkeep
import DocClient.Proofs.Targeting

/-! Operations by an identifier. The filter of the identifier is sent by queries as it is, while removals and updates
read it as an argument of their own and send what they make of it. Main statement: `addressed_alike_iff`, by which
they pick the same document exactly if the identifier is retained. -/
namespace DocClient

/-! ### Values that are read and sent again -/

namespace Bson

/-- Whether a value has no bytes of the retired subtype and no date beyond the calendar. The scope of code is not
looked into. -/
def isRetained (b : Bson) : Bool := b.everyNode false isRetainedNode

mutual

/-- Nothing else is lost of a value that is read and sent again. -/
theorem written_kept_iff (b : Bson) : b.kept.written = b.written ↔ b.isRetained = true := by
  cases b with
  | dateTime ms =>
    simp only [kept, written, isRetained, everyNode, isRetainedNode, Bson.dateTime.injEq, decide_eq_true_eq]
  | binary subtype bytes =>
    have hgeneric : genericSubtype ≠ oldSubtype := by decide
    simp only [kept, written, isRetained, everyNode, isRetainedNode, Bson.binary.injEq, and_true, decide_eq_true_eq]
    by_cases hold : subtype = oldSubtype
    · simp [hold, hgeneric]
    · simp [hold]
  | array items =>
    simp only [kept, written, isRetained, everyNode, isRetainedNode, Bool.true_and, Bson.array.injEq,
      writtenItems_keptItems_iff items]
  | document fields =>
    simp only [kept, written, isRetained, everyNode, isRetainedNode, Bool.true_and, Bson.document.injEq,
      writtenFields_keptFields_iff fields]
  | _ => exact iff_of_true rfl rfl

theorem writtenItems_keptItems_iff (items : List Bson) :
    writtenItems (keptItems items) = writtenItems items ↔ everyItem false isRetainedNode items = true := by
  match items with
  | [] => exact iff_of_true rfl rfl
  | b :: rest =>
    rw [keptItems, writtenItems, writtenItems, everyItem, Bool.and_eq_true, List.cons.injEq, written_kept_iff b,
      isRetained, writtenItems_keptItems_iff rest]

theorem writtenFields_keptFields_iff (fields : List (String × Bson)) :
    writtenFields (keptFields fields) = writtenFields fields ↔ everyField false isRetainedNode fields = true := by
  match fields with
  | [] => exact iff_of_true rfl rfl
  | (k, b) :: rest =>
    rw [keptFields, writtenFields, writtenFields, everyField, Bool.and_eq_true, List.cons.injEq, Prod.mk.injEq,
      written_kept_iff b, isRetained, writtenFields_keptFields_iff rest]
    simp only [true_and]

end

end Bson

namespace Value

mutual

/-- A value is sent as a well-formed one, whatever the order of unordered documents is. -/
theorem isWellFormed_outboundBy {v : Value} (h : v.isWellFormed = true) (it : Iteration) :
    (v.outboundBy it).isWellFormed = true := by
  cases v with
  | objectId id =>
    change (Value.objectId id).outbound.isWellFormed = true
    rw [outbound]
    split <;> rfl
  | array items =>
    rw [isWellFormed] at h
    exact areWellFormed_outboundItemsBy h it
  | unordered fields =>
    rw [isWellFormed, Bool.and_eq_true] at h
    have hperm := it.perm (outboundFieldsBy it fields)
    have hnames : (Fields.names (outboundFieldsBy it fields)).Nodup := by
      rw [names_outboundFieldsBy]
      exact Fields.nodup_of_pairwise (Fields.ascending_iff.mp h.1)
    have hvalues := Bson.fieldsWellFormed_iff.mp (fieldsWellFormed_outboundFieldsBy h.2 it)
    rw [outboundBy, Bson.isWellFormed, Bool.and_eq_true, Bson.fieldsWellFormed_iff]
    exact ⟨Fields.distinct_iff.mpr ((hperm.map Prod.fst).symm.nodup hnames), fun p hp => hvalues p (hperm.subset hp)⟩
  | ordered pairs =>
    rw [isWellFormed] at h
    have hvalues := Bson.fieldsWellFormed_iff.mp (fieldsWellFormed_outboundFieldsBy h it)
    rw [outboundBy, Bson.isWellFormed, Bool.and_eq_true, Bson.fieldsWellFormed_iff]
    exact ⟨Fields.distinct_iff.mpr (Fields.nodup_collect _), fun p hp => hvalues p (Fields.mem_of_mem_collect _ hp)⟩
  | other b => exact h
  | _ => rfl

theorem areWellFormed_outboundItemsBy {items : List Value} (h : areWellFormed items = true) (it : Iteration) :
    Bson.areWellFormed (outboundItemsBy it items) = true := by
  match items with
  | [] => rfl
  | v :: rest =>
    rw [areWellFormed, Bool.and_eq_true] at h
    rw [outboundItemsBy, Bson.areWellFormed, isWellFormed_outboundBy h.1 it, areWellFormed_outboundItemsBy h.2 it]
    rfl

theorem fieldsWellFormed_outboundFieldsBy {fields : List (String × Value)} (h : fieldsWellFormed fields = true)
    (it : Iteration) : Bson.fieldsWellFormed (outboundFieldsBy it fields) = true := by
  match fields with
  | [] => rfl
  | (k, v) :: rest =>
    rw [fieldsWellFormed, Bool.and_eq_true] at h
    rw [outboundFieldsBy, Bson.fieldsWellFormed, isWellFormed_outboundBy h.1 it,
      fieldsWellFormed_outboundFieldsBy h.2 it]
    rfl

end

end Value

/-! ### Filters of identifiers -/

/-- The filter that picks the document of an identifier. -/
def byId (id : Bson) : Document := ⟨[("_id", id)]⟩

theorem written_byId_eq_iff {a b : Bson} : (byId a).written = (byId b).written ↔ a.written = b.written := by
  simp [byId, Document.written, Bson.writtenFields]

theorem idFilterBy_of_lift {α : Type} [Argument α] {id : α} {v : Value} (h : lift id = .ok v) (it : Iteration) :
    idFilterBy it id = .ok (byId (v.outboundBy it)) := by
  unfold idFilterBy
  rw [h]
  rfl

/-- The filter of an identifier is an ordered document, which every order of unordered ones leaves as it is. -/
theorem liftDocumentBy_byId {b : Bson} (h : b.isWellFormed = true) (it : Iteration) :
    liftDocumentBy it (byId b) = .ok (byId b.kept) := by
  have hdoc : (byId b).isWellFormed = true := by
    change (true && (b.isWellFormed && true)) = true
    rw [h]
    rfl
  exact Document.toDocumentBy_ofDocumentOrdered hdoc it

/-! ### One command -/

/-- Whatever comes back, a program sends only commands with one filter, and one of them if it succeeds. -/
structure Program.Picks (p : Program (Except Error Unit)) (filter : Document) : Prop where
  only : p.SendsOnly (Command.Picks filter)
  once : ∀ log, p.Plays log (.ok ()) → log.length = 1

section Once

variable {α β : Type} {log : List Exchange} {filter : Document}

theorem Call.exists_plays_of_report {c : Call α} (h : c.report.Plays log (.ok ())) :
    ∃ a, c.run.Plays log (.ok a) := by
  obtain ⟨outcome, first, rest, rfl, hrun, hdone⟩ := Program.plays_bind.mp h
  obtain ⟨rfl, houtcome⟩ := Program.plays_done.mp hdone
  cases outcome with
  | error e => cases houtcome
  | ok a => exact ⟨a, by rwa [List.append_nil]⟩

theorem Collection.length_of_plays_deleteMatches {c : Collection} {multi : Bool} {n : Nat}
    (h : (c.deleteMatches filter multi).run.Plays log (.ok n)) : log.length = 1 := by
  rw [deleteMatches_eq_ask] at h
  exact Call.length_of_plays_ask h

theorem Collection.length_of_plays_updateMatches {c : Collection} {update : Document} {multi upsert : Bool}
    {result : UpdateResult} (h : (c.updateMatches filter update multi upsert).run.Plays log (.ok result)) :
    log.length = 1 := by
  obtain ⟨_, -, hwrite⟩ := Call.plays_settled_bind_ok.mp h
  have hunsent : ∀ r : UpdateResult × WriteTrouble, ∃ outcome,
      (Call.settled r.2.single >>= fun _ => (pure r.1 : Call UpdateResult)).run = .done outcome := by
    intro r
    cases r.2.single with
    | ok _ => exact ⟨_, rfl⟩
    | error e => exact ⟨_, rfl⟩
  obtain ⟨_, hask⟩ := Call.exists_plays_of_unsent hunsent hwrite
  rw [write_eq_ask] at hask
  exact Call.length_of_plays_ask hask

variable [Argument α] [Argument β] (c : Collection) {selector : α} (h : liftDocument selector = .ok filter)

include h

theorem Collection.picks_remove : (c.remove selector).report.Picks filter := by
  refine ⟨Call.sendsOnly_report (c.sendsOnly_delete h false fun _ => ()), fun log hplays => ?_⟩
  obtain ⟨_, hrun⟩ := Call.exists_plays_of_report hplays
  obtain ⟨_, -, hdelete⟩ := Call.plays_settled_bind_ok.mp hrun
  obtain ⟨_, hdeleted⟩ := Call.exists_plays_of_unsent (fun _ => ⟨_, rfl⟩) hdelete
  exact length_of_plays_deleteMatches hdeleted

theorem Collection.picks_update (changes : β) : (c.update selector changes).report.Picks filter := by
  refine ⟨Call.sendsOnly_report (c.sendsOnly_update h changes false false fun _ => ()), fun log hplays => ?_⟩
  obtain ⟨_, hrun⟩ := Call.exists_plays_of_report hplays
  obtain ⟨_, -, hlifted⟩ := Call.plays_settled_bind_ok.mp hrun
  obtain ⟨_, -, hupdate⟩ := Call.plays_settled_bind_ok.mp hlifted
  obtain ⟨_, hupdated⟩ := Call.exists_plays_of_unsent (fun _ => ⟨_, rfl⟩) hupdate
  exact length_of_plays_updateMatches hupdated

end Once

/-! ### Operations by an identifier -/

section Operations

variable {id : Given} {v : Value} (hlift : lift id.value = .ok v) (hv : v.isWellFormed = true) (c : Collection)

section Sent

include hlift

theorem idFilter_of_lift : idFilter id.value = .ok (byId v.outbound) := by
  rw [← idFilterBy_ascending, idFilterBy_of_lift hlift, Value.outboundBy_ascending]

/-- A query picks what the identifier is sent as. -/
theorem sendsOnly_query_of_lift (refinements : List Refinement) (ending : Ending) :
    ((Operation.query (.identifier id) refinements ending).perform c).SendsOnly
      (Command.Selects [byId v.outbound]) := by
  have hfilter : (refinements.foldl Refinement.refine (Target.find c (.identifier id))).filter = byId v.outbound := by
    rw [(foldl_refine_frame refinements _).2, Target.find, Collection.findId, idFilter_of_lift hlift]
    rfl
  rw [← hfilter]
  exact ending.sendsOnly_perform _

end Sent

include hv

theorem liftDocument_byId : liftDocument (byId v.outbound) = .ok (byId v.outbound.kept) := by
  have hsent := Value.isWellFormed_outboundBy hv .ascending
  rw [Value.outboundBy_ascending] at hsent
  rw [← liftDocumentBy_ascending, liftDocumentBy_byId hsent]

include hlift

/-- A removal picks what is kept of it. -/
theorem picks_removeId_of_lift : ((Operation.removeId id).perform c).Picks (byId v.outbound.kept) := by
  rw [Operation.perform, c.removeId_of_idFilter (idFilter_of_lift hlift)]
  exact c.picks_remove (liftDocument_byId hv)

theorem picks_updateId_of_lift (changes : Given) :
    ((Operation.updateId id changes).perform c).Picks (byId v.outbound.kept) := by
  rw [Operation.perform, c.updateId_of_idFilter (idFilter_of_lift hlift)]
  exact c.picks_update (liftDocument_byId hv) changes.value

/-- Whatever a query by an identifier is refined to and however it ends, it sends the identifier as it was lifted, and
removals and updates send what is kept of it. This is the same exactly if it is retained, whatever the order of
unordered documents is when the filter is made and when it is read. -/
theorem addressed_alike_iff :
    (∀ refinements ending, ((Operation.query (.identifier id) refinements ending).perform c).SendsOnly
        (Command.Selects [byId v.outbound])) ∧
      ((Operation.removeId id).perform c).Picks (byId v.outbound.kept) ∧
      (∀ changes, ((Operation.updateId id changes).perform c).Picks (byId v.outbound.kept)) ∧
      ((byId v.outbound.kept).written = (byId v.outbound).written ↔ v.outbound.isRetained = true) ∧
      ∀ it again, (idFilterBy it id.value >>= liftDocumentBy again).map Document.written =
        (idFilterBy it id.value).map Document.written ↔ (v.outboundBy it).isRetained = true := by
  refine ⟨sendsOnly_query_of_lift hlift c, picks_removeId_of_lift hlift hv c, picks_updateId_of_lift hlift hv c, ?same,
    ?orders⟩
  case same => rw [written_byId_eq_iff, Bson.written_kept_iff]
  case orders =>
    intro it again
    have hkept := liftDocumentBy_byId (Value.isWellFormed_outboundBy hv it) again
    have hagain : (idFilterBy it id.value >>= liftDocumentBy again) = .ok (byId (v.outboundBy it).kept) := by
      rw [idFilterBy_of_lift hlift it]
      exact hkept
    rw [hagain, idFilterBy_of_lift hlift it]
    change Except.ok _ = Except.ok _ ↔ _
    rw [Except.ok.injEq, written_byId_eq_iff, Bson.written_kept_iff]

end Operations

def Collection.people : Collection := ⟨⟨"app", .primary, none, 1⟩, "people"⟩

/-- A date and bytes of a subtype in use, in an ordered document. -/
theorem addressed_alike_ordered :
    let v : Value := .ordered [("z", .time ⟨1700000000, 0⟩), ("a", .other (.binary 4 [7]))]
    let id : Given := ⟨Value, v⟩
    let sent : Bson := .document [("z", .dateTime 1700000000000), ("a", .binary 4 [7])]
    let c : Collection := .people
    lift id.value = .ok v ∧ v.isWellFormed = true ∧
      ((Operation.query (.identifier id) [.limit 1] .count).perform c).SendsOnly (Command.Selects [byId sent]) ∧
      ((Operation.removeId id).perform c).Picks (byId sent) ∧
      ((Operation.updateId id ⟨Value, .unordered [("n", .int32 1)]⟩).perform c).Picks (byId sent) := by
  intro v id sent c
  have hlift : lift id.value = .ok v := rfl
  have hv : v.isWellFormed = true := by decide
  have hsent : v.outbound = sent := by decide
  have hkept : v.outbound.kept = sent := by decide
  obtain ⟨hquery, hremove, hupdate, -⟩ := addressed_alike_iff hlift hv c
  rw [hkept] at hremove hupdate
  rw [hsent] at hquery
  clear_value c
  exact ⟨hlift, hv, hquery [.limit 1] .count, hremove, hupdate ⟨Value, .unordered [("n", .int32 1)]⟩⟩

/-- The filters of the commands that a program sends while some replies come back. -/
def Program.filtersSent {α : Type} (p : Program α) (replies : List Reply) : Option (List (List (Option Document))) :=
  (Program.run (recorded prepared) p (replies, [])).map fun ended => ended.2.2.map fun x => x.command.filters

def Given.retired : Given := ⟨Value, .other (.binary 2 [1, 2])⟩

/-- Bytes of the retired subtype are counted under it, and removed and updated under the generic one. -/
theorem addressed_otherwise :
    ((Operation.query (.identifier .retired) [] .count).perform .people).filtersSent [.dropped] =
        some [[some (byId (.binary 2 [1, 2]))]] ∧
      ((Operation.removeId .retired).perform .people).filtersSent [.dropped] = some [[some (byId (.binary 0 [1, 2]))]] ∧
      ((Operation.updateId .retired ⟨Value, .unordered [("n", .int32 1)]⟩).perform .people).filtersSent [.dropped] =
        some [[some (byId (.binary 0 [1, 2]))]] := by
  refine ⟨?_, ?_, ?_⟩
  · decide +kernel
  · decide +kernel
  · decide +kernel

end DocClient
