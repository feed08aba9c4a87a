import DocClient.Proofs.Ascending
import DocClient.Proofs.Collection.Carrying
import DocClient.Proofs.Conversion
import DocClient.Proofs.Operation
import DocClient.Proofs.Query.Asking

/-! Queries that are refined in several steps. Main statement: `Ending.settled_by_last`, by which what a query does
is settled by the last setting of each kind that its ending heeds, or by the first argument that is refused. If
nothing keeps it from being sent, it is. -/
namespace DocClient

/-! ### The order of sort fields -/

/-- The name of a sort field without its sign. -/
def sortName (field : String) : String :=
  match field.toList with
  | '-' :: name | '+' :: name => String.ofList name
  | name => String.ofList name

def sortDirection (field : String) : Bson := if field.toList.head? = some '-' then descending else ascending

/-- Sort fields with their directions, as they were given. -/
def sortPairs (fields : List String) : Fields Bson := fields.map fun field => (sortName field, sortDirection field)

/-- A field that is not refused is read as its name and its direction. -/
theorem parseSortField_eq_ok {field : String} (h : (Arg.sortField field).refusal = none) :
    parseSortField field = .ok (sortName field, sortDirection field) := by
  rw [← errorOf_parseSortField] at h
  obtain ⟨p, hp⟩ := errorOf_eq_none_iff.mp h
  rw [hp]
  unfold parseSortField at hp
  unfold sortName sortDirection
  generalize field.toList = chars at hp ⊢
  rcases chars with _ | ⟨c, rest⟩
  · cases hp
  by_cases hminus : c = '-'
  · subst hminus
    cases rest with
    | nil => cases hp
    | cons c' rest => exact hp.symm
  by_cases hplus : c = '+'
  · subst hplus
    cases rest with
    | nil => cases hp
    | cons c' rest => exact hp.symm
  simpa [hminus, hplus] using hp.symm

/-- Sort fields of which none is refused are put one by one. -/
theorem sortOrder_eq {fields : List String} (h : ∀ field ∈ fields, (Arg.sortField field).refusal = none)
    (order : Document) (err : Option Error) : Query.sortOrder fields (order, err) =
      (⟨(sortPairs fields).foldl (fun fields (k, v) => fields.put k v) order.fields⟩, err) := by
  induction fields generalizing order with
  | nil => rfl
  | cons field rest ih =>
    obtain ⟨hfield, hrest⟩ := List.forall_mem_cons.mp h
    rw [Query.sortOrder, parseSortField_eq_ok hfield]
    exact ih hrest _

/-- The order that sort fields give: each name at its first place with its last direction. -/
def sortDocument (fields : List String) : Document := .ofPairs (sortPairs fields)

theorem names_sortDocument (fields : List String) :
    (sortDocument fields).names = (fields.map sortName).eraseDups := by
  have hpairs : Fields.names (sortPairs fields) = fields.map sortName := List.map_map
  rw [← hpairs]
  exact Fields.names_collect _

theorem get?_sortDocument (fields : List String) (name : String) :
    (sortDocument fields).get? name = Fields.last? (sortPairs fields) name := Fields.get?_collect _ _

/-- An order is read back as it was written. -/
theorem written_sortDocument (fields : List String) : (sortDocument fields).written = sortDocument fields := by
  have hdirection : ∀ field, (sortDirection field).written = sortDirection field := by
    intro field
    unfold sortDirection
    split <;> rfl
  have hpairs : Fields.mapValues Bson.written (sortPairs fields) = sortPairs fields := by
    unfold sortPairs Fields.mapValues
    rw [List.map_map]
    exact List.map_congr_left fun field _ => congrArg (Prod.mk _) (hdirection field)
  have hwritten : Fields.mapValues Bson.written (Fields.collect (sortPairs fields)) =
      Fields.collect (sortPairs fields) := by
    rw [← Fields.collect_mapValues, hpairs]
  exact congrArg Document.mk ((Bson.writtenFields_eq_mapValues _).trans hwritten)

/-! ### Settings of a kind -/

/-- The kinds of settings, each of which takes the place of an earlier one. -/
inductive Refinement.Kind
  | sort
  | select
  | skip
  | limit
  | batch
  deriving DecidableEq

namespace Refinement

def kind : Refinement → Kind
  | .sort _ => .sort
  | .select _ => .select
  | .skip _ => .skip
  | .limit _ => .limit
  | .batch _ => .batch

/-- The last setting of a kind. -/
def last? (kind : Kind) (chain : List Refinement) : Option Refinement :=
  (chain.filter fun r => r.kind = kind).getLast?

theorem findSome?_refusal_eq_none_iff {chain : List Refinement} :
    (chain.flatMap arguments).findSome? Arg.refusal = none ↔
      ∀ r ∈ chain, r.arguments.findSome? Arg.refusal = none := by
  simp only [List.findSome?_eq_none_iff, List.mem_flatMap]
  exact ⟨fun h r hr a ha => h a ⟨r, hr, ha⟩, fun h a ⟨r, hr, ha⟩ => h r hr a ha⟩

theorem last?_concat_of_eq (chain : List Refinement) (r : Refinement) : last? r.kind (chain ++ [r]) = some r := by
  simp [last?, List.filter_append]

theorem last?_concat_of_ne (chain : List Refinement) {r : Refinement} {kind : Kind} (h : r.kind ≠ kind) :
    last? kind (chain ++ [r]) = last? kind chain := by
  simp [last?, List.filter_append, h]

end Refinement

open Refinement (Kind)

namespace Query

/-- Two queries have the same setting of a kind. -/
def Agree (kind : Kind) (q q' : Query) : Prop :=
  match kind with
  | .sort => q.order = q'.order
  | .select => q.projection = q'.projection
  | .skip => q.skipped = q'.skipped
  | .limit => q.limited = q'.limited
  | .batch => q.batchSize = q'.batchSize

namespace Agree

variable {kind : Kind} {q q' q'' : Query}

theorem refl (kind : Kind) (q : Query) : q.Agree kind q := by cases kind <;> rfl

theorem symm (h : q.Agree kind q') : q'.Agree kind q := by
  cases kind <;> exact Eq.symm h

theorem trans (h : q.Agree kind q') (h' : q'.Agree kind q'') : q.Agree kind q'' := by
  cases kind <;> exact Eq.trans h h'

end Agree

end Query

namespace Refinement

variable {kind : Kind}

/-- A setting leaves those of other kinds. -/
theorem agree_of_kind_ne (r : Refinement) (q : Query) (h : r.kind ≠ kind) : (r.refine q).Agree kind q := by
  cases r with
  | select projection =>
    unfold refine Query.select
    dsimp only
    split <;> cases kind <;> first | rfl | exact absurd rfl h
  | _ => cases kind <;> first | rfl | exact absurd rfl h

theorem order_sort {fields : List String} (h : ∀ field ∈ fields, (Arg.sortField field).refusal = none) (q : Query) :
    (q.sort fields).order = some (sortDocument fields) := by
  unfold Query.sort
  rw [sortOrder_eq h]
  rfl

/-- A setting that is not refused takes the place of whatever there was of its kind. -/
theorem agree_refine {r : Refinement} (h : r.arguments.findSome? Arg.refusal = none) (q q' : Query) :
    (r.refine q).Agree r.kind (r.refine q') := by
  cases r with
  | sort fields =>
    rw [arguments, List.findSome?_map, List.findSome?_eq_none_iff] at h
    exact (order_sort h q).trans (order_sort h q').symm
  | select projection =>
    rw [arguments, List.findSome?_singleton, ← errorOf_liftDocument projection.value, errorOf_eq_none_iff] at h
    obtain ⟨doc, hdoc⟩ := h
    have hprojection : ∀ q : Query, (q.select projection.value).projection = some doc := by
      intro q
      unfold Query.select
      rw [hdoc]
    exact (hprojection q).trans (hprojection q').symm
  | _ => rfl

/-- After several settings, that of a kind is the last of its kind. -/
theorem agree_foldl {chain : List Refinement} (h : ∀ r ∈ chain, r.arguments.findSome? Arg.refusal = none)
    (kind : Kind) (q : Query) : (chain.foldl refine q).Agree kind ((last? kind chain).elim q (refine q)) := by
  induction chain using List.reverseRecOn with
  | nil => exact .refl kind q
  | append_singleton chain r ih =>
    obtain ⟨hchain, hr⟩ := List.forall_mem_append.mp h
    rw [List.foldl_append]
    by_cases hkind : r.kind = kind
    · subst hkind
      rw [last?_concat_of_eq]
      exact agree_refine (hr r (List.mem_singleton_self r)) _ _
    · rw [last?_concat_of_ne chain hkind]
      exact (r.agree_of_kind_ne _ hkind).trans (ih hchain)

/-- Chains whose last settings of a kind are the same agree on it. -/
theorem agree_of_last?_eq {chain chain' : List Refinement}
    (h : ∀ r ∈ chain, r.arguments.findSome? Arg.refusal = none)
    (h' : ∀ r ∈ chain', r.arguments.findSome? Arg.refusal = none) {kind : Kind}
    (hlast : last? kind chain = last? kind chain') (q : Query) :
    (chain.foldl refine q).Agree kind (chain'.foldl refine q) := by
  have hchain := agree_foldl h kind q
  rw [hlast] at hchain
  exact hchain.trans (agree_foldl h' kind q).symm

/-- The last sort fields give the order. -/
theorem order_foldl {chain : List Refinement} (h : ∀ r ∈ chain, r.arguments.findSome? Arg.refusal = none)
    {fields : List String} (hlast : last? .sort chain = some (.sort fields)) (q : Query) :
    (chain.foldl refine q).order = some (sortDocument fields) := by
  have hmem : Refinement.sort fields ∈ chain :=
    List.mem_of_mem_filter (List.mem_of_getLast? hlast)
  have hagree := agree_foldl h .sort q
  rw [hlast] at hagree
  refine Eq.trans hagree ?_
  have hfields := h _ hmem
  rw [arguments, List.findSome?_map, List.findSome?_eq_none_iff] at hfields
  exact order_sort hfields q

end Refinement

/-! ### What endings heed -/

namespace Query

/-- A query with its settings of some kinds only. -/
def only (kinds : List Kind) (q : Query) : Query where
  collection := q.collection
  filter := q.filter
  order := if .sort ∈ kinds then q.order else none
  projection := if .select ∈ kinds then q.projection else none
  skipped := if .skip ∈ kinds then q.skipped else 0
  limited := if .limit ∈ kinds then q.limited else 0
  batchSize := if .batch ∈ kinds then q.batchSize else none
  err := q.err

theorem only_eq_only {kinds : List Kind} {q q' : Query} (hcollection : q.collection = q'.collection)
    (hfilter : q.filter = q'.filter) (herr : q.err = q'.err) (h : ∀ kind ∈ kinds, q.Agree kind q') :
    q.only kinds = q'.only kinds := by
  unfold only
  rw [Query.mk.injEq]
  exact ⟨hcollection, hfilter, ite_congr rfl (h .sort) fun _ => rfl, ite_congr rfl (h .select) fun _ => rfl,
    ite_congr rfl (h .skip) fun _ => rfl, ite_congr rfl (h .limit) fun _ => rfl,
    ite_congr rfl (h .batch) fun _ => rfl, herr⟩

end Query

namespace Ending

/-- The kinds of settings that an ending heeds. -/
def settings : Ending → List Kind
  | @Ending.one _ _ => [.sort, .select, .skip]
  | .count => [.skip, .limit]
  | @Ending.all _ _ _ | .iter => [.sort, .select, .skip, .limit, .batch]
  | @Ending.apply _ _ _ _ | .applyInfo _ => [.sort, .select]

/-- The name of the command that states the order. A count states none. -/
def orderedCommand? : Ending → Option String
  | @Ending.one _ _ | @Ending.all _ _ _ | .iter => some "find"
  | @Ending.apply _ _ _ _ | .applyInfo _ => some "findAndModify"
  | .count => none

/-- What an ending gives. -/
def Outcome : Ending → Type
  | @Ending.one α _ => Except Error α
  | @Ending.all α _ _ => Except Error Unit × List α
  | .count => Except Error Nat
  | .iter => Iter Cursor
  | @Ending.apply α _ _ _ => Except Error ChangeInfo × α
  | .applyInfo _ => Except Error ChangeInfo

def carryOut (q : Query) : (ending : Ending) → Program ending.Outcome
  | @Ending.one α _ => (q.one : Call α).run
  | @Ending.all _ _ previous => q.all previous
  | .count => q.count.run
  | .iter => q.iter
  | @Ending.apply _ _ change previous => q.apply change previous
  | .applyInfo change => (q.applyInfo change).run

/-- What is reported of it. -/
def report : (ending : Ending) → ending.Outcome → Except Error Unit
  | @Ending.one _ _, outcome => outcome.map fun _ => ()
  | @Ending.all _ _ _, outcome => outcome.1
  | .count, outcome => outcome.map fun _ => ()
  | .iter, it => it.report
  | @Ending.apply _ _ _ _, outcome => outcome.1.map fun _ => ()
  | .applyInfo _, outcome => outcome.map fun _ => ()

theorem perform_eq (q : Query) (ending : Ending) :
    ending.perform q = (ending.carryOut q).bind fun outcome => .done (ending.report outcome) := by
  cases ending <;> rfl

theorem exists_carryOut_of_perform {q : Query} {ending : Ending} {e : Error}
    (h : ending.perform q = .done (.error e)) :
    ∃ outcome, ending.carryOut q = .done outcome ∧ ending.report outcome = .error e := by
  rw [perform_eq] at h
  cases hrun : ending.carryOut q with
  | done outcome =>
    rw [hrun] at h
    exact ⟨outcome, rfl, Program.done.inj h⟩
  | send command limit next =>
    rw [hrun] at h
    cases h
  | exhausted =>
    rw [hrun] at h
    cases h

/-- Settings that an ending does not heed are no matter. -/
theorem carryOut_only (q : Query) (ending : Ending) : ending.carryOut (q.only ending.settings) = ending.carryOut q := by
  cases ending <;> rfl

/-- A command states an order if it is the one of an ending that does. -/
def States (ending : Ending) (order : Document) (k : Command) : Prop :=
  ∀ command ∈ ending.orderedCommand?, k.body.names.head? = some command → k.body.get? "sort" = some (.ofDocument order)

section Stating

variable {q : Query} {order : Document}

/-- The searches of a query state its order. -/
theorem searching_order (horder : q.order = some order) (hwritten : order.written = order) {P : Command → Prop}
    (hsearch : ∀ k : Command, k.body.get? "sort" = some (.ofDocument order) → P k)
    (hmore : ∀ k : Command, k.body.names.head? = some "getMore" → P k) : q.Searching P "sort" (.ofDocument order) where
  carries _ h := Query.carries_order horder h
  bounds := by decide
  search k h := by
    apply hsearch
    rw [h.field, Bson.written_ofDocument, hwritten]
  more := hmore

/-- A change of one document states the order of the query. -/
theorem sendsOnly_change_order (horder : q.order = some order) (hwritten : order.written = order) (change : Change) :
    (q.change change).run.SendsOnly fun k =>
      k.body.names.head? = some "findAndModify" → k.body.get? "sort" = some (.ofDocument order) := by
  have hmodify : ∀ fields : Fields Bson,
      Fields.last? (("query", .ofDocument q.filter) :: fields) "sort" = some (.ofDocument order) →
        (q.collection.findAndModify q.filter fields).run.SendsOnly fun k =>
          k.body.names.head? = some "findAndModify" → k.body.get? "sort" = some (.ofDocument order) := by
    intro fields hget
    refine q.collection.sendsOnly_findAndModify_of hget (by decide) fun k hk _ => ?_
    rw [hk.field, Bson.written_ofDocument, hwritten]
  have hfield : q.orderField = [("sort", .ofDocument order)] := by
    unfold Query.orderField
    rw [horder]
    rfl
  refine Query.sendsOnly_change_of (Query.sendsOnly_firstOfFilter_of ?_ ?_) ?_ ?_
  · intro k hk hname
    exact absurd (hk.command.symm.trans hname) (by decide)
  · intro k hk hname
    exact absurd (hk.symm.trans hname) (by decide)
  · intro _
    apply Call.sendsOnly_settled_bind
    intro _ _
    rw [hfield]
    refine Call.sendsOnly_bind (hmodify _ rfl) fun found => ?_
    cases found <;> trivial
  · intro _ update _
    apply Call.sendsOnly_settled_bind
    intro _ _
    apply Call.sendsOnly_settled_bind
    intro _ _
    rw [hfield]
    apply hmodify
    cases q.projection <;> rfl

theorem sendsOnly_carryOut (horder : q.order = some order) (hwritten : order.written = order) (ending : Ending) :
    (ending.carryOut q).SendsOnly (ending.States order) := by
  have hfind : q.Searching (fun k => ∀ command ∈ some "find", k.body.names.head? = some command →
      k.body.get? "sort" = some (.ofDocument order)) "sort" (.ofDocument order) := by
    refine searching_order horder hwritten (fun k hk _ _ _ => hk) ?_
    rintro k hk _ ⟨⟩ hname
    exact absurd (hk.symm.trans hname) (by decide)
  have hchange : ∀ change, (q.change change).run.SendsOnly fun k => ∀ command ∈ some "findAndModify",
      k.body.names.head? = some command → k.body.get? "sort" = some (.ofDocument order) := by
    intro change
    refine (sendsOnly_change_order horder hwritten change).mono ?_
    rintro k hk _ ⟨⟩
    exact hk
  cases ending with
  | one α => exact hfind.sendsOnly_one
  | all previous => exact hfind.sendsOnly_all previous
  | iter => exact hfind.sendsOnly_iter
  | count => exact .of_forall (fun _ _ hnone => nomatch hnone) _
  | apply change previous => exact Query.sendsOnly_apply_of (hchange change) previous
  | applyInfo change => exact Query.sendsOnly_applyInfo_of (hchange change)

end Stating

/-! ### What is sent -/

/-- An ending that nothing keeps from being sent, whatever the query is. -/
def Writable : Ending → Prop
  | @Ending.apply _ _ change _ | .applyInfo change => change.Writable
  | _ => True

/-- The command that an ending begins with. -/
def firstCommand : Ending → String
  | @Ending.one _ _ | @Ending.all _ _ _ | .iter => "find"
  | .count => "aggregate"
  | @Ending.apply _ _ change _ | .applyInfo change => change.firstCommand

/-- What can be sent of a query is sent, whatever the ending. -/
theorem asks_carryOut {q : Query} {ending : Ending} (h : (q.only ending.settings).Sendable)
    (hending : ending.Writable) : (ending.carryOut q).Asks fun k => k.IsFor ending.firstCommand q.collection := by
  rw [← carryOut_only]
  cases ending with
  | one α => exact h.asks_one
  | all previous => exact h.asks_all previous
  | count => exact h.asks_count
  | iter => exact h.asks_iter
  | apply change previous => exact (h.changeable.asks_change hending).bind
  | applyInfo change => exact Call.asks_bind (h.changeable.asks_change hending)

/-! ### Chains of settings -/

/-- What settles how a query ends that is refined by a chain of settings. -/
structure SettledBy (ending : Ending) (c : Collection) (target : Target) (chain : List Refinement) : Prop where
  /-- The first argument that is refused is reported, and nothing is sent. -/
  refused : ∀ e, (Operation.query target chain ending).refusal = some e →
    ∃ outcome, ending.carryOut (chain.foldl Refinement.refine (target.find c)) = .done outcome ∧
      ending.report outcome = .error e
  /-- Otherwise another chain does the same if it has the same last setting of each kind that the ending heeds. -/
  settings : (Operation.query target chain ending).refusal = none → ∀ chain',
    (Operation.query target chain' ending).refusal = none →
      (∀ kind ∈ ending.settings, Refinement.last? kind chain = Refinement.last? kind chain') →
        ending.carryOut (chain.foldl Refinement.refine (target.find c)) =
          ending.carryOut (chain'.foldl Refinement.refine (target.find c))
  /-- The order has the names of the last sort fields, each at its first place and with its last direction, and is
  stated by every command that has to. -/
  order : (Operation.query target chain ending).refusal = none → ∀ fields,
    Refinement.last? .sort chain = some (.sort fields) → ∃ order : Document,
      order.names = (fields.map sortName).eraseDups ∧
        (∀ name, order.get? name = Fields.last? (sortPairs fields) name) ∧
          (ending.carryOut (chain.foldl Refinement.refine (target.find c))).SendsOnly (ending.States order)
  /-- If the settings that the ending heeds can be sent, something is sent. -/
  asked : ((chain.foldl Refinement.refine (target.find c)).only ending.settings).Sendable → ending.Writable →
    (ending.carryOut (chain.foldl Refinement.refine (target.find c))).Asks fun k => k.IsFor ending.firstCommand c

theorem refusal_eq_none_iff {target : Target} {chain : List Refinement} {ending : Ending} :
    (Operation.query target chain ending).refusal = none ↔
      target.argument.refusal = none ∧ ∀ r ∈ chain, r.arguments.findSome? Arg.refusal = none := by
  unfold Operation.refusal Operation.arguments
  rw [← Refinement.findSome?_refusal_eq_none_iff, List.findSome?_cons]
  cases target.argument.refusal <;> simp

/-- How a query ends is settled by the last setting of each kind that its ending heeds, or by the first argument
that is refused. -/
theorem settled_by_last {c : Collection} (hrounds : 0 < c.database.rounds) (target : Target)
    (chain : List Refinement) (ending : Ending) : ending.SettledBy c target chain := by
  constructor
  case refused =>
    intro e he
    have hperform : (Operation.query target chain ending).perform c = .done (.error e) :=
      Operation.perform_of_refusal hrounds he
    exact exists_carryOut_of_perform hperform
  case settings =>
    intro h chain' h' hlast
    obtain ⟨htarget, hchain⟩ := refusal_eq_none_iff.mp h
    obtain ⟨-, hchain'⟩ := refusal_eq_none_iff.mp h'
    have herr : ∀ refinements : List Refinement, (∀ r ∈ refinements, r.arguments.findSome? Arg.refusal = none) →
        (refinements.foldl Refinement.refine (target.find c)).err = none := by
      intro refinements hrefinements
      rw [foldl_refine_err, Target.find_err, htarget, Option.none_or]
      exact Refinement.findSome?_refusal_eq_none_iff.mpr hrefinements
    have hframe := foldl_refine_frame chain (target.find c)
    have hframe' := foldl_refine_frame chain' (target.find c)
    have honly : (chain.foldl Refinement.refine (target.find c)).only ending.settings =
        (chain'.foldl Refinement.refine (target.find c)).only ending.settings :=
      Query.only_eq_only (hframe.1.trans hframe'.1.symm) (hframe.2.trans hframe'.2.symm)
        ((herr chain hchain).trans (herr chain' hchain').symm)
        fun kind hkind => Refinement.agree_of_last?_eq hchain hchain' (hlast kind hkind) _
    rw [← carryOut_only, honly, carryOut_only]
  case order =>
    intro h fields hlast
    have horder := Refinement.order_foldl (refusal_eq_none_iff.mp h).2 hlast (target.find c)
    exact ⟨sortDocument fields, names_sortDocument fields, get?_sortDocument fields,
      sendsOnly_carryOut horder (written_sortDocument fields) ending⟩
  case asked =>
    intro hsendable hending
    have hcollection := (foldl_refine_frame chain (target.find c)).1.trans (target.find_collection c)
    have hasks := asks_carryOut hsendable hending
    rwa [hcollection] at hasks

/-- Sort fields that take the place of others, a limit that a search for one document does not heed, and sort fields
that are refused although others take their place. -/
theorem one_settled_by_last :
    let c : Collection := ⟨⟨"app", .primary, none, 1⟩, "people"⟩
    let q : Query := c.find Value.null
    let fields := ["a", "-b", "-a"]
    let one := Ending.one Value
    one.carryOut ((((q.sort ["x"]).limit 5).sort fields).skip 1) = one.carryOut (((q.skip 1).batch 7).sort fields) ∧
      (∃ order : Document, order.names = ["a", "b"] ∧ order.get? "a" = some descending ∧
        (one.carryOut ((((q.sort ["x"]).limit 5).sort fields).skip 1)).SendsOnly (one.States order)) ∧
      ∃ outcome, count.carryOut ((q.sort ["-"]).sort ["a"]) = .done outcome ∧
        count.report outcome = .error (.invalidArgument (.sortKey "-")) := by
  intro c q fields one
  have hrounds : 0 < c.database.rounds := by decide
  let target : Target := .selector ⟨Value, .null⟩
  let chain : List Refinement := [.sort ["x"], .limit 5, .sort fields, .skip 1]
  let chain' : List Refinement := [.skip 1, .batch 7, .sort fields]
  have hlast : ∀ kind ∈ one.settings, Refinement.last? kind chain = Refinement.last? kind chain' := by
    intro kind hkind
    change kind ∈ [Kind.sort, Kind.select, Kind.skip] at hkind
    simp only [List.mem_cons, List.not_mem_nil, or_false] at hkind
    rcases hkind with rfl | rfl | rfl <;> rfl
  have hone := settled_by_last hrounds target chain one
  have hquery : chain.foldl Refinement.refine (target.find c) = (((q.sort ["x"]).limit 5).sort fields).skip 1 := rfl
  refine ⟨?settings, ?order, ?refused⟩
  case settings => exact hone.settings rfl chain' rfl hlast
  case order =>
    obtain ⟨order, hnames, hget, hsends⟩ := hone.order rfl fields rfl
    refine ⟨order, hnames.trans (by decide), (hget "a").trans (by decide), ?_⟩
    rwa [hquery] at hsends
  case refused => exact (settled_by_last hrounds target [.sort ["-"], .sort ["a"]] count).refused _ rfl

end Ending

end DocClient
