import DocClient.Proofs.Collection.Server

/-! The batches of a queue are a partition of it, and there is no other of the sort. Main statement:
`batches_partition`, which also says that the command of operations of one kind carries all of them and nothing
else. -/
namespace DocClient

/-! ### Commands of one kind -/

/-- An entry is read back as the operation that it was made of. -/
theorem WriteOp.readEntry_ofDocument_entry (op : WriteOp) :
    op.kind.readEntry (Bson.ofDocument op.entry) = some op := by
  cases op with
  | insert doc => rfl
  | update filter changes multi upsert => rfl
  | delete filter multi => cases multi <;> rfl

namespace Bulk

variable {c : Collection} {kind : WriteKind} {batch ops : List WriteOp}

/-- A command that carries operations of one kind: one entry for each of them, in their order, no entries of
another kind, and nothing of the operations is lost. -/
structure CarriesOps (c : Collection) (kind : WriteKind) (batch : List WriteOp) (body : Document) : Prop where
  carries : body.Carries kind.command kind.listName (.array (batch.map fun op => .ofDocument op.entry))
  only : ∀ other, other ≠ kind → body.get? other.listName = none
  recovered : Command.writes? ⟨c.database.name, body, .primary⟩ c = some (kind, batch)

theorem carriesOps_batchFields (h : ∀ op ∈ batch, op.kind = kind) (ordered : Bool) {extra : Fields Bson}
    (hextra : ∀ name ∈ Fields.names extra, name = "writeConcern") :
    CarriesOps c kind batch ⟨batchFields c.name kind batch ordered ++ extra⟩ := by
  have hcarries := carries_batchFields c.name kind batch ordered extra
  refine ⟨hcarries, ?only, ?recovered⟩
  case only =>
    intro other hother
    have hconcern : other.listName ∉ Fields.names extra := by
      intro hmem
      have hname := hextra _ hmem
      cases other <;> revert hname <;> decide
    have hfields : other.listName ∉ Fields.names (batchFields c.name kind batch ordered) := by
      change other.listName ∉ [kind.command, kind.listName, "ordered"]
      revert hother
      cases other <;> cases kind <;> decide
    rw [Document.get?, Fields.get?_append, Fields.get?_eq_none_iff.mpr hfields, Fields.get?_eq_none_iff.mpr hconcern]
    rfl
  case recovered =>
    refine Command.writes?_of_isFor ⟨rfl, rfl⟩ ?_
    rw [Document.itemsUnder, hcarries.field]
    have hread := mapM_map_eq_some fun op hop => h op hop ▸ op.readEntry_ofDocument_entry
    rwa [List.map_id'] at hread

/-- The command of operations of one kind carries them, unless the write concern has no form. -/
theorem batchCommand_carries (hne : batch ≠ []) (h : ∀ op ∈ batch, op.kind = kind) (c : Collection) (ordered : Bool)
    (concern : Option WriteConcern) :
    (∃ body, batchCommand c.name batch ordered concern = .ok body ∧ CarriesOps c kind batch body) ∨
      ∃ w ∈ concern, ∃ fault, w.toDocument = .error fault ∧
        batchCommand c.name batch ordered concern = .error (.decode (.encode fault)) := by
  rw [batchCommand_eq hne h]
  obtain ⟨extra, hextra, hnames⟩ | ⟨w, hw, fault, hfault, hextra⟩ := concernFields_cases concern
  · rw [hextra]
    exact .inl ⟨_, rfl, carriesOps_batchFields h ordered hnames⟩
  · rw [hextra]
    exact .inr ⟨w, hw, fault, hfault, rfl⟩

/-! ### Batches as long as they can be -/

/-- Of two batches in a row the first has all the operations that a command takes, or they are of two kinds. -/
def Apart (a b : List WriteOp) : Prop := a.length = maxBatch ∨ ∀ x ∈ a, ∀ y ∈ b, x.kind ≠ y.kind

/-- Batches of a queue, each with the number of operations before it, that are no shorter than they need be. -/
structure Partitions (ops : List WriteOp) (bs : List (Nat × List WriteOp)) : Prop where
  content : (bs.map Prod.snd).flatten = ops
  batch : ∀ b ∈ bs, ∃ kind, IsBatch kind b.2
  offset : ∀ before b after, bs = before ++ b :: after → b.1 = (before.map Prod.snd).flatten.length
  maximal : (bs.map Prod.snd).IsChain Apart

section Offsets

@[simp] theorem map_snd_withOffsets (offset : Nat) (parts : List (List WriteOp)) :
    (withOffsets offset parts).map Prod.snd = parts := by
  induction parts generalizing offset with
  | nil => rfl
  | cons part rest ih => exact congrArg (part :: ·) (ih _)

/-- Batches have the places of their first operations exactly if these are counted from an offset. -/
theorem eq_withOffsets_iff {bs : List (Nat × List WriteOp)} {offset : Nat} :
    bs = withOffsets offset (bs.map Prod.snd) ↔
      ∀ before b after, bs = before ++ b :: after → b.1 = offset + (before.map Prod.snd).flatten.length := by
  induction bs generalizing offset with
  | nil => simp [withOffsets]
  | cons first rest ih =>
    rw [List.map_cons, withOffsets, List.cons.injEq, ih]
    constructor
    · rintro ⟨hfirst, hrest⟩ before b after heq
      cases before with
      | nil =>
        obtain ⟨rfl, -⟩ := List.cons.inj heq
        rw [hfirst]
        rfl
      | cons other before =>
        obtain ⟨rfl, hbefore⟩ := List.cons.inj heq
        rw [hrest before b after hbefore, List.map_cons, List.flatten_cons, List.length_append, Nat.add_assoc]
    · intro h
      refine ⟨Prod.ext (h [] first rest rfl) rfl, fun before b after heq => ?_⟩
      rw [h (first :: before) b after (congrArg (first :: ·) heq), List.map_cons, List.flatten_cons,
        List.length_append, Nat.add_assoc]

end Offsets

section Cutting

variable {parts others : List (List WriteOp)}

/-- Every piece but the last has the full length. -/
theorem isChain_pieces (size : Nat) (ops : List WriteOp) :
    (pieces size ops).IsChain fun piece _ => piece.length = size := by
  fun_induction pieces size ops with
  | case1 => exact .nil
  | case2 ops h ih =>
    refine List.isChain_cons.mpr ⟨fun next hnext => ?_, ih⟩
    have hrest : pieces size (ops.drop size) ≠ [] := List.ne_nil_of_mem (List.mem_of_mem_head? hnext)
    have hdrop : ops.drop size ≠ [] := by
      rintro hnil
      rw [hnil, pieces, dif_pos (.inr rfl)] at hrest
      exact hrest rfl
    rw [Ne, List.drop_eq_nil_iff] at hdrop
    exact List.length_take_of_le (by omega)

/-- Runs in a row are of two kinds, and so is all that is cut from them. -/
theorem apart_of_runs {a b x y : List WriteOp} (ha : a ∈ runs ops) (hb : b ∈ runs ops)
    (hab : ∃ ha hb, decide ((a.getLast ha).kind = (b.head hb).kind) = false) (hx : ∀ op ∈ x, op ∈ a)
    (hy : ∀ op ∈ y, op ∈ b) : Apart x y := by
  obtain ⟨hane, hbne, hne⟩ := hab
  obtain ⟨kind, hkind⟩ := kind_of_mem_runs ha
  obtain ⟨kind', hkind'⟩ := kind_of_mem_runs hb
  rw [hkind _ (List.getLast_mem hane), hkind' _ (List.head_mem hbne), decide_eq_false_iff_not] at hne
  refine .inr fun op hop op' hop' => ?_
  rwa [hkind op (hx op hop), hkind' op' (hy op' hop')]

theorem isChain_apart (ops : List WriteOp) : ((runs ops).flatMap (pieces maxBatch)).IsChain Apart := by
  have hsize : 0 < maxBatch := by decide
  have hne : [] ∉ (runs ops).map (pieces maxBatch) := by
    intro hmem
    obtain ⟨run, hrun, hnil⟩ := List.mem_map.mp hmem
    have hflat := (pieces_spec hsize run).1
    rw [hnil] at hflat
    exact List.nil_notMem_splitBy _ _ (hflat ▸ hrun)
  rw [List.flatMap_def, List.isChain_flatten hne, List.forall_mem_map, List.isChain_map]
  refine ⟨fun run _ => (isChain_pieces maxBatch run).imp fun _ _ => .inl, ?_⟩
  refine (List.isChain_getLast_head_splitBy _ ops).imp_of_mem_imp fun a b ha hb hab x hx y hy => ?_
  have hxs := ((pieces_spec hsize a).2 x (List.mem_of_getLast? hx)).2.2
  have hys := ((pieces_spec hsize b).2 y (List.mem_of_mem_head? hy)).2.2
  exact apart_of_runs ha hb hab hxs hys

/-- Operations that begin alike do not have a longer batch in front: the first operation of the next batch would
have to be of its kind. -/
private theorem eq_nil_of_longer {a c rest : List WriteOp} (ha : IsBatch kind a)
    (hlonger : ∃ kind, IsBatch kind (a ++ c)) (hparts : ∀ part ∈ parts, ∃ kind, IsBatch kind part)
    (hchain : (a :: parts).IsChain Apart) (hflat : parts.flatten = c ++ rest) : c = [] := by
  by_contra hc
  obtain ⟨op, c, rfl⟩ := List.exists_cons_of_ne_nil hc
  cases parts with
  | nil => cases hflat
  | cons next parts =>
    obtain ⟨kind', hnext⟩ := hparts next (List.mem_cons_self ..)
    obtain ⟨first, next, rfl⟩ := List.exists_cons_of_ne_nil hnext.nonempty
    obtain ⟨rfl, -⟩ := List.cons.inj hflat
    obtain ⟨kind'', hlonger⟩ := hlonger
    obtain ⟨x, a, rfl⟩ := List.exists_cons_of_ne_nil ha.nonempty
    obtain hfull | hkinds := (List.isChain_cons_cons.mp hchain).1
    · have hshort := hlonger.short
      rw [List.length_append, hfull, List.length_cons] at hshort
      omega
    · refine hkinds x (List.mem_cons_self ..) first (List.mem_cons_self ..) ?_
      exact (hlonger.uniform x (by simp)).trans (hlonger.uniform first (by simp)).symm

/-- There is one way only to cut operations into batches that are as long as they can be. -/
theorem parts_unique (hparts : ∀ part ∈ parts, ∃ kind, IsBatch kind part) (hchain : parts.IsChain Apart)
    (hothers : ∀ part ∈ others, ∃ kind, IsBatch kind part) (hchain' : others.IsChain Apart)
    (hflat : parts.flatten = others.flatten) : parts = others := by
  induction parts generalizing others with
  | nil =>
    cases others with
    | nil => rfl
    | cons b others =>
      obtain ⟨kind, hb⟩ := hothers b (List.mem_cons_self ..)
      have hnil := (List.append_eq_nil_iff.mp hflat.symm).1
      exact absurd hnil hb.nonempty
  | cons a parts ih =>
    obtain ⟨⟨kind, ha⟩, hparts'⟩ := List.forall_mem_cons.mp hparts
    cases others with
    | nil => exact absurd (List.append_eq_nil_iff.mp hflat).1 ha.nonempty
    | cons b others =>
      obtain ⟨⟨kind', hb⟩, hothers'⟩ := List.forall_mem_cons.mp hothers
      have hfront : a = b ∧ parts.flatten = others.flatten := by
        obtain ⟨c, rfl, hrest⟩ | ⟨c, rfl, hrest⟩ := List.append_eq_append_iff.mp hflat
        · obtain rfl := eq_nil_of_longer ha ⟨_, hb⟩ hparts' hchain hrest
          exact ⟨(List.append_nil a).symm, hrest⟩
        · obtain rfl := eq_nil_of_longer hb ⟨_, ha⟩ hothers' hchain' hrest
          exact ⟨List.append_nil b, hrest.symm⟩
      rw [hfront.1, ih hparts' hchain.tail hothers' hchain'.tail hfront.2]

end Cutting

theorem partitions_batches (ops : List WriteOp) : Partitions ops (batches ops) := by
  have hparts : (batches ops).map Prod.snd = (runs ops).flatMap (pieces maxBatch) := map_snd_withOffsets _ _
  have hoffsets : batches ops = withOffsets 0 ((batches ops).map Prod.snd) := by
    rw [hparts]
    rfl
  constructor
  case content => rw [hparts, flatten_pieces]
  case batch =>
    intro b hb
    exact isBatch_of_mem_pieces (hparts ▸ List.mem_map_of_mem hb)
  case offset =>
    intro before b after heq
    rw [eq_withOffsets_iff.mp hoffsets before b after heq, Nat.zero_add]
  case maximal =>
    rw [hparts]
    exact isChain_apart ops

theorem Partitions.unique {bs cs : List (Nat × List WriteOp)} (h : Partitions ops bs) (h' : Partitions ops cs) :
    bs = cs := by
  have hbatch {ds : List (Nat × List WriteOp)} (hds : Partitions ops ds) :
      ∀ part ∈ ds.map Prod.snd, ∃ kind, IsBatch kind part := List.forall_mem_map.mpr hds.batch
  have hoffsets {ds : List (Nat × List WriteOp)} (hds : Partitions ops ds) :
      ds = withOffsets 0 (ds.map Prod.snd) :=
    eq_withOffsets_iff.mpr fun before b after heq => (hds.offset before b after heq).trans (Nat.zero_add _).symm
  have hparts : bs.map Prod.snd = cs.map Prod.snd :=
    parts_unique (hbatch h) h.maximal (hbatch h') h'.maximal (h.content.trans h'.content.symm)
  rw [hoffsets h, hoffsets h', hparts]

/-- The batches of a queue, and no others, make up the queue in its order, are of one kind and not too long each, have
the number of operations before them, and are as long as they can be. The command of operations of one kind
carries all of them in their order and nothing else, so that they can be read from it again, unless the write
concern has no form. -/
theorem batches_partition (ops : List WriteOp) :
    maxBatch = 1000 ∧ (∀ bs, Partitions ops bs ↔ bs = batches ops) ∧
      ∀ (kind : WriteKind) (batch : List WriteOp), batch ≠ [] → (∀ op ∈ batch, op.kind = kind) →
        ∀ (c : Collection) (ordered : Bool) (concern : Option WriteConcern),
          (∃ body, batchCommand c.name batch ordered concern = .ok body ∧ CarriesOps c kind batch body) ∨
            ∃ w ∈ concern, ∃ fault, w.toDocument = .error fault ∧
              batchCommand c.name batch ordered concern = .error (.decode (.encode fault)) := by
  refine ⟨rfl, fun bs => ⟨fun h => h.unique (partitions_batches ops), ?_⟩, ?_⟩
  · rintro rfl
    exact partitions_batches ops
  · intro kind batch hne h c ordered concern
    exact batchCommand_carries hne h c ordered concern

namespace Sample

def insertion : WriteOp := .insert ⟨[("_id", .int32 1)]⟩

def deletion (multi : Bool) : WriteOp := .delete ⟨[("a", .int32 1)]⟩ multi

def people : Collection := ⟨⟨"app", .primary, none, 8⟩, "people"⟩

/-- One insertion more than a command takes, and a deletion behind it. -/
def queue : List WriteOp := List.replicate 1000 insertion ++ [insertion, deletion false]

def parts : List (List WriteOp) := [List.replicate 1000 insertion, [insertion], [deletion false]]

theorem partitions_queue : Partitions queue (withOffsets 0 parts) := by
  have hkinds : insertion.kind ≠ (deletion false).kind := by decide
  constructor
  case content =>
    rw [map_snd_withOffsets]
    rfl
  case batch =>
    rw [← List.forall_mem_map (f := Prod.snd) (P := fun part => ∃ kind, IsBatch kind part), map_snd_withOffsets]
    have hfull : IsBatch .insert (List.replicate 1000 insertion) :=
      ⟨List.cons_ne_nil _ _, Nat.le_of_eq List.length_replicate, fun op hop => List.eq_of_mem_replicate hop ▸ rfl⟩
    simp only [parts, List.forall_mem_cons]
    exact ⟨⟨_, hfull⟩, ⟨.insert, by decide, by decide, by decide⟩, ⟨.delete, by decide, by decide, by decide⟩, nofun⟩
  case offset =>
    intro before b after heq
    rw [eq_withOffsets_iff.mp (congrArg (withOffsets 0) (map_snd_withOffsets 0 parts).symm) before b after heq,
      Nat.zero_add]
  case maximal =>
    rw [map_snd_withOffsets]
    refine .cons_cons (.inl List.length_replicate) (.cons_cons (.inr ?_) (.singleton _))
    simpa using hkinds

end Sample

/-- The limit falls into a run of insertions, and the kind changes after one more. -/
theorem batches_at_limit :
    batches Sample.queue = [(0, List.replicate 1000 Sample.insertion), (1000, [Sample.insertion]),
        (1001, [Sample.deletion false])] ∧
      [Sample.deletion true, Sample.deletion false] ≠ [] ∧
      ∃ body, batchCommand "people" [Sample.deletion true, Sample.deletion false] true none = .ok body ∧
        CarriesOps Sample.people .delete [Sample.deletion true, Sample.deletion false] body := by
  obtain ⟨-, hbatches, hcommand⟩ := batches_partition Sample.queue
  have hne : [Sample.deletion true, Sample.deletion false] ≠ [] := List.cons_ne_nil _ _
  have hoffsets : withOffsets 0 Sample.parts = [(0, List.replicate 1000 Sample.insertion),
      (1000, [Sample.insertion]), (1001, [Sample.deletion false])] := by
    rw [Sample.parts, withOffsets, List.length_replicate]
    rfl
  refine ⟨((hbatches _).mp Sample.partitions_queue).symm.trans hoffsets, hne, ?_⟩
  exact (hcommand .delete _ hne (by decide) Sample.people true none).resolve_right nofun

end Bulk
end DocClient
