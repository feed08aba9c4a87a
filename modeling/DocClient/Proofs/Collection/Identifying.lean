import DocClient.Collection.Bulk
import DocClient.Proofs.Collection.Insert

/-! Identifiers of inserted documents. Main statement: `inserted_identified`, by which a document is given a usable
identifier and keeps everything else, and what is inserted or queued are the documents so treated, in their order. -/
namespace DocClient

/-! ### One document -/

/-- An identifier that a document can be stored under: not null, not the empty text and not without bytes. -/
structure Bson.IsUsableId (id : Bson) : Prop where
  notNull : id ≠ .null
  notEmptyText : id ≠ .string ""
  notEmptyBinary : ∀ subtype, id ≠ .binary subtype []

theorem isUnusableId_eq_false_iff {id : Bson} : isUnusableId id = false ↔ id.IsUsableId := by
  constructor
  · intro h
    refine ⟨?_, ?_, ?_⟩
    · rintro rfl
      cases h
    · rintro rfl
      cases h
    · rintro subtype rfl
      cases h
  · rintro ⟨hnull, htext, hbinary⟩
    cases id with
    | null => exact absurd rfl hnull
    | string s =>
      have hs : s ≠ "" := fun hs => htext (congrArg Bson.string hs)
      exact decide_eq_false hs
    | binary subtype bytes =>
      have hbytes : bytes ≠ [] := fun hbytes => hbinary subtype (congrArg (Bson.binary subtype) hbytes)
      exact Bool.eq_false_iff.mpr fun hempty => hbytes (List.isEmpty_iff.mp hempty)
    | _ => rfl

theorem isUsableId_objectId (fresh : Oid) : (Bson.objectId fresh).IsUsableId := ⟨nofun, nofun, nofun⟩

section Ensuring

variable {fresh : Oid} {doc : Document}

theorem ensureId_of_missing (fresh : Oid) (h : doc.get? "_id" = none) :
    ensureId fresh doc = ⟨("_id", .objectId fresh) :: doc.fields⟩ := by
  unfold ensureId
  rw [h]

theorem ensureId_of_usable (fresh : Oid) {id : Bson} (h : doc.get? "_id" = some id) (husable : id.IsUsableId) :
    ensureId fresh doc = doc := by
  unfold ensureId
  rw [h]
  exact if_neg (Bool.eq_false_iff.mp (isUnusableId_eq_false_iff.mpr husable))

theorem ensureId_of_unusable (fresh : Oid) {before after : Fields Bson} {id : Bson}
    (hbefore : "_id" ∉ Fields.names before) (hunusable : ¬ id.IsUsableId) :
    ensureId fresh ⟨before ++ ("_id", id) :: after⟩ = ⟨before ++ ("_id", .objectId fresh) :: after⟩ := by
  have hid : Document.get? ⟨before ++ ("_id", id) :: after⟩ "_id" = some id := Fields.get?_append_cons id hbefore
  have hreplaced : isUnusableId id = true := by
    rw [← Bool.not_eq_false, isUnusableId_eq_false_iff]
    exact hunusable
  unfold ensureId
  rw [hid]
  exact (if_pos hreplaced).trans (congrArg Document.mk (Fields.put_append_cons id _ hbefore))

/-- A document and what becomes of it when it is to be inserted with a fresh identifier at hand. -/
structure Identified (fresh : Oid) (doc ensured : Document) : Prop where
  usable : ∃ id, ensured.get? "_id" = some id ∧ id.IsUsableId
  /-- Every other field keeps its value and its place among the others. -/
  others : Fields.others ensured.fields "_id" = Fields.others doc.fields "_id"
  kept : ∀ id, doc.get? "_id" = some id → id.IsUsableId → ensured = doc
  first : doc.get? "_id" = none → ensured.fields = ("_id", .objectId fresh) :: doc.fields
  replaced : ∀ before id after, doc.fields = before ++ ("_id", id) :: after → "_id" ∉ Fields.names before →
    ¬ id.IsUsableId → ensured.fields = before ++ ("_id", .objectId fresh) :: after
  /-- A second identifier is not taken. -/
  once : ∀ other, ensureId other ensured = ensured

theorem identified_ensureId (fresh : Oid) (doc : Document) : Identified fresh doc (ensureId fresh doc) := by
  -- The identifier is missing, or there is one that can be kept, or one that has to be replaced where it stands.
  have hcases : (∃ id, (ensureId fresh doc).get? "_id" = some id ∧ id.IsUsableId) ∧
      Fields.others (ensureId fresh doc).fields "_id" = Fields.others doc.fields "_id" := by
    cases hid : doc.get? "_id" with
    | none =>
      rw [ensureId_of_missing fresh hid]
      have hfirst : Fields.get? (("_id", .objectId fresh) :: doc.fields) "_id" = some (.objectId fresh) := if_pos rfl
      exact ⟨⟨_, hfirst, isUsableId_objectId fresh⟩, Fields.others_cons_self _ _⟩
    | some id =>
      by_cases hid' : id.IsUsableId
      · rw [ensureId_of_usable fresh hid hid']
        exact ⟨⟨id, hid, hid'⟩, rfl⟩
      · obtain ⟨before, after, hfields, hbefore⟩ := Fields.exists_of_get? hid
        obtain rfl : doc = ⟨before ++ ("_id", id) :: after⟩ := congrArg Document.mk hfields
        rw [ensureId_of_unusable fresh hbefore hid']
        refine ⟨⟨_, Fields.get?_append_cons _ hbefore, isUsableId_objectId fresh⟩, ?_⟩
        rw [Fields.others_append_cons, Fields.others_append_cons]
  obtain ⟨husable, hothers⟩ := hcases
  refine ⟨husable, hothers, fun id hid => ensureId_of_usable fresh hid, ?_, ?_, ?_⟩
  · intro hmissing
    rw [ensureId_of_missing fresh hmissing]
  · rintro before id after hfields hbefore hunusable
    obtain rfl : doc = ⟨before ++ ("_id", id) :: after⟩ := congrArg Document.mk hfields
    rw [ensureId_of_unusable fresh hbefore hunusable]
  · intro other
    obtain ⟨id, hid, hus⟩ := husable
    exact ensureId_of_usable other hid hus

end Ensuring

/-! ### Many documents -/

section Handing

variable {α : Type} [Argument α] {c : Collection} {fresh : Nat → Oid} {args : List α} {handed : List Document}

/-- The documents of some arguments, in their order, each with a usable identifier. -/
structure IdentifiedArgs (fresh : Nat → Oid) (args : List α) (handed : List Document) : Prop where
  length : handed.length = args.length
  each : ∀ i a, args[i]? = some a → ∃ doc, liftDocument a = .ok doc ∧ handed[i]? = some (ensureId (fresh i) doc)

/-- A call hands documents over for insertion. What is sent first has all of them, and what is sent after that has
the last of them again. -/
structure Collection.HandsOver (c : Collection) (call : Call Unit) (handed : List Document) : Prop where
  one : ∀ doc, handed = [doc] → call = c.insertOne .short doc
  many : 2 ≤ handed.length → call = c.insertMany .short handed
  first : ∀ x log r, call.run.Plays (x :: log) r → x.command.Inserts c (handed.map Document.written)
  later : ∀ x log r, call.run.Plays (x :: log) r →
    ∀ y ∈ log, y.command.IsFor "insert" c ∧ y.command.insertedInto c <:+ handed.map Document.written
  sent : ∀ log, call.run.Plays log (.ok ()) → log ≠ []

theorem handsOver_insertOne (doc : Document) : c.HandsOver (c.insertOne .short doc) [doc] where
  one doc' h := by rw [List.singleton_inj.mp h]
  many h := absurd h (by simp)
  first x log r h := by
    cases Collection.plays_insertOne h with
    | sent sent reply => exact sent
  later x log r h := by
    cases Collection.plays_insertOne h with
    | sent sent reply => nofun
  sent log h := by
    cases Collection.plays_insertOne h with
    | sent sent reply => exact List.cons_ne_nil _ _

theorem handsOver_insertMany (h : 2 ≤ handed.length) : c.HandsOver (c.insertMany .short handed) handed where
  one doc hone := absurd h (by simp [hone])
  many _ := rfl
  first x log r h := by
    cases Collection.plays_insertMany h with
    | failed e sent reply => exact sent
    | finished sent reply all => exact sent
    | more sent reply some rest => exact sent
  later x log r h y hy := (Collection.plays_insertMany h).forall_mem y (List.mem_cons_of_mem x hy)
  sent log h := by
    cases Collection.plays_insertMany h with
    | finished sent reply all => exact List.cons_ne_nil _ _
    | more sent reply some rest => exact List.cons_ne_nil _ _

/-- An insertion hands over the documents of its arguments, of which there is one at least. -/
theorem handsOver_insert (c : Collection) {docs : List Document} (hdocs : eachItem liftDocument args = .ok docs)
    (hne : docs ≠ []) : c.HandsOver (c.insert fresh args) (ensureIds fresh docs) := by
  have hlength : (ensureIds fresh docs).length = docs.length := List.length_mapIdx
  unfold Collection.insert
  rw [hdocs, Call.settled_ok_bind]
  generalize ensureIds fresh docs = handed at hlength
  match handed, hlength with
  | [], hlength => exact absurd (List.eq_nil_of_length_eq_zero hlength.symm) hne
  | [doc], _ => exact handsOver_insertOne doc
  | doc :: next :: rest, _ => exact handsOver_insertMany (by simp)

theorem Bulk.insertOne_eq (b : Bulk) (fresh : Oid) {a : α} {doc : Document} (h : liftDocument a = .ok doc) :
    b.insertOne fresh a = { b with ops := b.ops ++ [.insert (ensureId fresh doc)] } := by
  unfold Bulk.insertOne
  rw [h]
  rfl

/-- A queue takes the documents of the arguments. -/
theorem Bulk.insert_eq (b : Bulk) {docs : List Document} (hdocs : eachItem liftDocument args = .ok docs) :
    b.insert fresh args = { b with ops := b.ops ++ (ensureIds fresh docs).map .insert } := by
  -- By induction on the arguments, from any place of the list on.
  have hfold : ∀ (n : Nat) (b : Bulk),
      (args.zipIdx n).foldl (fun b numbered => b.insertOne (fresh numbered.2) numbered.1) b =
        { b with ops := b.ops ++ (docs.zipIdx n).map fun p => .insert (ensureId (fresh p.2) p.1) } := by
    induction eachItem_eq_ok_iff.mp hdocs with
    | nil => simp
    | @cons a doc args docs hdoc hrest ih =>
      intro n b
      rw [List.zipIdx_cons, List.foldl_cons, insertOne_eq b (fresh n) hdoc, ih (eachItem_eq_ok_iff.mpr hrest)]
      simp
  unfold Bulk.insert ensureIds
  rw [List.mapIdx_eq_zipIdx_map, List.map_map]
  exact hfold 0 b

theorem identifiedArgs_ensureIds {docs : List Document} (hdocs : eachItem liftDocument args = .ok docs) :
    IdentifiedArgs fresh args (ensureIds fresh docs) := by
  have hall := eachItem_eq_ok_iff.mp hdocs
  refine ⟨List.length_mapIdx.trans hall.length_eq.symm, ?_⟩
  intro i a ha
  obtain ⟨hi, rfl⟩ := List.getElem?_eq_some_iff.mp ha
  have hi' : i < docs.length := hall.length_eq ▸ hi
  refine ⟨docs[i], hall.get hi hi', ?_⟩
  unfold ensureIds
  rw [List.getElem?_mapIdx, List.getElem?_eq_getElem hi', Option.map_some]

/-- Documents are given identifiers one by one, and so inserted and queued. -/
theorem inserted_identified :
    (∀ fresh doc, Identified fresh doc (ensureId fresh doc)) ∧
      ∀ (α : Type) [Argument α] (fresh : Nat → Oid) (args : List α), args ≠ [] →
        (∀ a ∈ args, ∃ doc, liftDocument a = .ok doc) →
        ∃ handed, IdentifiedArgs fresh args handed ∧
          (∀ c : Collection, c.HandsOver (c.insert fresh args) handed) ∧
          ∀ b : Bulk, b.insert fresh args = { b with ops := b.ops ++ handed.map .insert } := by
  refine ⟨identified_ensureId, ?_⟩
  intro α _ fresh args hne hlift
  obtain ⟨docs, hdocs⟩ := exists_eachItem_eq_ok_iff.mpr hlift
  have hdocsne : docs ≠ [] := by
    rintro rfl
    exact hne (List.forall₂_nil_right_iff.mp (eachItem_eq_ok_iff.mp hdocs))
  exact ⟨ensureIds fresh docs, identifiedArgs_ensureIds hdocs, fun c => handsOver_insert c hdocs hdocsne,
    fun b => b.insert_eq hdocs⟩

/-- A null identifier is replaced where it stands, and a missing one is put first. -/
theorem identified_in_place_and_first :
    let c : Collection := ⟨⟨"app", .primary, none, 1⟩, "people"⟩
    let args : List Value := [.ordered [("n", .bool true), ("_id", .null)], .ordered [("n", .bool false)]]
    c.HandsOver (c.insert Oid.ofNat args)
      [⟨[("n", .boolean true), ("_id", .objectId (.ofNat 0))]⟩,
        ⟨[("_id", .objectId (.ofNat 1)), ("n", .boolean false)]⟩] := by
  intro c args
  have hlift : ∀ a ∈ args, ∃ doc, liftDocument a = .ok doc := by
    simp only [args, List.forall_mem_cons]
    exact ⟨⟨_, rfl⟩, ⟨_, rfl⟩, nofun⟩
  obtain ⟨handed, hargs, hands, -⟩ := inserted_identified.2 Value Oid.ofNat args (List.cons_ne_nil _ _) hlift
  obtain ⟨doc, hdoc, hfirst⟩ := hargs.each 0 _ rfl
  obtain ⟨doc', hdoc', hsecond⟩ := hargs.each 1 _ rfl
  cases hdoc
  cases hdoc'
  obtain ⟨first, second, rfl⟩ : ∃ first second, handed = [first, second] := List.length_eq_two.mp hargs.length
  cases hfirst
  cases hsecond
  exact hands c

end Handing
end DocClient
