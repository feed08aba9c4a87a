import DocClient.Proofs.Collection.Command

/-! Insertions: what is exchanged for them and when they succeed. Main statements: `plays_insertOne` and
`plays_insertMany`. -/
namespace DocClient

namespace WriteTrouble

theorem insert_eq_ok_iff {trouble : WriteTrouble} : trouble.insert = .ok () ↔ trouble = ⟨none, none⟩ := by
  obtain ⟨_ | _ | ⟨fault, rest⟩, _ | concern⟩ := trouble <;> simp [insert, single]

theorem many_eq_ok_iff {trouble : WriteTrouble} : trouble.many = .ok () ↔ trouble = ⟨none, none⟩ := by
  obtain ⟨_ | faults, _ | concern⟩ := trouble <;> simp [many]

end WriteTrouble

/-- What the reply to an insertion says: how many documents were taken, unless something is wrong. -/
def Reply.inserted (reply : Reply) : Except Error Nat := do
  let doc ← reply.success
  let (n, trouble) ← readReply readWrite doc
  trouble.many
  return n

theorem Reply.inserted_eq_ok_iff {reply : Reply} {n : Nat} :
    reply.inserted = .ok n ↔ (reply.success >>= readReply readWrite) = .ok (n, ⟨none, none⟩) := by
  unfold inserted
  cases hdoc : reply.success with
  | error e => simp [bind, Except.bind]
  | ok doc =>
    cases hread : readReply readWrite doc with
    | error e => simp [bind, Except.bind, hread]
    | ok r =>
      obtain ⟨m, trouble⟩ := r
      cases hmany : trouble.many with
      | error e =>
        have hne : trouble ≠ ⟨none, none⟩ := by
          rintro rfl
          simp [WriteTrouble.many] at hmany
        simp [bind, Except.bind, hread, hmany, hne]
      | ok u =>
        obtain rfl := WriteTrouble.many_eq_ok_iff.mp hmany
        simp [bind, Except.bind, hread, WriteTrouble.many, pure, Except.pure]

def Command.Inserts (k : Command) (c : Collection) (docs : List Document) : Prop :=
  k.IsFor "insert" c ∧ k.insertedInto c = docs

namespace Exchange

/-- The documents that went into a collection, by the word of the server. -/
def taken (x : Exchange) (c : Collection) : List Document :=
  match x.reply.inserted with
  | .ok n => (x.command.insertedInto c).take n
  | .error _ => []

theorem taken_of_not_isFor {x : Exchange} {c : Collection} (h : ¬ x.command.IsFor "insert" c) :
    x.taken c = [] := by
  unfold taken Command.insertedInto
  cases x.reply.inserted <;> simp [h]

theorem taken_of_inserts {x : Exchange} {c : Collection} {docs : List Document} {n : Nat}
    (h : x.command.Inserts c docs) (hreply : x.reply.inserted = .ok n) (hn : docs.length ≤ n) :
    x.taken c = docs := by
  simp [taken, hreply, h.2, List.take_of_length_le hn]

/-- An insertion after which no document is left to insert, by the word of the server. -/
def Completes (x : Exchange) (c : Collection) : Prop :=
  x.command.IsFor "insert" c ∧
    ∃ n, x.reply.inserted = .ok n ∧ (x.command.insertedInto c).length ≤ n

end Exchange

namespace Collection

variable {c : Collection} {limit : Deadline}

def insertFields (docs : List Document) : Fields Bson :=
  [("documents", .array (docs.map .ofDocument)), ("ordered", .boolean true)]

theorem inserts_of_writeCommand {docs : List Document} {k : Command}
    (hk : c.writeCommand "insert" (insertFields docs) = .ok k) :
    k.Inserts c (docs.map Document.written) := by
  have hnames : ("writeConcern" :: "insert" :: Fields.names (insertFields docs)).Nodup := by
    change ["writeConcern", "insert", "documents", "ordered"].Nodup
    decide
  have hfor := isFor_of_writeCommand hnames hk
  have hdocs : k.body.get? "documents" = some (.array ((docs.map Document.written).map .ofDocument)) := by
    rw [get?_of_writeCommand hnames hk (b := .array (docs.map .ofDocument)) rfl]
    simp [Bson.written, Bson.writtenItems_eq_map]
  refine ⟨hfor, ?_⟩
  simp [Command.insertedInto, hfor, Document.documentsUnder, hdocs, List.filterMap_map,
    Function.comp_def]

theorem insertOne_eq_ask (c : Collection) (limit : Deadline) (doc : Document) :
    c.insertOne limit doc =
      Call.ask (Database.checkWritable [doc] >>= fun _ => c.writeCommand "insert" (insertFields [doc]))
        limit fun reply => reply.success >>= readReply readWrite >>= fun (_, trouble) => trouble.insert := by
  unfold insertOne insertBody
  rw [write_eq_ask, Call.ask_bind_settled]
  exact Call.settled_bind_ask _ _ _ _

/-- The exchanges of a single insertion and its outcome. -/
inductive InsertingOne (c : Collection) (doc : Document) : List Exchange → Except Error Unit → Prop
  | unsent (e : Error) : InsertingOne c doc [] (.error e)
  | sent {x : Exchange} {r : Except Error Unit} (sent : x.command.Inserts c [doc])
      (reply : r = .ok () ↔ ∃ n, x.reply.inserted = .ok n) : InsertingOne c doc [x] r

namespace InsertingOne

variable {doc : Document} {log : List Exchange} {r : Except Error Unit}

theorem forall_mem (h : InsertingOne c doc log r) :
    ∀ x ∈ log, x.command.Inserts c [doc] ∧ (r = .ok () ↔ ∃ n, x.reply.inserted = .ok n) := by
  cases h with
  | unsent e => nofun
  | sent sent reply => simpa using ⟨sent, reply⟩

/-- Nothing is inserted unsent. -/
theorem exists_eq_singleton (h : InsertingOne c doc log r) (hr : r = .ok ()) : ∃ x, log = [x] := by
  cases h with
  | unsent e => cases hr
  | @sent x r sent reply => exact ⟨x, rfl⟩

end InsertingOne

theorem plays_insertOne {doc : Document} {log : List Exchange} {r : Except Error Unit}
    (h : (c.insertOne limit doc).run.Plays log r) : InsertingOne c doc.written log r := by
  rw [insertOne_eq_ask, Call.plays_ask] at h
  obtain ⟨e, -, rfl, rfl⟩ | ⟨k, reply, hk, rfl, rfl⟩ := h
  · exact .unsent e
  · refine .sent ?_ ?_
    · obtain ⟨-, -, hsent⟩ := bind_eq_ok_iff.mp hk
      exact inserts_of_writeCommand hsent
    · simp only [Reply.inserted_eq_ok_iff]
      cases reply.success >>= readReply readWrite with
      | error e => simp [bind, Except.bind]
      | ok r =>
        obtain ⟨n, trouble⟩ := r
        simp [bind, Except.bind, WriteTrouble.insert_eq_ok_iff]

/-- The exchanges of an insertion of many documents and its outcome. Every command carries all documents
that the server has not counted yet. -/
inductive Inserting (c : Collection) : List Document → List Exchange → Except Error Unit → Prop
  | unsent (docs : List Document) (e : Error) : Inserting c docs [] (.error e)
  | failed {docs : List Document} {x : Exchange} {e' : Error} (e : Error)
      (sent : x.command.Inserts c docs) (reply : x.reply.inserted = .error e') :
      Inserting c docs [x] (.error e)
  | finished {docs : List Document} {x : Exchange} {n : Nat} (sent : x.command.Inserts c docs)
      (reply : x.reply.inserted = .ok n) (all : docs.length ≤ n) : Inserting c docs [x] (.ok ())
  | more {docs : List Document} {x : Exchange} {n : Nat} {log : List Exchange} {r : Except Error Unit}
      (sent : x.command.Inserts c docs) (reply : x.reply.inserted = .ok n) (some : n < docs.length)
      (rest : Inserting c (docs.drop n) log r) : Inserting c docs (x :: log) r

private theorem plays_insertWithin {rounds : Nat} {docs : List Document} {log : List Exchange}
    {r : Except Error Unit} (h : (c.insertWithin limit rounds docs).run.Plays log r) :
    Inserting c (docs.map Document.written) log r := by
  induction rounds generalizing docs log with
  | zero => exact absurd h Program.not_plays_exhausted
  | succ rounds ih =>
    unfold insertWithin insertBody at h
    rw [write_eq_ask] at h
    obtain ⟨e, hwrite, rfl⟩ | ⟨⟨n, trouble⟩, first, rest, rfl, hwrite, hrest⟩ := Call.plays_bind.mp h
    · obtain ⟨e', -, rfl, he⟩ | ⟨k, reply, hk, rfl, he⟩ := Call.plays_ask.mp hwrite
      · exact .unsent _ e
      · cases hreply : reply.inserted with
        | error e' => exact .failed e (inserts_of_writeCommand hk) hreply
        | ok n =>
          rw [Reply.inserted_eq_ok_iff.mp hreply] at he
          cases he
    · obtain ⟨e', -, -, he⟩ | ⟨k, reply, hk, rfl, he⟩ := Call.plays_ask.mp hwrite
      · cases he
      have hsent := inserts_of_writeCommand hk
      obtain ⟨e, htrouble, rfl⟩ | ⟨u, silent, others, rfl, htrouble, hnext⟩ := Call.plays_bind.mp hrest
      · obtain ⟨rfl, he'⟩ := Program.plays_done.mp htrouble
        cases hreply : reply.inserted with
        | error e' => exact .failed e hsent hreply
        | ok m =>
          rw [Reply.inserted_eq_ok_iff.mp hreply] at he
          cases he
          cases he'
      · obtain ⟨rfl, he'⟩ := Program.plays_done.mp htrouble
        obtain rfl := WriteTrouble.many_eq_ok_iff.mp he'.symm
        have hreply : reply.inserted = .ok n := Reply.inserted_eq_ok_iff.mpr he.symm
        by_cases hn : docs.length ≤ n
        · rw [if_pos hn] at hnext
          obtain ⟨rfl, rfl⟩ := Program.plays_done.mp hnext
          exact .finished hsent hreply (by simpa using hn)
        · rw [if_neg hn] at hnext
          have hothers := ih hnext
          rw [List.map_drop] at hothers
          exact .more hsent hreply (by simpa using hn) hothers

theorem plays_insertMany {docs : List Document} {log : List Exchange} {r : Except Error Unit}
    (h : (c.insertMany limit docs).run.Plays log r) :
    Inserting c (docs.map Document.written) log r := by
  unfold insertMany at h
  cases hw : Database.checkWritable docs with
  | error e =>
    rw [hw] at h
    obtain ⟨rfl, rfl⟩ := Program.plays_done.mp h
    exact .unsent _ e
  | ok u =>
    rw [hw] at h
    exact plays_insertWithin h

namespace Inserting

variable {docs : List Document} {log : List Exchange} {r : Except Error Unit}

theorem forall_mem (h : Inserting c docs log r) :
    ∀ x ∈ log, x.command.IsFor "insert" c ∧ x.command.insertedInto c <:+ docs := by
  induction h with
  | unsent docs e => nofun
  | failed e sent reply =>
    intro x hx
    obtain rfl := List.mem_singleton.mp hx
    exact ⟨sent.1, sent.2 ▸ List.suffix_rfl⟩
  | finished sent reply all =>
    intro x hx
    obtain rfl := List.mem_singleton.mp hx
    exact ⟨sent.1, sent.2 ▸ List.suffix_rfl⟩
  | @more docs y n log r sent reply some rest ih =>
    intro x hx
    obtain rfl | hx := List.mem_cons.mp hx
    · exact ⟨sent.1, sent.2 ▸ List.suffix_rfl⟩
    · obtain ⟨hfor, hsuffix⟩ := ih x hx
      exact ⟨hfor, hsuffix.trans (List.drop_suffix n docs)⟩

/-- Insertion succeeds exactly when one of its exchanges completes it. -/
theorem ok_iff (h : Inserting c docs log r) : r = .ok () ↔ ∃ x ∈ log, x.Completes c := by
  induction h with
  | unsent docs e => simp
  | failed e sent reply => simp [Exchange.Completes, reply]
  | finished sent reply all => simpa [Exchange.Completes, reply, sent.2] using ⟨sent.1, all⟩
  | more sent reply some rest ih =>
    rw [ih]
    simp [Exchange.Completes, reply, sent.2, Nat.not_le.mpr some]

theorem taken_eq (h : Inserting c docs log r) (hr : r = .ok ()) : log.flatMap (·.taken c) = docs := by
  induction h with
  | unsent docs e => cases hr
  | failed e sent reply => cases hr
  | finished sent reply all => simp [Exchange.taken_of_inserts sent reply all]
  | @more docs x n log r sent reply some rest ih =>
    have hx : x.taken c = docs.take n := by simp [Exchange.taken, reply, sent.2]
    rw [List.flatMap_cons, hx, ih hr, List.take_append_drop]

private theorem nil_of_singleton {x y : Exchange} {before after : List Exchange}
    (h : [y] = before ++ x :: after) : after = [] := by
  have hlength := congrArg List.length h
  simp only [List.length_cons, List.length_nil, List.length_append] at hlength
  exact List.eq_nil_of_length_eq_zero (by omega)

theorem nil_of_completes (h : Inserting c docs log r) {before after : List Exchange} {x : Exchange}
    (hlog : log = before ++ x :: after) (hx : x.Completes c) : after = [] := by
  induction h generalizing before with
  | unsent docs e => simp at hlog
  | failed e sent reply =>
    exact nil_of_singleton hlog
  | finished sent reply all =>
    exact nil_of_singleton hlog
  | @more docs y n log r sent reply some rest ih =>
    cases before with
    | nil =>
      obtain ⟨rfl, rfl⟩ := List.cons.inj hlog
      obtain ⟨-, m, hm, hall⟩ := hx
      rw [reply] at hm
      cases hm
      rw [sent.2] at hall
      omega
    | cons z before =>
      obtain ⟨-, hlog⟩ := List.cons.inj hlog
      exact ih hlog

end Inserting

end Collection
end DocClient
