import DocClient.Proofs.Fields
import DocClient.Proofs.Wire.Request

/-! Results that come in batches. Main statement: `exists_plays_pull`, by which a cursor gives the documents
of a result in their order, however the server cuts the result into batches. -/
namespace DocClient

/-- The batch in a reply, under the name that it goes by. -/
def Reply.batch (reply : Reply) (name : String) : Except Error Batch :=
  reply.success >>= readReply (readBatch name)

theorem Reply.failsOnly_batch (reply : Reply) (name : String) : FailsOnly Error.OfExchange (reply.batch name) :=
  reply.failsOnly_success.bind fun _ => failsOnly_readReply _ _

/-- A command that asks for a further batch. -/
def Command.AsksForMore (k : Command) : Prop := ∃ id, k.body.fields.head? = some ("getMore", .int64 id)

/-- `Yields id here replies docs`: the documents `here` and those of the further batches that the replies
bring are `docs`. Further batches come as long as the cursor has an identifier. -/
inductive Yields : Int64 → List Document → List Reply → List Document → Prop
  | last (here : List Document) : Yields 0 here [] here
  | more {id : Int64} (here : List Document) {reply : Reply} {batch : Batch} {replies : List Reply}
      {docs : List Document} (open_ : id ≠ 0) (next : reply.batch "nextBatch" = .ok batch)
      (rest : Yields batch.id batch.documents replies docs) : Yields id here (reply :: replies) (here ++ docs)

theorem Yields.cons {id : Int64} {here docs : List Document} {replies : List Reply}
    (h : Yields id here replies docs) (doc : Document) : Yields id (doc :: here) replies (doc :: docs) := by
  cases h with
  | last => exact .last (doc :: here)
  | more _ open_ next rest => exact .more (doc :: here) open_ next rest

/-- How many of the replies that follow a batch belong to it, and what they bring, is settled by the replies. -/
theorem Yields.unique {id : Int64} {here docs docs' : List Document} {replies replies' after after' : List Reply}
    (h : Yields id here replies docs) (h' : Yields id here replies' docs') (heq : replies ++ after = replies' ++ after') :
    replies = replies' ∧ docs = docs' := by
  induction h generalizing replies' docs' with
  | last here =>
    cases h' with
    | last => exact ⟨rfl, rfl⟩
    | more _ open_ => exact absurd rfl open_
  | more here open_ next rest ih =>
    cases h' with
    | last => exact absurd rfl open_
    | more _ _ next' rest' =>
      obtain ⟨rfl, hafter⟩ := List.cons.inj heq
      obtain rfl := Except.ok.inj (next.symm.trans next')
      obtain ⟨rfl, rfl⟩ := ih rest' hafter
      exact ⟨rfl, rfl⟩

/-- The first reply and those that follow it bring some documents. -/
def Reply.Opens (reply : Reply) (replies : List Reply) (docs : List Document) : Prop :=
  ∃ batch, reply.batch "firstBatch" = .ok batch ∧ Yields batch.id batch.documents replies docs

theorem Reply.Opens.unique {reply : Reply} {replies replies' after after' : List Reply} {docs docs' : List Document}
    (h : reply.Opens replies docs) (h' : reply.Opens replies' docs') (heq : replies ++ after = replies' ++ after') :
    replies = replies' ∧ docs = docs' := by
  obtain ⟨batch, hbatch, hyields⟩ := h
  obtain ⟨batch', hbatch', hyields'⟩ := h'
  obtain rfl := Except.ok.inj (hbatch.symm.trans hbatch')
  exact hyields.unique hyields' heq

theorem Database.openCursor_eq_ask (db : Database) (limit : Deadline) (body : Document)
    (readPreference : ReadPreference) (batchSize : Option UInt32) :
    db.openCursor limit body readPreference batchSize =
      Call.ask (db.sent readPreference body) limit fun reply =>
        (reply.batch "firstBatch").map (Cursor.ofBatch batchSize db.rounds) := by
  unfold openCursor
  simp only [command_eq_ask]
  have hread : (fun reply => Call.settled (readReply (readBatch "firstBatch") reply) >>= fun batch =>
      (pure (.ofBatch batchSize db.rounds batch) : Call Cursor)) = fun reply =>
        Call.settled ((readReply (readBatch "firstBatch") reply).map (.ofBatch batchSize db.rounds)) := by
    funext reply
    cases readReply (readBatch "firstBatch") reply <;> rfl
  rw [hread, Call.ask_bind_settled]
  refine congrArg _ (funext fun reply => ?_)
  unfold Reply.batch
  cases reply.success <;> rfl

namespace Cursor

variable {c : Cursor} {rounds : Nat}

theorem readNext_receive (reply : Reply) : readNext (Call.receive reply) = reply.batch "nextBatch" := by
  unfold readNext Reply.batch Reply.success
  cases Call.receive reply with
  | error e => rfl
  | ok doc =>
    simp only [bind, Except.bind]
    cases checkSuccess doc <;> rfl

theorem check_nextBatch (c : Cursor) : c.nextBatch.check = .ok () := by
  have hpairs : Document.ofPairs [("getMore", .int64 c.id), ("collection", .string c.collection)] =
      ⟨[("getMore", .int64 c.id), ("collection", .string c.collection)]⟩ :=
    congrArg Document.mk (Fields.collect_of_nodup (show ["getMore", "collection"].Nodup by decide))
  have hfirst : (⟨[("getMore", .int64 c.id), ("collection", .string c.collection)]⟩ : Document).isWritable =
      true := by
    have hterm : Bson.isTerminable "getMore" = true ∧ Bson.isTerminable "collection" = true := by decide
    simp [Document.isWritable, Bson.fieldsWritable, Bson.isWritable, hterm]
  have hw : c.nextBatch.body.isWritable = true := by
    unfold nextBatch
    rw [hpairs]
    refine Document.isWritable_putSome hfirst (by decide) ?_
    intro v hv
    obtain ⟨n, -, rfl⟩ := Option.map_eq_some_iff.mp hv
    rfl
  have hne : c.nextBatch.body.fields ≠ [] := by
    unfold nextBatch
    rw [hpairs]
    exact Document.fields_putSome_ne_nil (by simp)
  simp [Command.check, Document.isEmpty, hw, hne]

theorem asksForMore_nextBatch (c : Cursor) : c.nextBatch.written.AsksForMore := by
  refine ⟨c.id, ?_⟩
  unfold nextBatch
  cases c.batchSize.filter (· ≠ 0) <;> rfl

theorem pullWithin_of_cons {doc : Document} {rest : List Document} (h : c.batch = doc :: rest) :
    c.pullWithin rounds = .done (.ok (some doc), { c with batch := rest }) := by
  unfold pullWithin
  rw [h]

theorem pullWithin_of_ended (h : c.batch = []) (hid : c.id = 0) :
    c.pullWithin rounds = .done (.ok none, c) := by
  unfold pullWithin
  rw [h]
  simp [hid]

theorem pullWithin_of_open (h : c.batch = []) (hid : c.id ≠ 0) (rounds : Nat) :
    c.pullWithin (rounds + 1) = .send c.nextBatch.written .short fun reply =>
      match reply.batch "nextBatch" with
      | .ok batch => (c.refill batch).pullWithin rounds
      | .error e => .done (.error e, c) := by
  have hsend : (Call.send c.nextBatch .short).run =
      .send c.nextBatch.written .short fun reply => .done (Call.receive reply) := by
    unfold Call.send
    rw [check_nextBatch]
    rfl
  rw [pullWithin, h]
  dsimp only
  rw [if_neg hid, hsend]
  refine congrArg (Program.send _ _) (funext fun reply => ?_)
  cases hreply : reply.batch "nextBatch" <;> simp [readNext_receive, hreply]

/-- A pull gives the first of the documents that are to come, and leaves a cursor to the others. At the end
every reply was asked for. -/
theorem exists_plays_pull {replies : List Reply} {docs : List Document}
    (h : Yields c.id c.batch replies docs) (hrounds : replies.length ≤ rounds) :
    ∃ log d rest, (c.pullWithin rounds).Plays log (.ok docs.head?, d) ∧
      replies = log.map Exchange.reply ++ rest ∧ Yields d.id d.batch rest docs.tail ∧
      d.rounds = c.rounds ∧ (docs = [] → rest = []) := by
  -- By induction on the batches that are to come, over whatever cursor is at that place.
  generalize hid : c.id = id at h
  generalize hbatch : c.batch = here at h
  induction h generalizing c rounds with
  | last here =>
    cases here with
    | nil =>
      rw [pullWithin_of_ended hbatch hid]
      refine ⟨[], c, [], .done _, rfl, ?_, rfl, fun _ => rfl⟩
      rw [hid, hbatch]
      exact .last []
    | cons doc rest =>
      rw [pullWithin_of_cons hbatch]
      refine ⟨[], _, [], .done _, rfl, ?_, rfl, nofun⟩
      rw [hid]
      exact .last rest
  | @more id here reply batch replies docs open_ next rest ih =>
    cases here with
    | nil =>
      obtain ⟨rounds, rfl⟩ := Nat.exists_eq_succ_of_ne_zero (n := rounds) (by simp at hrounds; omega)
      rw [pullWithin_of_open hbatch (hid ▸ open_)]
      obtain ⟨log, d, left, hplays, rfl, hyields, hsame, hend⟩ :=
        ih (c := c.refill batch) (Nat.le_of_succ_le_succ hrounds) rfl rfl
      refine ⟨⟨c.nextBatch.written, .short, reply⟩ :: log, d, left, ?_, rfl, hyields, hsame, hend⟩
      refine .send reply ?_
      rw [next]
      exact hplays
    | cons doc here =>
      rw [pullWithin_of_cons hbatch]
      refine ⟨[], _, reply :: replies, .done _, rfl, ?_, rfl, nofun⟩
      rw [hid]
      exact .more here open_ next rest

/-- A pull by its exchanges: it gives the next document at hand, or asks for batches until there is one, the
result has ended or a reply cannot be read. -/
inductive Pulls : Cursor → List Exchange → Except Error (Option Document) → Cursor → Prop
  | document {c : Cursor} {doc : Document} {rest : List Document} (batch : c.batch = doc :: rest) :
      Pulls c [] (.ok (some doc)) { c with batch := rest }
  | ended {c : Cursor} (batch : c.batch = []) (id : c.id = 0) : Pulls c [] (.ok none) c
  | more {c d : Cursor} {reply : Reply} {batch : Batch} {log : List Exchange}
      {outcome : Except Error (Option Document)} (empty : c.batch = []) (open_ : c.id ≠ 0)
      (next : reply.batch "nextBatch" = .ok batch) (rest : Pulls (c.refill batch) log outcome d) :
      Pulls c (⟨c.nextBatch.written, .short, reply⟩ :: log) outcome d
  | failed {c : Cursor} {reply : Reply} {e : Error} (empty : c.batch = []) (open_ : c.id ≠ 0)
      (next : reply.batch "nextBatch" = .error e) : Pulls c [⟨c.nextBatch.written, .short, reply⟩] (.error e) c

section Pulling

variable {d : Cursor} {log : List Exchange} {outcome : Except Error (Option Document)}

theorem pulls_of_plays (h : (c.pullWithin rounds).Plays log (outcome, d)) : Pulls c log outcome d := by
  induction rounds using Nat.strongRecOn generalizing c log with
  | _ rounds ih =>
    cases hbatch : c.batch with
    | cons doc rest =>
      rw [pullWithin_of_cons hbatch] at h
      obtain ⟨rfl, hresult⟩ := Program.plays_done.mp h
      cases hresult
      exact .document hbatch
    | nil =>
      by_cases hid : c.id = 0
      · rw [pullWithin_of_ended hbatch hid] at h
        obtain ⟨rfl, hresult⟩ := Program.plays_done.mp h
        cases hresult
        exact .ended hbatch hid
      cases rounds with
      | zero =>
        unfold pullWithin at h
        simp only [hbatch, if_neg hid] at h
        exact absurd h Program.not_plays_exhausted
      | succ rounds =>
        rw [pullWithin_of_open hbatch hid] at h
        obtain ⟨reply, rest, rfl, hrest⟩ := Program.plays_send.mp h
        cases hnext : reply.batch "nextBatch" with
        | error e =>
          rw [hnext] at hrest
          obtain ⟨rfl, hresult⟩ := Program.plays_done.mp hrest
          cases hresult
          exact .failed hbatch hid hnext
        | ok batch =>
          rw [hnext] at hrest
          exact .more hbatch hid hnext (ih rounds (Nat.lt_succ_self _) hrest)

theorem Pulls.failsOnly (h : Pulls c log outcome d) : FailsOnly Error.OfExchange outcome := by
  induction h with
  | document batch => exact failsOnly_ok _
  | ended batch id => exact failsOnly_ok _
  | more empty open_ next rest ih => exact ih
  | @failed c reply e empty open_ next => exact failsOnly_error (reply.failsOnly_batch _ e next)

/-- What a pull gave comes before the documents that are still to come. -/
theorem Pulls.yields {found : Option Document} (h : Pulls c log (.ok found) d) :
    (found = none → Yields d.id d.batch [] []) ∧
      ∀ replies docs, Yields d.id d.batch replies docs →
        Yields c.id c.batch (log.map Exchange.reply ++ replies) (found.toList ++ docs) := by
  generalize houtcome : (Except.ok found : Except Error (Option Document)) = outcome at h
  induction h with
  | @document c doc rest batch =>
    cases houtcome
    rw [batch]
    exact ⟨nofun, fun _ _ h => h.cons doc⟩
  | ended batch id =>
    cases houtcome
    rw [batch, id]
    exact ⟨fun _ => .last [], fun _ _ h => h⟩
  | more empty open_ next rest ih =>
    obtain ⟨hend, hyields⟩ := ih houtcome
    rw [empty]
    exact ⟨hend, fun replies docs h => .more [] open_ next (hyields replies docs h)⟩
  | failed => cases houtcome

end Pulling

end Cursor
end DocClient
