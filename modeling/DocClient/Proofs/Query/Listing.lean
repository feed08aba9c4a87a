import DocClient.Proofs.Wire.Sending
import DocClient.Query.Basic

/-! Results that are read to their end. An iterator over a cursor that ends without an error has given every
document that the replies brought. Main statements: `yields_of_plays_nextValue` and `plays_all`. -/
namespace DocClient

namespace Iter

variable {c : Cursor} {log : List Exchange}

/-- What a call for the next value of an open iterator over a cursor leaves. -/
inductive Pulled (c : Cursor) (log : List Exchange) : Option Value → Iter Cursor → Prop
  | document (doc : Document) {d : Cursor}
      (yields : ∀ replies docs, Yields d.id d.batch replies docs →
        Yields c.id c.batch (log.map Exchange.reply ++ replies) (doc :: docs)) :
      Pulled c log (some (Value.ofDocument doc)) (ofSource d)
  | ended {it : Iter Cursor} (err : it.err = none) (isDone : it.isDone = true)
      (yields : Yields c.id c.batch (log.map Exchange.reply) []) : Pulled c log none it
  | failed {it : Iter Cursor} (e : Error) (err : it.err = some e) : Pulled c log none it

theorem yields_of_plays_nextValue {v : Option Value} {it : Iter Cursor}
    (h : (ofSource c).nextValue.Plays log (v, it)) : Pulled c log v it := by
  obtain ⟨⟨outcome, d⟩, first, rest, rfl, hpull, hdone⟩ := Program.plays_bind.mp h
  obtain ⟨rfl, hresult⟩ := Program.plays_done.mp hdone
  rw [List.append_nil]
  cases outcome with
  | error e =>
    cases hresult
    exact .failed e rfl
  | ok found =>
    obtain ⟨hend, hyields⟩ := (Cursor.pulls_of_plays hpull).yields
    cases found with
    | some doc =>
      cases hresult
      exact .document doc hyields
    | none =>
      cases hresult
      refine .ended rfl rfl ?_
      have hnone := hyields [] [] (hend rfl)
      rwa [List.append_nil] at hnone

/-- An iterator that is drained without an error has given every document. -/
theorem yields_of_plays_drain {rounds : Nat} {vs : List Value} {it : Iter Cursor}
    (h : ((ofSource c).drain rounds).Plays log (vs, it)) (herr : it.err = none) :
    ∃ docs, Yields c.id c.batch (log.map Exchange.reply) docs ∧ vs = docs.map Value.ofDocument := by
  induction rounds generalizing c log vs with
  | zero => exact absurd h Program.not_plays_exhausted
  | succ rounds ih =>
    obtain ⟨⟨v, left⟩, first, rest, rfl, hnext, hrest⟩ := Program.plays_bind.mp h
    cases yields_of_plays_nextValue hnext with
    | document doc yields =>
      obtain ⟨⟨vs', it'⟩, drained, last, rfl, hdrained, hlast⟩ := Program.plays_bind.mp hrest
      obtain ⟨rfl, hresult⟩ := Program.plays_done.mp hlast
      cases hresult
      obtain ⟨docs, hdocs, rfl⟩ := ih hdrained
      refine ⟨doc :: docs, ?_, rfl⟩
      rw [List.append_nil, List.map_append]
      exact yields _ _ hdocs
    | ended err isDone yields =>
      obtain ⟨rfl, hresult⟩ := Program.plays_done.mp hrest
      cases hresult
      exact ⟨[], by rwa [List.append_nil], rfl⟩
    | failed e err =>
      obtain ⟨rfl, hresult⟩ := Program.plays_done.mp hrest
      cases hresult
      cases err.symm.trans herr

/-- An iterator that failed to open asks for nothing and keeps its error. -/
theorem plays_drain_failed {e : Error} {rounds : Nat} {vs : List Value} {it : Iter Cursor}
    (h : ((failed e).drain rounds).Plays log (vs, it)) : log = [] ∧ it.err = some e := by
  cases rounds with
  | zero => exact absurd h Program.not_plays_exhausted
  | succ rounds =>
    obtain ⟨rfl, hresult⟩ := Program.plays_done.mp h
    cases hresult
    exact ⟨rfl, rfl⟩

/-- An iterator gives every document of a result, and every reply is used. -/
theorem exists_plays_drain {replies : List Reply} {docs : List Document} {rounds : Nat}
    (h : Yields c.id c.batch replies docs) (hreplies : replies.length ≤ c.rounds) (hrounds : docs.length < rounds) :
    ∃ log it, ((ofSource c).drain rounds).Plays log (docs.map Value.ofDocument, it) ∧
      log.map Exchange.reply = replies ∧ it.err = none := by
  induction docs generalizing c replies rounds with
  | nil =>
    obtain ⟨rounds, rfl⟩ := Nat.exists_eq_succ_of_ne_zero (Nat.ne_of_gt hrounds)
    obtain ⟨log, d, rest, hpull, rfl, -, -, hend⟩ := Cursor.exists_plays_pull h hreplies
    obtain rfl := hend rfl
    have hnext : (ofSource c).nextValue.Plays log (none, { ofSource d with ended := true }) :=
      Program.plays_bind.mpr ⟨_, log, [], (List.append_nil _).symm, hpull, .done _⟩
    refine ⟨log, { ofSource d with ended := true }, ?_, (List.append_nil _).symm, rfl⟩
    exact Program.plays_bind.mpr ⟨_, log, [], (List.append_nil _).symm, hnext, .done _⟩
  | cons doc docs ih =>
    obtain ⟨rounds, rfl⟩ := Nat.exists_eq_succ_of_ne_zero (n := rounds) (by omega)
    obtain ⟨first, d, rest, hpull, rfl, hyields, hsame, -⟩ := Cursor.exists_plays_pull h hreplies
    have hreplies' : rest.length ≤ d.rounds := by
      rw [List.length_append] at hreplies
      omega
    obtain ⟨log, it, hdrain, rfl, herr⟩ := ih hyields hreplies' (by simpa using hrounds)
    have hnext : (ofSource c).nextValue.Plays first (some (Value.ofDocument doc), ofSource d) :=
      Program.plays_bind.mpr ⟨_, first, [], (List.append_nil _).symm, hpull, .done _⟩
    refine ⟨first ++ log, it, ?_, List.map_append, herr⟩
    refine Program.plays_bind.mpr ⟨_, first, log, rfl, hnext, ?_⟩
    exact Program.plays_bind.mpr ⟨_, log, [], (List.append_nil _).symm, hdrain, .done _⟩

end Iter

namespace Query

variable {q : Query} {log : List Exchange}

/-- The command that asks for all matches, unless it is refused. -/
def listCommand (q : Query) : Except Error Command := do
  q.check
  let body ← q.allBody
  q.collection.database.sent q.collection.database.readPreference body

theorem openCursor_eq_ask (q : Query) :
    q.openCursor = Call.ask q.listCommand .short fun reply =>
      (reply.batch "firstBatch").map (Cursor.ofBatch q.sentBatchSize q.collection.database.rounds) := by
  unfold openCursor
  simp only [Database.openCursor_eq_ask, Call.settled_bind_ask]
  rfl

/-- Opening an iterator is refused, or sends one command and goes over what the reply brings. -/
theorem plays_iter {it : Iter Cursor} (h : q.iter.Plays log it) :
    (∃ e, log = [] ∧ it = .failed e) ∨
      ∃ k reply, q.listCommand = .ok k ∧ log = [⟨k, .short, reply⟩] ∧
        it = .ofOpened ((reply.batch "firstBatch").map
          (Cursor.ofBatch q.sentBatchSize q.collection.database.rounds)) := by
  obtain ⟨opened, first, rest, rfl, hopened, hdone⟩ := Program.plays_bind.mp h
  obtain ⟨rfl, rfl⟩ := Program.plays_done.mp hdone
  rw [List.append_nil]
  rw [openCursor_eq_ask] at hopened
  obtain ⟨e, -, rfl, rfl⟩ | ⟨k, reply, hk, rfl, rfl⟩ := Call.plays_ask.mp hopened
  · exact .inl ⟨e, rfl, rfl⟩
  · exact .inr ⟨k, reply, hk, rfl, rfl⟩

/-- A list of all matches is refused, or asked for by one command and further batches. If it is given without an
error, it has every document that the replies brought. -/
theorem plays_all {α : Type} [Destination α] {previous held : List α} {outcome : Except Error Unit}
    (h : (q.all previous).Plays log (outcome, held)) :
    (∃ e, log = [] ∧ outcome = .error e) ∨
      ∃ k reply rest, q.listCommand = .ok k ∧ log = ⟨k, .short, reply⟩ :: rest ∧
        (∀ x ∈ rest, x.command.AsksForMore) ∧
        (outcome = .ok () → ∃ docs, reply.Opens (rest.map Exchange.reply) docs ∧
          decodeEachInto (docs.map Value.ofDocument) previous = (.ok (), held)) := by
  obtain ⟨it, opening, rest, rfl, hiter, hrest⟩ := Program.plays_bind.mp h
  obtain ⟨⟨outcome', held', it'⟩, listing, last, rfl, hall, hlast⟩ := Program.plays_bind.mp hrest
  obtain ⟨rfl, hresult⟩ := Program.plays_done.mp hlast
  cases hresult
  rw [List.append_nil]
  obtain ⟨⟨vs, left⟩, drained, closing, rfl, hdrain, hclose⟩ := Program.plays_bind.mp hall
  have hmore : ∀ x ∈ drained, x.command.AsksForMore :=
    (Iter.sendsOnly_drain (fun c => Cursor.sendsOnly_pullWithin Cursor.asksForMore_nextBatch _ c) _ it).of_plays hdrain
  have hclosed : closing = [] ∧ ((∃ e, left.err = some e ∧ outcome = .error e) ∨
      left.err = none ∧ decodeEachInto vs previous = (outcome, held)) := by
    obtain ⟨source, _ | e, ended⟩ := left
    · obtain ⟨rfl, hresult⟩ := Program.plays_done.mp hclose
      obtain ⟨houtcome, hheld⟩ := Prod.mk.inj hresult
      exact ⟨rfl, .inr ⟨rfl, Prod.ext houtcome.symm (congrArg Prod.fst hheld).symm⟩⟩
    · obtain ⟨rfl, hresult⟩ := Program.plays_done.mp hclose
      exact ⟨rfl, .inl ⟨e, rfl, (Prod.mk.inj hresult).1⟩⟩
  obtain ⟨rfl, hclosed⟩ := hclosed
  rw [List.append_nil]
  obtain ⟨e, rfl, rfl⟩ | ⟨k, reply, hk, rfl, rfl⟩ := plays_iter hiter
  · obtain ⟨rfl, herr⟩ := Iter.plays_drain_failed hdrain
    obtain ⟨e', -, rfl⟩ | ⟨herr', -⟩ := hclosed
    · exact .inl ⟨e', rfl, rfl⟩
    · cases herr.symm.trans herr'
  · refine .inr ⟨k, reply, drained, hk, rfl, hmore, ?_⟩
    rintro rfl
    obtain ⟨e, -, he⟩ | ⟨herr, hdecoded⟩ := hclosed
    · cases he
    cases hbatch : reply.batch "firstBatch" with
    | error e =>
      rw [hbatch] at hdrain
      cases (Iter.plays_drain_failed hdrain).2.symm.trans herr
    | ok batch =>
      rw [hbatch] at hdrain
      obtain ⟨docs, hdocs, rfl⟩ := Iter.yields_of_plays_drain hdrain herr
      exact ⟨docs, ⟨batch, hbatch, hdocs⟩, hdecoded⟩

/-- A list of all matches is given once every batch has come. -/
theorem exists_plays_all {α : Type} [Destination α] (previous : List α) {k : Command} {reply : Reply}
    {replies : List Reply} {docs : List Document} (hk : q.listCommand = .ok k) (hopens : reply.Opens replies docs)
    (hreplies : replies.length ≤ q.collection.database.rounds)
    (hrounds : docs.length < q.collection.database.rounds) :
    ∃ rest, (q.all previous).Plays (⟨k, .short, reply⟩ :: rest) (decodeEachInto (docs.map Value.ofDocument) previous) ∧
      rest.map Exchange.reply = replies := by
  obtain ⟨batch, hbatch, hyields⟩ := hopens
  obtain ⟨log, left, hdrain, hlog, herr⟩ := Iter.exists_plays_drain
    (c := .ofBatch q.sentBatchSize q.collection.database.rounds batch) hyields hreplies hrounds
  have hopened : q.iter.Plays [⟨k, .short, reply⟩]
      (.ofSource (.ofBatch q.sentBatchSize q.collection.database.rounds batch)) := by
    refine Program.plays_bind.mpr ⟨.ok _, [⟨k, .short, reply⟩], [], rfl, ?_, .done _⟩
    rw [openCursor_eq_ask]
    exact Call.plays_ask.mpr (.inr ⟨k, reply, hk, rfl, by rw [hbatch]; rfl⟩)
  have hclose : left.close = (.ok (), { left with source := none, ended := true }) := by
    unfold Iter.close
    rw [herr]
  refine ⟨log, Program.plays_bind.mpr ⟨_, _, log, rfl, hopened, ?_⟩, hlog⟩
  refine Program.plays_bind.mpr
    ⟨((decodeEachInto (docs.map Value.ofDocument) previous).1, (decodeEachInto (docs.map Value.ofDocument) previous).2,
      { left with source := none, ended := true }), log, [], (List.append_nil _).symm, ?_, .done _⟩
  refine Program.plays_bind.mpr ⟨_, log, [], (List.append_nil _).symm, hdrain, ?_⟩
  dsimp only
  rw [hclose]
  exact .done _

end Query
end DocClient
