import DocClient.Proofs.Outcomes
import DocClient.Proofs.Wire.Transcript
import DocClient.Session.Database

/-! Calls that send one command. Most calls of the library are such a call: the command is made or refused
before anything is sent, and the outcome is read off the one reply. -/
namespace DocClient

namespace Call

variable {α β : Type}

/-- Sends a command, if it could be made, and reads the reply. -/
def ask (command : Except Error Command) (limit : Deadline) (read : Reply → Except Error α) : Call α :=
  ExceptT.mk <|
    match command with
    | .error e => .done (.error e)
    | .ok command => .send command limit fun reply => .done (read reply)

theorem run_bind (c : Call α) (f : α → Call β) :
    (c >>= f).run = c.run.bind fun
      | .ok a => (f a).run
      | .error e => .done (.error e) := by
  refine congrArg c.run.bind (funext fun outcome => ?_)
  cases outcome <;> rfl

/-- A program that cannot fail is carried out first. -/
theorem run_lift_bind (q : Program α) (f : α → Call β) :
    (ExceptT.lift q >>= f).run = q.bind fun a => (f a).run := by
  rw [run_bind]
  exact Program.bind_assoc _ _ _

@[simp] theorem settled_ok_bind (a : α) (f : α → Call β) : (settled (.ok a) >>= f) = f a := rfl

/-- A call in two parts fails in the first part, or goes on with what the first part gave. -/
theorem plays_bind {c : Call α} {f : α → Call β} {log : List Exchange} {r : Except Error β} :
    (c >>= f).run.Plays log r ↔
      (∃ e, c.run.Plays log (.error e) ∧ r = .error e) ∨
      ∃ a first rest, log = first ++ rest ∧ c.run.Plays first (.ok a) ∧ (f a).run.Plays rest r := by
  rw [run_bind, Program.plays_bind]
  constructor
  · rintro ⟨outcome, first, rest, rfl, hc, hf⟩
    cases outcome with
    | error e =>
      obtain ⟨rfl, rfl⟩ := Program.plays_done.mp hf
      exact .inl ⟨e, by simpa using hc, rfl⟩
    | ok a => exact .inr ⟨a, first, rest, rfl, hc, hf⟩
  · rintro (⟨e, hc, rfl⟩ | ⟨a, first, rest, rfl, hc, hf⟩)
    · exact ⟨.error e, log, [], by simp, hc, .done _⟩
    · exact ⟨.ok a, first, rest, rfl, hc, hf⟩

/-- A call in two parts succeeds when both parts do. -/
theorem plays_bind_ok {c : Call α} {f : α → Call β} {log : List Exchange} {b : β} :
    (c >>= f).run.Plays log (.ok b) ↔
      ∃ a first rest, log = first ++ rest ∧ c.run.Plays first (.ok a) ∧ (f a).run.Plays rest (.ok b) := by
  rw [plays_bind]
  constructor
  · rintro (⟨e, -, he⟩ | h)
    · cases he
    · exact h
  · exact .inr

/-- A call whose second part sends nothing exchanges what its first part does. -/
theorem exists_plays_of_unsent {c : Call α} {f : α → Call β} (hf : ∀ a, ∃ outcome, (f a).run = .done outcome)
    {log : List Exchange} {b : β} (h : (c >>= f).run.Plays log (.ok b)) : ∃ a, c.run.Plays log (.ok a) := by
  obtain ⟨a, first, rest, rfl, hc, hrest⟩ := plays_bind_ok.mp h
  obtain ⟨outcome, hdone⟩ := hf a
  rw [hdone] at hrest
  obtain ⟨rfl, -⟩ := Program.plays_done.mp hrest
  exact ⟨a, by rwa [List.append_nil]⟩

/-- What is settled already ends a call, or the call goes on with it. -/
theorem plays_settled_bind {outcome : Except Error α} {f : α → Call β} {log : List Exchange}
    {r : Except Error β} :
    (settled outcome >>= f).run.Plays log r ↔
      (∃ e, outcome = .error e ∧ log = [] ∧ r = .error e) ∨ ∃ a, outcome = .ok a ∧ (f a).run.Plays log r := by
  cases outcome with
  | ok a =>
    constructor
    · exact fun h => .inr ⟨a, rfl, h⟩
    · rintro (⟨e, he, -⟩ | ⟨a', ha, h⟩)
      · cases he
      · cases ha
        exact h
  | error e =>
    constructor
    · intro h
      obtain ⟨rfl, rfl⟩ := Program.plays_done.mp h
      exact .inl ⟨e, rfl, rfl, rfl⟩
    · rintro (⟨e', he, rfl, rfl⟩ | ⟨a, ha, -⟩)
      · cases he
        exact .done _
      · cases ha

/-- What is settled already must not be an error if a call is to succeed. -/
theorem plays_settled_bind_ok {outcome : Except Error α} {f : α → Call β} {log : List Exchange} {b : β} :
    (settled outcome >>= f).run.Plays log (.ok b) ↔ ∃ a, outcome = .ok a ∧ (f a).run.Plays log (.ok b) := by
  cases outcome with
  | ok a => exact ⟨fun h => ⟨a, rfl, h⟩, fun ⟨_, ha, h⟩ => Except.ok.inj ha ▸ h⟩
  | error e =>
    constructor
    · intro h
      cases (Program.plays_done.mp h).2
    · rintro ⟨a, ha, -⟩
      cases ha

theorem plays_ask {command : Except Error Command} {limit : Deadline} {read : Reply → Except Error α}
    {log : List Exchange} {r : Except Error α} :
    (ask command limit read).run.Plays log r ↔
      (∃ e, command = .error e ∧ log = [] ∧ r = .error e) ∨
      ∃ k reply, command = .ok k ∧ log = [⟨k, limit, reply⟩] ∧ r = read reply := by
  cases command with
  | error e =>
    constructor
    · intro h
      obtain ⟨rfl, rfl⟩ := Program.plays_done.mp h
      exact .inl ⟨e, rfl, rfl, rfl⟩
    · rintro (⟨e', he, rfl, rfl⟩ | ⟨k, reply, hk, -⟩)
      · cases he
        exact .done _
      · cases hk
  | ok k =>
    constructor
    · intro h
      obtain ⟨reply, rest, rfl, hrest⟩ := Program.plays_send.mp h
      obtain ⟨rfl, rfl⟩ := Program.plays_done.mp hrest
      exact .inr ⟨k, reply, rfl, rfl, rfl⟩
    · rintro (⟨e, he, -⟩ | ⟨k', reply, hk, rfl, rfl⟩)
      · cases he
      · cases hk
        exact .send reply (.done _)

theorem length_of_plays_ask {command : Except Error Command} {limit : Deadline} {read : Reply → Except Error α}
    {log : List Exchange} {a : α} (h : (ask command limit read).run.Plays log (.ok a)) : log.length = 1 := by
  obtain ⟨e, -, -, he⟩ | ⟨k, reply, -, rfl, -⟩ := plays_ask.mp h
  · cases he
  · rfl

/-- A call that asks first ends unsent, or goes on with what the reply says. -/
theorem plays_ask_bind {command : Except Error Command} {limit : Deadline} {read : Reply → Except Error α}
    {f : α → Call β} {log : List Exchange} {r : Except Error β} :
    (ask command limit read >>= f).run.Plays log r ↔
      (∃ e, command = .error e ∧ log = [] ∧ r = .error e) ∨
      ∃ k reply rest, command = .ok k ∧ log = ⟨k, limit, reply⟩ :: rest ∧
        (settled (read reply) >>= f).run.Plays rest r := by
  cases command with
  | error e =>
    constructor
    · intro h
      obtain ⟨rfl, rfl⟩ := Program.plays_done.mp h
      exact .inl ⟨e, rfl, rfl, rfl⟩
    · rintro (⟨e', he, rfl, rfl⟩ | ⟨k, reply, rest, hk, -⟩)
      · cases he
        exact .done _
      · cases hk
  | ok k =>
    constructor
    · intro h
      obtain ⟨reply, rest, rfl, hrest⟩ := Program.plays_send.mp h
      exact .inr ⟨k, reply, rest, rfl, rfl, hrest⟩
    · rintro (⟨e, he, -⟩ | ⟨k', reply, rest, hk, rfl, hrest⟩)
      · cases he
      · cases hk
        exact .send reply hrest

theorem ask_bind_settled (command : Except Error Command) (limit : Deadline)
    (read : Reply → Except Error α) (f : α → Except Error β) :
    (ask command limit read >>= fun a => settled (f a)) =
      ask command limit fun reply => read reply >>= f := by
  cases command with
  | error e => rfl
  | ok k =>
    refine congrArg (Program.send k limit) (funext fun reply => ?_)
    simp only [Program.done_bind]
    cases read reply <;> rfl

theorem ask_bind_pure (command : Except Error Command) (limit : Deadline)
    (read : Reply → Except Error α) (f : α → β) :
    (ask command limit read >>= fun a => pure (f a)) =
      ask command limit fun reply => (read reply).map f := by
  refine (ask_bind_settled command limit read fun a => .ok (f a)).trans ?_
  refine congrArg _ (funext fun reply => ?_)
  cases read reply <;> rfl

theorem settled_bind_ask (outcome : Except Error α) (command : α → Except Error Command)
    (limit : Deadline) (read : Reply → Except Error β) :
    (settled outcome >>= fun a => ask (command a) limit read) = ask (outcome >>= command) limit read := by
  cases outcome <;> rfl

end Call

/-- The document of a reply that says that the command succeeded. -/
def Reply.success (reply : Reply) : Except Error Document := do
  let doc ← Call.receive reply
  checkSuccess doc
  return doc

/-- An error of an exchange: something below the library has failed, or the deadline has passed. -/
def Error.OfExchange (e : Error) : Prop := e.kind = .transport ∨ e.kind = .timeout

theorem Error.OfExchange.transport (failure : Failure) : (Error.transport failure).OfExchange := .inl rfl

theorem Error.OfExchange.ne_notFound {e : Error} (h : e.OfExchange) : e ≠ .notFound := by
  rintro rfl
  obtain h | h := h <;> cases h

theorem failsOnly_readReply {α β : Type} (read : β → Except DecodeCause α) (reply : β) :
    FailsOnly Error.OfExchange (readReply read reply) := by
  unfold readReply
  cases read reply with
  | ok a => exact failsOnly_ok a
  | error cause => exact failsOnly_error (.transport _)

theorem Call.failsOnly_receive (reply : Reply) : FailsOnly Error.OfExchange (Call.receive reply) := by
  cases reply with
  | document doc => exact failsOnly_ok _
  | dropped => exact failsOnly_error (.transport _)
  | unanswered => exact failsOnly_error (.inr rfl)
  | refused => exact failsOnly_error (.transport _)

theorem failsOnly_checkSuccess (doc : Document) : FailsOnly Error.OfExchange (checkSuccess doc) := by
  unfold checkSuccess
  split
  · exact failsOnly_error (.transport _)
  · exact failsOnly_ok _
  · split <;> exact failsOnly_error (.transport _)

theorem WriteTrouble.failsOnly_single (trouble : WriteTrouble) : FailsOnly Error.OfExchange trouble.single := by
  obtain ⟨_ | _ | _, _ | _⟩ := trouble
  all_goals first | exact failsOnly_ok _ | exact failsOnly_error (.transport _)

/-- A command that fails is not reported as anything but a failure below the library or a timeout. -/
theorem Reply.failsOnly_success (reply : Reply) : FailsOnly Error.OfExchange reply.success :=
  (Call.failsOnly_receive reply).bind fun doc => (failsOnly_checkSuccess doc).bind fun _ => failsOnly_ok _

namespace Database

/-- The command of a body as it is sent, unless it cannot be written. -/
def sent (db : Database) (readPreference : ReadPreference) (body : Document) : Except Error Command :=
  match (⟨db.name, body, readPreference⟩ : Command).check with
  | .error failure => .error (.transport failure)
  | .ok () => .ok (Command.written ⟨db.name, body, readPreference⟩)

/-- A command that is sent with another read preference is otherwise the same. -/
theorem sent_eq_map (db : Database) (readPreference other : ReadPreference) (body : Document) :
    db.sent other body = (db.sent readPreference body).map fun k => { k with readPreference := other } := by
  have hcheck : Command.check ⟨db.name, body, other⟩ = Command.check ⟨db.name, body, readPreference⟩ := rfl
  unfold sent
  rw [hcheck]
  split <;> rfl

theorem failsOnly_sent (db : Database) (readPreference : ReadPreference) (body : Document) :
    FailsOnly Error.OfExchange (db.sent readPreference body) := by
  unfold sent
  split
  · exact failsOnly_error (.transport _)
  · exact failsOnly_ok _

theorem command_eq_ask (db : Database) (limit : Deadline) (body : Document)
    (readPreference : ReadPreference) :
    db.command limit body readPreference =
      Call.ask (db.sent readPreference body) limit Reply.success := by
  have hsend : Call.send ⟨db.name, body, readPreference⟩ limit =
      Call.ask (db.sent readPreference body) limit Call.receive := by
    unfold Call.send Call.ask sent
    cases Command.check ⟨db.name, body, readPreference⟩ <;> rfl
  have hread : (fun reply => Call.settled (checkSuccess reply) >>= fun _ => (pure reply : Call Document)) =
      fun reply => Call.settled (checkSuccess reply >>= fun _ => .ok reply) := by
    funext reply
    cases checkSuccess reply <;> rfl
  unfold command
  rw [hsend, hread, Call.ask_bind_settled]
  rfl

theorem concernedCommand_eq_ask (db : Database) (limit : Deadline) (body : Document)
    (readPreference : ReadPreference) :
    db.concernedCommand limit body readPreference =
      Call.ask (db.withConcern body >>= db.sent readPreference) limit Reply.success := by
  unfold concernedCommand
  simp only [command_eq_ask]
  exact Call.settled_bind_ask _ _ _ _

end Database
end DocClient
