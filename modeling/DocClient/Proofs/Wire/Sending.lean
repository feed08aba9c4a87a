import DocClient.Proofs.Wire.Cursor
import DocClient.Query.Iter

/-! What commands a program may send at all, whatever comes back. A program that ends at once sends none;
the transcripts of a program only hold commands that it may send. -/
namespace DocClient

namespace Program

variable {α β : Type} {P Q : Command → Prop} {p : Program α}

/-- Whatever comes back, the program sends only commands of a sort. -/
def SendsOnly (P : Command → Prop) : Program α → Prop
  | .done _ => True
  | .send command _ next => P command ∧ ∀ reply, (next reply).SendsOnly P
  | .exhausted => True

theorem SendsOnly.mono (h : p.SendsOnly P) (hPQ : ∀ k, P k → Q k) : p.SendsOnly Q := by
  induction p with
  | done a => trivial
  | send command limit next ih => exact ⟨hPQ command h.1, fun reply => ih reply (h.2 reply)⟩
  | exhausted => trivial

theorem SendsOnly.of_forall (h : ∀ k, P k) (p : Program α) : p.SendsOnly P := by
  induction p with
  | done a => trivial
  | send command limit next ih => exact ⟨h command, ih⟩
  | exhausted => trivial

theorem SendsOnly.bind {f : α → Program β} (hp : p.SendsOnly P) (hf : ∀ a, (f a).SendsOnly P) :
    (p.bind f).SendsOnly P := by
  induction p with
  | done a => exact hf a
  | send command limit next ih => exact ⟨hp.1, fun reply => ih reply (hp.2 reply)⟩
  | exhausted => trivial

/-- The first thing that the program does is to send a command of a sort. -/
def Asks (P : Command → Prop) : Program α → Prop
  | .send command _ _ => P command
  | .done _ | .exhausted => False

theorem Asks.mono (h : p.Asks P) (hPQ : ∀ k, P k → Q k) : p.Asks Q := by
  cases p with
  | send command limit next => exact hPQ command h
  | done a => cases h
  | exhausted => cases h

theorem Asks.bind {f : α → Program β} (h : p.Asks P) : (p.bind f).Asks P := by
  cases p with
  | send command limit next => exact h
  | done a => cases h
  | exhausted => cases h

/-- The command that a program sends first is one of those that it may send. -/
theorem Asks.and_sendsOnly (h : p.Asks P) (hsends : p.SendsOnly Q) : p.Asks fun k => P k ∧ Q k := by
  cases p with
  | send command limit next => exact ⟨h, hsends.1⟩
  | done a => cases h
  | exhausted => cases h

theorem Asks.exists_of_plays {log : List Exchange} {a : α} (h : p.Asks P) (hplays : p.Plays log a) :
    ∃ x ∈ log, P x.command := by
  cases hplays with
  | done a => cases h
  | send reply rest => exact ⟨_, List.mem_cons_self, h⟩

theorem SendsOnly.of_plays (h : p.SendsOnly P) {log : List Exchange} {a : α} (hplays : p.Plays log a) :
    ∀ x ∈ log, P x.command := by
  induction hplays with
  | done a => simp
  | send reply rest ih => exact List.forall_mem_cons.mpr ⟨h.1, ih (h.2 reply)⟩

end Program

namespace Call

variable {α β : Type} {P : Command → Prop}

theorem sendsOnly_bind {c : Call α} {f : α → Call β} (hc : c.run.SendsOnly P)
    (hf : ∀ a, (f a).run.SendsOnly P) : (c >>= f).run.SendsOnly P := by
  rw [run_bind]
  apply Program.SendsOnly.bind hc
  intro outcome
  cases outcome with
  | ok a => exact hf a
  | error e => trivial

theorem sendsOnly_settled_bind {outcome : Except Error α} {f : α → Call β}
    (h : ∀ a, outcome = .ok a → (f a).run.SendsOnly P) : (settled outcome >>= f).run.SendsOnly P := by
  cases outcome with
  | ok a => exact h a rfl
  | error e => trivial

theorem sendsOnly_ask {command : Except Error Command} {limit : Deadline} {read : Reply → Except Error α}
    (h : ∀ k, command = .ok k → P k) : (ask command limit read).run.SendsOnly P := by
  cases command with
  | ok k => exact ⟨h k rfl, fun _ => trivial⟩
  | error e => trivial

theorem asks_bind {c : Call α} {f : α → Call β} (h : c.run.Asks P) : (c >>= f).run.Asks P := by
  rw [run_bind]
  exact h.bind

theorem asks_settled_bind {outcome : Except Error α} {a : α} {f : α → Call β} (h : outcome = .ok a)
    (hf : (f a).run.Asks P) : (settled outcome >>= f).run.Asks P := by
  subst h
  exact hf

theorem asks_ask {command : Except Error Command} {k : Command} {limit : Deadline} {read : Reply → Except Error α}
    (h : command = .ok k) (hk : P k) : (ask command limit read).run.Asks P := by
  subst h
  exact hk

end Call

section Reading

variable {σ α : Type} {P : Command → Prop}

theorem Cursor.sendsOnly_pullWithin (h : ∀ c : Cursor, P c.nextBatch.written) (rounds : Nat) (c : Cursor) :
    (c.pullWithin rounds).SendsOnly P := by
  induction rounds generalizing c with
  | zero =>
    unfold pullWithin
    split
    · trivial
    · split <;> trivial
  | succ rounds ih =>
    cases hbatch : c.batch with
    | cons doc rest =>
      rw [pullWithin_of_cons hbatch]
      trivial
    | nil =>
      by_cases hid : c.id = 0
      · rw [pullWithin_of_ended hbatch hid]
        trivial
      · rw [pullWithin_of_open hbatch hid]
        refine ⟨h c, fun reply => ?_⟩
        dsimp only
        cases reply.batch "nextBatch" with
        | ok batch => exact ih _
        | error e => trivial

variable [Source σ]

/-- Whatever is done with an iterator, it sends no more than its source does. -/
theorem Iter.sendsOnly_nextValue (h : ∀ s : σ, (Source.pull s).SendsOnly P) (it : Iter σ) :
    it.nextValue.SendsOnly P := by
  unfold nextValue
  split
  · trivial
  · split
    · trivial
    · exact (h _).bind fun _ => trivial

theorem Iter.sendsOnly_next (h : ∀ s : σ, (Source.pull s).SendsOnly P) [Destination α] (it : Iter σ)
    (previous : α) : (it.next previous).SendsOnly P := by
  refine (sendsOnly_nextValue h it).bind ?_
  rintro ⟨_ | v, it'⟩
  · trivial
  · dsimp only
    split <;> trivial

theorem Iter.sendsOnly_drain (h : ∀ s : σ, (Source.pull s).SendsOnly P) (rounds : Nat) (it : Iter σ) :
    (it.drain rounds).SendsOnly P := by
  induction rounds generalizing it with
  | zero => trivial
  | succ rounds ih =>
    refine (sendsOnly_nextValue h it).bind ?_
    rintro ⟨_ | v, it'⟩
    · trivial
    · exact (ih it').bind fun _ => trivial

theorem Iter.sendsOnly_all (h : ∀ s : σ, (Source.pull s).SendsOnly P) [Destination α] (rounds : Nat)
    (it : Iter σ) (previous : List α) : (it.all rounds previous).SendsOnly P := by
  refine (sendsOnly_drain h rounds it).bind ?_
  rintro ⟨vs, it'⟩
  dsimp only
  split <;> trivial

end Reading

end DocClient
