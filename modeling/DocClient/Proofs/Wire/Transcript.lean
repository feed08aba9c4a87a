import DocClient.Wire.Program

/-! Transcripts of programs: the commands that are sent, what comes back for each, and the result.
Every transcript belongs to some server and every run against a server has one, so what is shown of all
transcripts holds against every server. -/
namespace DocClient

/-- A command that was sent and what came back for it. -/
structure Exchange where
  command : Command
  limit : Deadline
  reply : Reply

namespace Program

variable {α β σ : Type}

theorem bind_assoc {γ : Type} (p : Program α) (f : α → Program β) (g : β → Program γ) :
    (p.bind f).bind g = p.bind fun a => (f a).bind g := by
  induction p with
  | done a => rfl
  | send command limit next ih => simp [ih]
  | exhausted => rfl

/-- `p.Plays log a`: the program exchanges `log` and ends with `a`. -/
inductive Plays : Program α → List Exchange → α → Prop
  | done (a : α) : Plays (.done a) [] a
  | send {command : Command} {limit : Deadline} {next : Reply → Program α} {log : List Exchange} {a : α}
      (reply : Reply) (rest : Plays (next reply) log a) :
      Plays (.send command limit next) (⟨command, limit, reply⟩ :: log) a

@[simp] theorem plays_done {a b : α} {log : List Exchange} :
    (Program.done a).Plays log b ↔ log = [] ∧ b = a := by
  constructor
  · rintro ⟨⟩
    exact ⟨rfl, rfl⟩
  · rintro ⟨rfl, rfl⟩
    exact .done _

@[simp] theorem plays_send {command : Command} {limit : Deadline} {next : Reply → Program α}
    {log : List Exchange} {a : α} :
    (Program.send command limit next).Plays log a ↔
      ∃ reply rest, log = ⟨command, limit, reply⟩ :: rest ∧ (next reply).Plays rest a := by
  constructor
  · rintro (_ | ⟨reply, rest⟩)
    exact ⟨reply, _, rfl, rest⟩
  · rintro ⟨reply, rest, rfl, h⟩
    exact .send reply h

@[simp] theorem not_plays_exhausted {log : List Exchange} {a : α} :
    ¬ (Program.exhausted : Program α).Plays log a := nofun

/-- A sequence exchanges what its first part does and then what its second part does. -/
theorem plays_bind {p : Program α} {f : α → Program β} {log : List Exchange} {b : β} :
    (p.bind f).Plays log b ↔
      ∃ a first rest, log = first ++ rest ∧ p.Plays first a ∧ (f a).Plays rest b := by
  induction p generalizing log with
  | done a =>
    constructor
    · intro h
      exact ⟨a, [], log, rfl, .done a, h⟩
    · rintro ⟨a', first, rest, rfl, hp, hf⟩
      obtain ⟨rfl, rfl⟩ := plays_done.mp hp
      exact hf
  | send command limit next ih =>
    rw [send_bind, plays_send]
    constructor
    · rintro ⟨reply, tail, rfl, h⟩
      obtain ⟨a, first, rest, rfl, hp, hf⟩ := (ih reply).mp h
      exact ⟨a, ⟨command, limit, reply⟩ :: first, rest, rfl, .send reply hp, hf⟩
    · rintro ⟨a, first, rest, rfl, hp, hf⟩
      obtain ⟨reply, tail, rfl, hnext⟩ := plays_send.mp hp
      exact ⟨reply, tail ++ rest, rfl, (ih reply).mpr ⟨a, tail, rest, rfl, hnext, hf⟩⟩
  | exhausted =>
    constructor
    · intro h
      exact absurd h not_plays_exhausted
    · rintro ⟨a, first, rest, -, hp, -⟩
      exact absurd hp not_plays_exhausted

/-- A server that also keeps what was exchanged. -/
def recorded (answer : Command → Deadline → σ → Reply × σ) :
    Command → Deadline → σ × List Exchange → Reply × (σ × List Exchange) :=
  fun command limit s =>
    ((answer command limit s.1).1, (answer command limit s.1).2,
      s.2 ++ [⟨command, limit, (answer command limit s.1).1⟩])

/-- What a server recorded in a run is a transcript of the program. -/
theorem plays_of_run (answer : Command → Deadline → σ → Reply × σ) {p : Program α} {a : α}
    {s s' : σ} {log log' : List Exchange}
    (h : run (recorded answer) p (s, log) = some (a, s', log')) :
    ∃ rest, log' = log ++ rest ∧ p.Plays rest a := by
  induction p generalizing s log with
  | done b =>
    simp only [run, Option.some.injEq, Prod.mk.injEq] at h
    obtain ⟨rfl, -, rfl⟩ := h
    exact ⟨[], by simp, .done b⟩
  | send command limit next ih =>
    obtain ⟨rest, rfl, hrest⟩ := ih _ h
    exact ⟨⟨command, limit, (answer command limit s).1⟩ :: rest, by simp, .send _ hrest⟩
  | exhausted => simp [run] at h

/-- A server that gives prepared replies one by one. -/
def prepared : Command → Deadline → List Reply → Reply × List Reply :=
  fun _ _ replies => (replies.headD .dropped, replies.tail)

/-- A server gives the replies of some exchanges, and goes from one state to another. -/
def Answers (answer : Command → Deadline → σ → Reply × σ) : σ → List Exchange → σ → Prop
  | s, [], s' => s' = s
  | s, x :: log, s' =>
    (answer x.command x.limit s).1 = x.reply ∧ Answers answer (answer x.command x.limit s).2 log s'

/-- A transcript is what a server records that gives its replies. -/
theorem Plays.run_of_answers {answer : Command → Deadline → σ → Reply × σ} {p : Program α}
    {log : List Exchange} {a : α} (h : p.Plays log a) {s s' : σ} (hanswers : Answers answer s log s')
    (before : List Exchange) :
    run (recorded answer) p (s, before) = some (a, s', before ++ log) := by
  induction h generalizing s before with
  | done a =>
    obtain rfl := hanswers
    simp [run]
  | @send command limit next log a reply rest ih =>
    obtain ⟨hreply, hrest⟩ := hanswers
    dsimp only at hreply hrest
    rw [run]
    simp only [recorded, hreply]
    rw [ih hrest (before ++ [Exchange.mk command limit reply]), List.append_assoc, List.singleton_append]

theorem answers_prepared (log : List Exchange) (rest : List Reply) :
    Answers prepared (log.map Exchange.reply ++ rest) log rest := by
  induction log with
  | nil => rfl
  | cons x log ih => exact ⟨rfl, ih⟩

/-- The prepared replies that a transcript does not need are left. -/
theorem Plays.run_prepared {p : Program α} {log : List Exchange} {a : α} (h : p.Plays log a)
    (rest : List Reply) :
    run (recorded prepared) p (log.map Exchange.reply ++ rest, []) = some (a, rest, log) :=
  h.run_of_answers (answers_prepared log rest) []

/-- A program ends in one way for some replies. -/
theorem Plays.unique {p : Program α} {log log' : List Exchange} {a a' : α} (h : p.Plays log a) (h' : p.Plays log' a')
    (hreplies : log'.map Exchange.reply = log.map Exchange.reply) : log' = log ∧ a' = a := by
  have hrun := h.run_prepared []
  have hrun' := h'.run_prepared []
  rw [hreplies, hrun] at hrun'
  cases hrun'
  exact ⟨rfl, rfl⟩

/-- The transcripts of a program are what servers record when they run it. -/
theorem plays_iff_exists_run {p : Program α} {log : List Exchange} {a : α} :
    p.Plays log a ↔
      ∃ (σ : Type) (answer : Command → Deadline → σ → Reply × σ) (s s' : σ),
        run (recorded answer) p (s, []) = some (a, s', log) := by
  constructor
  · intro h
    exact ⟨_, prepared, _, _, h.run_prepared []⟩
  · rintro ⟨σ, answer, s, s', h⟩
    obtain ⟨rest, rfl, hrest⟩ := plays_of_run answer h
    exact hrest

end Program
end DocClient
