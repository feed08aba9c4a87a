import DocClient.Wire.Command

/-!
What an operation does, as a tree: it ends with a result, or sends a command and goes on with what came
back. `Program.run` plays a tree against any server that keeps a state. Loops whose length the server
decides are given a number of rounds; a tree whose rounds are used up ends without a result.
-/
namespace DocClient

inductive Reply
  | document (doc : Document)
  | dropped
  | unanswered
  /-- The client is shut down, and the command was not sent. -/
  | refused
  deriving DecidableEq

inductive Program (α : Type)
  | done (a : α)
  | send (command : Command) (limit : Deadline) (next : Reply → Program α)
  | exhausted

namespace Program

variable {α β σ : Type}

def bind (p : Program α) (f : α → Program β) : Program β :=
  match p with
  | .done a => f a
  | .send command limit next => .send command limit fun reply => (next reply).bind f
  | .exhausted => .exhausted

instance : Monad Program where
  pure := .done
  bind := .bind

/-- Plays a program against a server, from one state to another. -/
def run (answer : Command → Deadline → σ → Reply × σ) : Program α → σ → Option (α × σ)
  | .done a, s => some (a, s)
  | .send command limit next, s =>
    let (reply, s) := answer command limit s
    run answer (next reply) s
  | .exhausted, _ => none

@[simp] theorem pure_eq (a : α) : (pure a : Program α) = .done a := rfl

@[simp] theorem bind_eq (p : Program α) (f : α → Program β) : p >>= f = p.bind f := rfl

@[simp] theorem done_bind (a : α) (f : α → Program β) : (Program.done a).bind f = f a := rfl

@[simp] theorem exhausted_bind (f : α → Program β) :
    (Program.exhausted : Program α).bind f = .exhausted := rfl

@[simp] theorem send_bind (command : Command) (limit : Deadline) (next : Reply → Program α)
    (f : α → Program β) :
    (Program.send command limit next).bind f =
      .send command limit fun reply => (next reply).bind f := rfl

@[simp] theorem bind_done (p : Program α) : p.bind .done = p := by
  induction p with
  | done a => rfl
  | send command limit next ih => simp [ih]
  | exhausted => rfl

/-- A sequence is run part by part, the second from where the first ended. -/
theorem run_bind (answer : Command → Deadline → σ → Reply × σ) (p : Program α) (f : α → Program β)
    (s : σ) :
    run answer (p.bind f) s = (run answer p s).bind fun (a, s) => run answer (f a) s := by
  induction p generalizing s with
  | done a => rfl
  | send command limit next ih => simp [run, ih]
  | exhausted => rfl

end Program

abbrev Call (α : Type) := ExceptT Error Program α

namespace Call

variable {α : Type}

def settled (outcome : Except Error α) : Call α := ExceptT.mk (.done outcome)

def fail (e : Error) : Call α := settled (.error e)

/-- What a reply is to the call that waits for it. -/
def receive : Reply → Except Error Document
  | .document doc => .ok doc.written
  | .dropped => .error (.transport .io)
  | .unanswered => .error .timeout
  | .refused => .error (.transport .shutdown)

/-- Sends a command, if it can be sent, and takes the document that answers it. -/
def send (command : Command) (limit : Deadline) : Call Document :=
  ExceptT.mk <|
    match command.check with
    | .error failure => .done (.error (.transport failure))
    | .ok () => .send command.written limit fun reply => .done (receive reply)

end Call
end DocClient
