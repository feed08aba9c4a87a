import DocClient.Session.Basic

/-!
A server that plays replies back in order and keeps the commands it gets. It is what programs are tried
out against.
-/
namespace DocClient

inductive ScriptedReply
  | document (doc : Document)
  | drop
  | hang

structure Playback where
  replies : List ScriptedReply
  received : List Command
  /-- How long callers have waited in vain, in milliseconds. -/
  waited : Nat
  shut : Bool

namespace Playback

def start : Playback := ⟨[], [], 0, false⟩

def scriptExhausted : Document :=
  .ofPairs [("ok", .int32 0), ("code", .int32 9999), ("errmsg", .string "script exhausted")]

def load (p : Playback) (replies : List ScriptedReply) : Playback :=
  { p with replies, received := [], waited := 0 }

def answer (command : Command) (limit : Deadline) (p : Playback) : Reply × Playback :=
  if p.shut then (.refused, p)
  else
    let p := { p with received := command :: p.received }
    match p.replies with
    | [] => (.document scriptExhausted, p)
    | .document doc :: rest => (.document doc, { p with replies := rest })
    | .drop :: rest => (.dropped, { p with replies := rest })
    | .hang :: rest => (.unanswered, { p with replies := rest, waited := p.waited + limit.millis })

end Playback

/-- Closes a session. The one that was dialed shuts the client down, for its copies too. -/
def Session.close (s : Session) (p : Playback) : Playback :=
  if s.isDialed then { p with shut := true } else p

end DocClient
