import DocClient.Bson.Written
import DocClient.Error

/-!
Commands on their way to the server, and how long a call waits for its answers.
-/
namespace DocClient

/-- Which servers may answer a read. -/
inductive ReadPreference
  | primary
  | primaryPreferred
  | secondary
  | secondaryPreferred
  | nearest
  deriving DecidableEq

def ReadPreference.name : ReadPreference → String
  | .primary => "primary"
  | .primaryPreferred => "primaryPreferred"
  | .secondary => "secondary"
  | .secondaryPreferred => "secondaryPreferred"
  | .nearest => "nearest"

/-- A command and the database it is meant for. The first name of its body is the command's. -/
structure Command where
  database : String
  body : Document
  readPreference : ReadPreference
  deriving DecidableEq

namespace Command

/-- The command as the server reads it. -/
def written (command : Command) : Command := { command with body := command.body.written }

def check (command : Command) : Except Failure Unit :=
  if command.body.isEmpty then .error .invalidArgument
  else if command.body.isWritable then .ok ()
  else .error .invalidResponse

end Command

structure Deadline where
  millis : Nat
  deriving DecidableEq

namespace Deadline

/-- For single reads and writes, commands and cursor advances. -/
def short : Deadline := ⟨10000⟩

/-- For index builds, batches and the storing of blobs. -/
def long : Deadline := ⟨30000⟩

/-- The outcome of a call that takes some milliseconds; one that ends at the deadline is in time. -/
def bounded {α : Type} (limit : Deadline) (delay : Nat) (outcome : Except Failure α) : Except Error α :=
  if delay ≤ limit.millis then outcome.mapError .transport else .error .timeout

end Deadline
end DocClient
