import DocClient.Wire.Command

/-!
How safe reads and writes have to be: the modes of reading, and what acknowledges a write.
-/
namespace DocClient

/-- The modes of reading, in the order of their numbers. -/
inductive Mode
  | eventual
  | monotonic
  | primary
  | primaryPreferred
  | secondary
  | secondaryPreferred
  | nearest
  deriving DecidableEq

namespace Mode

def number : Mode → Nat
  | .eventual => 0
  | .monotonic => 1
  | .primary => 2
  | .primaryPreferred => 3
  | .secondary => 4
  | .secondaryPreferred => 5
  | .nearest => 6

def name : Mode → String
  | .eventual => "Eventual"
  | .monotonic => "Monotonic"
  | .primary => "Primary"
  | .primaryPreferred => "PrimaryPreferred"
  | .secondary => "Secondary"
  | .secondaryPreferred => "SecondaryPreferred"
  | .nearest => "Nearest"

def ofNumber? (n : Nat) : Option Mode :=
  [eventual, monotonic, primary, primaryPreferred, secondary, secondaryPreferred, nearest][n]?

def strong : Mode := .primary

/-- The two modes without a preference of their own read from the primary. -/
def readPreference : Mode → ReadPreference
  | .eventual | .monotonic | .primary => .primary
  | .primaryPreferred => .primaryPreferred
  | .secondary => .secondary
  | .secondaryPreferred => .secondaryPreferred
  | .nearest => .nearest

instance : Inhabited Mode := ⟨.primary⟩

end Mode

inductive Acknowledgment
  | servers (count : UInt32)
  | majority
  | custom (name : String)
  deriving DecidableEq

/-- What a write asks for, as the server takes it. -/
structure WriteConcern where
  acknowledgment : Option Acknowledgment
  timeoutMillis : Option UInt64
  journal : Option Bool
  deriving DecidableEq

namespace WriteConcern

def acknowledgmentBson : Acknowledgment → Except EncodeFault Bson
  | .servers count =>
    if count.toNat < 0x80000000 then .ok (.int32 (Int32.ofInt count.toNat))
    else .error (.optionTooLarge count.toNat)
  | .majority => .ok (.string "majority")
  | .custom name => .ok (.string name)

/-- Milliseconds, in the narrower integer that holds them. -/
def millisBson (millis : UInt64) : Except EncodeFault Bson :=
  if millis.toNat < 0x80000000 then .ok (.int32 (Int32.ofInt millis.toNat))
  else if millis.toNat < 0x8000000000000000 then .ok (.int64 (Int64.ofInt millis.toNat))
  else .error (.optionTooLarge millis.toNat)

/-- The document of what is asked for; empty if nothing is. -/
def toDocument (c : WriteConcern) : Except EncodeFault Document := do
  let w ← c.acknowledgment.mapM acknowledgmentBson
  let timeout ← c.timeoutMillis.mapM millisBson
  .ok (Document.empty
    |>.putSome "w" w
    |>.putSome "wtimeout" timeout
    |>.putSome "j" (c.journal.map .boolean))

end WriteConcern

/-- What a caller asks of writes. The empty text and zero mean unset. -/
structure Safe where
  servers : UInt32
  /-- A named rule goes before the number of servers. -/
  writeMode : String
  /-- Carried along only: reads go by the session's mode. -/
  readMode : String
  timeoutMillis : UInt64
  sync : Bool
  journal : Bool
  deriving DecidableEq

namespace Safe

def default : Safe := ⟨1, "", "", 0, false, false⟩

def acknowledgment? (safe : Safe) : Option Acknowledgment :=
  if safe.writeMode = "" then
    if safe.servers = 0 then none else some (.servers safe.servers)
  else if safe.writeMode = "majority" then some .majority
  else some (.custom safe.writeMode)

def writeConcern (safe : Safe) : WriteConcern where
  acknowledgment := safe.acknowledgment?
  timeoutMillis := if safe.timeoutMillis = 0 then none else some safe.timeoutMillis
  journal := if safe.journal || safe.sync then some true else none

end Safe
end DocClient
