import DocClient.Session.Address
import DocClient.Session.Database

/-!
Sessions: a default database, a mode of reading and the safety of writes. Copies share the connections
of the session that was dialed, and only that one shuts them down.
-/
namespace DocClient

structure Session where
  databaseName : String
  mode : Mode
  safe : Option Safe
  isDialed : Bool
  /-- How many replies a single call follows a result for. -/
  rounds : Nat

structure BuildInfo where
  version : String
  versionArray : List Int32
  gitVersion : String
  sslVersion : String
  systemInfo : String
  bits : Int32
  debug : Bool
  maxObjectSize : Int32
  deriving DecidableEq

namespace BuildInfo

def default : BuildInfo := ⟨"", [], "", "", "", 0, false, 0⟩

def fields : List (RecordField BuildInfo) := [
  .optional "version" decodeBson fun version i => { i with version },
  .optional "versionArray" decodeBson fun versionArray i => { i with versionArray },
  .optional "gitVersion" decodeBson fun gitVersion i => { i with gitVersion },
  .optional "OpenSSLVersion" decodeBson fun sslVersion i => { i with sslVersion },
  .optional "sysInfo" decodeBson fun systemInfo i => { i with systemInfo },
  .optional "bits" decodeBson fun bits i => { i with bits },
  .optional "debug" decodeBson fun debug i => { i with debug },
  .optional "maxBsonObjectSize" decodeBson fun maxObjectSize i => { i with maxObjectSize }]

instance : Inhabited BuildInfo := ⟨default⟩
instance : FromBson BuildInfo := ⟨decodeRecord default fields⟩
instance : Destination BuildInfo where

/-- Whether a version is at least another, part by part. A missing part is below every part. -/
def isAtLeast : List Int32 → List Int32 → Bool
  | _, [] => true
  | [], _ :: _ => false
  | have_ :: hs, want :: ws => if have_ = want then isAtLeast hs ws else want < have_

def versionAtLeast (info : BuildInfo) (want : List Int32) : Bool := isAtLeast info.versionArray want

end BuildInfo

namespace Session

def dialed (address : String) (rounds : Nat) : Session :=
  ⟨Address.databaseName address, .primary, some .default, true, rounds⟩

/-- A session over the same connections, which closing it leaves open. -/
def copy (s : Session) : Session := { s with isDialed := false }

def setMode (s : Session) (mode : Mode) : Session := { s with mode }

/-- Without safety the deployment's own rules hold. -/
def setSafe (s : Session) (safe : Option Safe) : Session := { s with safe }

def database (s : Session) (name : String) : Database where
  name := if name = "" then s.databaseName else name
  readPreference := s.mode.readPreference
  writeConcern := s.safe.map Safe.writeConcern
  rounds := s.rounds

def adminName : String := "admin"

def ping (s : Session) : Call Unit := do
  let _ ← (s.database adminName).command .short (.ofPairs [("ping", .int32 1)]) .primary

def run {γ α : Type} [Argument γ] [Destination α] (s : Session) (admin : Bool) (cmd : γ) : Call α :=
  (s.database (if admin then adminName else s.databaseName)).run cmd

def buildInfo (s : Session) : Call BuildInfo :=
  s.run true (UnorderedDoc.ofPairs [("buildInfo", .int32 1)])

def databaseNames (s : Session) : Call (List String) := do
  let body := Document.ofPairs [("listDatabases", .int32 1), ("nameOnly", .boolean true)]
  let reply ← (s.database adminName).command .short body .primary
  let rows ← Call.settled (readReply (fun reply => reply.required "databases" decodeDocuments) reply)
  Call.settled (eachItem Database.nameOf rows)

end Session
end DocClient
