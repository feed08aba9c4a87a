import DocClient.Value.Text
import DocClient.Value.Equality

/-!
What can go wrong, by cause, and the text of each cause. Main functions: `Error.message`,
`Error.code?` and `Error.kind`.
-/
namespace DocClient

inductive Purpose
  | unordered
  | ordered
  | slice
  | timestamp
  | objectId
  deriving DecidableEq

def Purpose.phrase : Purpose → String
  | .unordered => "into M"
  | .ordered => "into D"
  | .slice => "into a slice"
  | .timestamp => "as a timestamp"
  | .objectId => "as an ObjectId"

inductive EncodeFault
  | unsignedTooLarge (n : UInt64)
  | keyNotText
  /-- An option's number is too large for the integer that carries it. -/
  | optionTooLarge (n : Nat)
  deriving DecidableEq

inductive DecodeCause
  | notAs (source : Value) (purpose : Purpose)
  /-- A record's time field holds something that is no time. -/
  | uninterpretable (source : Bson)
  | notTimestamps (found : String)
  | notDocument (found : String)
  | notObjectId (found : String)
  | badHex (text : String) (fault : ObjectId.Fault)
  | chunkByte (item : Value)
  | chunkData (data : Value)
  | encode (fault : EncodeFault)
  /-- The codec wanted one kind of value and met another. -/
  | wrongType (expected found : String)
  | outOfRange (expected : String) (n : Int)
  | wrongText (expected text : String)
  | missingField (name : String)
  | repeatedField (name : String)
  | unknownField (name : String)
  | message (text : String)
  deriving DecidableEq

inductive ArgumentCause
  | notDocument (found : Value)
  | badHex (text : String) (fault : ObjectId.Fault)
  | unconvertible (cause : DecodeCause)
  | sortKey (field : String)
  | indexKey (field : String)
  | emptyIndexKey
  | noDocuments
  | emptyBatch
  | openForReading
  | openForWriting
  | message (text : String)
  deriving DecidableEq

structure WriteFault where
  code : Int32
  message : String
  deriving DecidableEq

/-- Failures below the level of this library, by the channel that they arrive on. -/
inductive Failure
  | command (code : Int32) (message : String)
  | write (fault : WriteFault)
  | insertMany (faults : List WriteFault) (concern : Option WriteFault)
  | io
  | shutdown
  | invalidResponse
  | invalidArgument
  | undecodable
  | unencodable
  deriving DecidableEq

structure QueryError where
  code : Int32
  message : String
  assertion : Bool
  deriving DecidableEq

def QueryError.new (code : Int32) (message : String) : QueryError := ⟨code, message, false⟩

/-- A failed operation of a batch, by its place in the queue; place -1 stands for the batch as a whole. -/
structure BulkCase where
  index : Int64
  err : QueryError
  deriving DecidableEq

inductive Error
  | notFound
  | transport (failure : Failure)
  | timeout
  | decode (cause : DecodeCause)
  | bulk (cases : List BulkCase)
  | query (err : QueryError)
  | invalidArgument (cause : ArgumentCause)
  | fileClosed
  deriving DecidableEq

inductive ErrorKind
  | notFound
  | transport
  | timeout
  | decode
  | bulk
  | query
  | invalidArgument
  deriving DecidableEq

def ErrorKind.name : ErrorKind → String
  | .notFound => "NotFound"
  | .transport => "Transport"
  | .timeout => "Timeout"
  | .decode => "Decode"
  | .bulk => "Bulk"
  | .query => "Query"
  | .invalidArgument => "InvalidArgument"

def Hex.Fault.text : Hex.Fault → String
  | .oddLength => "Odd number of digits"
  | .badDigit byte index =>
    "Invalid character " ++ Text.quotedChar (Char.ofNat byte.toNat) ++ " at position " ++ toString index

def ObjectId.Fault.text : ObjectId.Fault → String
  | .hex fault => fault.text
  | .length count => "expected 12 bytes, got " ++ toString count

def badHexText (text : String) (fault : ObjectId.Fault) : String :=
  "invalid ObjectId hex " ++ Text.quoted text ++ ": " ++ fault.text

def invalidArgumentText (text : String) : String := "invalid argument: " ++ text

def EncodeFault.text : EncodeFault → String
  | .unsignedTooLarge n => "unsigned integer out of range: " ++ toString n.toNat
  | .keyNotText => "a document key must be text"
  | .optionTooLarge n => "option out of range: " ++ toString n

def DecodeCause.text : DecodeCause → String
  | .notAs source purpose => "cannot decode " ++ source.text ++ " " ++ purpose.phrase
  | .uninterpretable source => "cannot interpret " ++ source.text ++ " as a timestamp"
  | .notTimestamps found => "expected an array of timestamps, found " ++ found
  | .notDocument found => "expected a document, found " ++ found
  | .notObjectId found => "expected an ObjectId, found " ++ found
  | .badHex text fault => invalidArgumentText (badHexText text fault)
  | .chunkByte item => "invalid chunk byte " ++ item.text
  | .chunkData data => "invalid chunk data " ++ data.text
  | .encode fault => fault.text
  | .wrongType expected found => "wrong type: " ++ found ++ " instead of " ++ expected
  | .outOfRange expected n => "out of range for " ++ expected ++ ": " ++ toString n
  | .wrongText expected text => "no " ++ expected ++ ": " ++ Text.quoted text
  | .missingField name => "missing field: " ++ name
  | .repeatedField name => "repeated field: " ++ name
  | .unknownField name => "unknown field: " ++ name
  | .message text => text

def decodeText (cause : DecodeCause) : String := "decode error: " ++ cause.text

def ArgumentCause.text : ArgumentCause → String
  | .notDocument found => "expected a document, got " ++ found.text
  | .badHex text fault => badHexText text fault
  | .unconvertible cause => "cannot convert the argument: " ++ decodeText cause
  | .sortKey field => "invalid sort key " ++ Text.quoted field
  | .indexKey field => "invalid index key " ++ Text.quoted field
  | .emptyIndexKey => "index key must not be empty"
  | .noDocuments => "insert needs at least one document"
  | .emptyBatch => "empty bulk batch"
  | .openForReading => "file is open for reading"
  | .openForWriting => "file is open for writing"
  | .message text => text

namespace Failure

def kindName : Failure → String
  | .command .. => "Command"
  | .write _ => "Write"
  | .insertMany .. => "InsertMany"
  | .io => "Io"
  | .shutdown => "Shutdown"
  | .invalidResponse => "InvalidResponse"
  | .invalidArgument => "InvalidArgument"
  | .undecodable => "BsonDeserialization"
  | .unencodable => "BsonSerialization"

/-- The server's code, if the failure carries one; of several write errors the first one's. -/
def code? : Failure → Option Int32
  | .command code _ => some code
  | .write fault => some fault.code
  | .insertMany (fault :: _) _ => some fault.code
  | .insertMany [] concern => concern.map WriteFault.code
  | _ => none

def message (failure : Failure) : String :=
  "Kind: " ++ failure.kindName ++
    match failure with
    | .command _ message => ": " ++ message
    | .write fault => ": " ++ fault.message
    | _ => ""

end Failure

/-- The code follows in brackets, unless it is zero. -/
def QueryError.text (e : QueryError) : String :=
  if e.code = 0 then e.message
  else e.message ++ " (code " ++ toString e.code.toInt ++ ")"

/-- One case speaks for itself; of several each distinct text is listed once. -/
def bulkText : List BulkCase → String
  | [] => "invalid BulkError instance: no errors"
  | [single] => single.err.text
  | cases =>
    "multiple errors in bulk operation:\n" ++
      String.join ((cases.map fun c => c.err.text).eraseDups.map fun t => "  - " ++ t ++ "\n")

namespace Error

def message : Error → String
  | .notFound => "not found"
  | .transport failure => failure.message
  | .timeout => "operation timed out"
  | .decode cause => decodeText cause
  | .bulk cases => bulkText cases
  | .query err => err.text
  | .invalidArgument cause => invalidArgumentText cause.text
  | .fileClosed => "file is closed"

/-- The server's code, if there is a single one to report. -/
def code? : Error → Option Int32
  | .query err => some err.code
  | .bulk [single] => some single.err.code
  | .transport failure => failure.code?
  | _ => none

def kind : Error → ErrorKind
  | .notFound => .notFound
  | .transport _ => .transport
  | .timeout => .timeout
  | .decode _ => .decode
  | .bulk _ => .bulk
  | .query _ => .query
  | .invalidArgument _ | .fileClosed => .invalidArgument

def isNotFound (e : Error) : Bool := e.kind = .notFound

def isTimeout (e : Error) : Bool := e.kind = .timeout

end Error
end DocClient
