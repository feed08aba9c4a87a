import DocClient.Value.Basic
import DocClient.Time.Rfc3339

/-!
Stored values read as instants: dates, counts of milliseconds as any kind of number, and text.
-/
namespace DocClient

/-- The instant that a count of milliseconds gives; a double is cut toward zero. -/
def Double.toTime? (d : Double) : Option Time :=
  if d.isFinite then Time.ofMillis? d.toInt64.toInt else none

def Bson.toTime? : Bson → Option Time
  | .dateTime ms => some (Time.ofMillisClamped ms.toInt)
  | .int32 ms => Time.ofMillis? ms.toInt
  | .int64 ms => Time.ofMillis? ms.toInt
  | .double ms => ms.toTime?
  | .string s => Rfc3339.read s
  | _ => none

def Value.toTime? : Value → Option Time
  | .time t => some t
  | .int32 ms => Time.ofMillis? ms.toInt
  | .int64 ms => Time.ofMillis? ms.toInt
  | .double ms => ms.toTime?
  | .string s => Rfc3339.read s
  | .other b => b.toTime?
  | _ => none

end DocClient
