import DocClient.Number.Double
import DocClient.Text.Hex
import DocClient.Time.Basic

/-!
Plain trees of lists and named members, in which values are written down for scripts and logs, and how
they hold what plain trees lack: wide integers as decimal text, doubles and bytes as hexadecimal text,
instants as a list of seconds and nanoseconds.
-/
namespace DocClient

inductive Tree
  | null
  | bool (b : Bool)
  | number (n : Int)
  | text (s : String)
  | list (items : List Tree)
  | members (fields : List (String × Tree))
  deriving Inhabited

namespace Tree

def ofInt64 (n : Int64) : Tree := .text (toString n.toInt)

/-- A number, also as decimal text. -/
def toInt? : Tree → Option Int
  | .number n => some n
  | .text s => s.toInt?
  | _ => none

def ofBytes (bytes : Bytes) : Tree := .text (Hex.encode bytes)

def toBytes? : Tree → Option Bytes
  | .text s =>
    match Hex.decode s with
    | .ok bytes => some bytes
    | .error _ => none
  | _ => none

/-- The bits of a double, highest first; all NaNs are written alike. -/
def ofDouble (d : Double) : Tree :=
  let n := d.canonical.bits.toNat
  ofBytes ((List.range 8).map fun i => UInt8.ofNat (n >>> (8 * (7 - i)) % 256))

def toDouble? (t : Tree) : Option Double :=
  t.toBytes?.map fun bytes => ⟨UInt64.ofNat (bytes.foldl (fun n b => n * 256 + b.toNat) 0)⟩

def ofTime (t : Time) : Tree := .list [.number t.seconds, .number t.nanos]

def toTime? : Tree → Option Time
  | .list [.number seconds, .number nanos] => some ⟨seconds, nanos.toNat⟩
  | _ => none

end Tree
end DocClient
