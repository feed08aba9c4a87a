/-!
Instants. An instant counts whole seconds from the epoch and nanoseconds into the second; a leap second
is written as the second before it with a thousand million nanoseconds or more.
-/
namespace DocClient

structure Time where
  seconds : Int
  nanos : Nat
  deriving DecidableEq, Repr, Inhabited

namespace Time

def epoch : Time := ⟨0, 0⟩

/-- The first instant, at the start of the year -262143. -/
def earliest : Time := ⟨-8334601228800, 0⟩

/-- The last instant, at the end of the year 262142. -/
def latest : Time := ⟨8210266876799, 999999999⟩

def inCalendar (seconds : Int) : Bool :=
  earliest.seconds ≤ seconds && seconds ≤ latest.seconds

/-- The instants there are: a second of the calendar, and less than two seconds of nanoseconds. -/
def Valid (t : Time) : Prop := inCalendar t.seconds = true ∧ t.nanos < 2000000000

instance (t : Time) : Decidable t.Valid := inferInstanceAs (Decidable (_ ∧ _))

/-- Whole milliseconds since the epoch, rounded down. Those of a leap second run past its second. -/
def millis (t : Time) : Int := t.seconds * 1000 + (t.nanos / 1000000 : Nat)

/-- The instant of a count of milliseconds, whether or not the calendar reaches it. -/
def ofMillis (ms : Int) : Time := ⟨ms / 1000, (ms % 1000).toNat * 1000000⟩

/-- The instant of a count of milliseconds that the calendar reaches. -/
def ofMillis? (ms : Int) : Option Time :=
  if inCalendar (ms / 1000) then some (ofMillis ms) else none

/-- The instant of a count of milliseconds, or the end of the calendar on its side. -/
def ofMillisClamped (ms : Int) : Time :=
  match ofMillis? ms with
  | some t => t
  | none => if ms < 0 then earliest else latest

end Time
end DocClient
