import DocClient.Time.Basic
import DocClient.Time.Civil

/-!
Instants as text in the profile of RFC 3339: `2024-03-01T12:30:01.234567Z`. `read` accepts that grammar
and no more; `readLoose` also accepts blanks between the fields, signed years and short fields, as a
record's plain time field does; `readMillis` accepts anything between date and time, and no leap second
but at the end of a month, as dates in extended forms do.
-/
namespace DocClient.Rfc3339

structure Fields where
  year : Int
  month : Nat
  day : Nat
  hour : Nat
  minute : Nat
  second : Nat
  nanos : Nat
  /-- Seconds east of the zero meridian. -/
  offset : Int
  deriving Repr

/-- The instant of the fields. Second sixty is a leap second and belongs to the one before it. -/
def Fields.toTime? (f : Fields) : Option Time :=
  let civil : Civil := ⟨f.year, f.month, f.day⟩
  if civil.isValid && f.hour < 24 && f.minute < 60 && f.second ≤ 60 && f.offset.natAbs < 86400 then
    let second := if f.second = 60 then 59 else f.second
    let nanos := if f.second = 60 then f.nanos + 1000000000 else f.nanos
    let ofDay : Int := f.hour * 3600 + f.minute * 60 + second
    let seconds := civil.toDays * 86400 + ofDay - f.offset
    if Time.inCalendar (civil.toDays * 86400) && Time.inCalendar seconds then
      some ⟨seconds, nanos⟩
    else none
  else none

/-! ## Reading -/

def digit? (c : Char) : Option Nat :=
  if c.isDigit then some (c.toNat - 48) else none

def numberOf (digits : List Char) : Nat :=
  digits.foldl (fun n c => 10 * n + (c.toNat - 48)) 0

/-- Exactly `count` digits. -/
def fixed (count : Nat) (s : List Char) : Option (Nat × List Char) :=
  let digits := s.take count
  if digits.length = count && digits.all Char.isDigit then some (numberOf digits, s.drop count)
  else none

/-- At least one digit and at most `most` of them. -/
def upTo (most : Nat) (s : List Char) : Option (Nat × List Char) :=
  let digits := (s.take most).takeWhile Char.isDigit
  if digits.isEmpty then none else some (numberOf digits, s.drop digits.length)

def expect (c : Char) : List Char → Option (List Char)
  | d :: rest => if d = c then some rest else none
  | [] => none

def separator : List Char → Option (List Char)
  | c :: rest => if c = 'T' || c = 't' || c = ' ' then some rest else none
  | [] => none

/-- An optional fraction of a second. Digits after the ninth are dropped. -/
def fractionOfSecond : List Char → Option (Nat × List Char)
  | '.' :: rest =>
    let digits := rest.takeWhile Char.isDigit
    if digits.isEmpty then none
    else
      let kept := digits.take 9
      some (numberOf kept * Nat.pow 10 (9 - kept.length), rest.drop digits.length)
  | s => some (0, s)

def offsetDigits (between : List Char → Option (List Char)) (s : List Char) :
    Option (Int × List Char) := do
  let (hours, s) ← fixed 2 s
  let s ← between s
  let (minutes, s) ← fixed 2 s
  if minutes < 60 then some ((hours * 3600 + minutes * 60 : Nat), s) else none

/-- `Z` or a signed offset; the minus sign may be the hyphen or U+2212. -/
def zone (between : List Char → Option (List Char)) : List Char → Option (Int × List Char)
  | c :: rest =>
    if c = 'Z' || c = 'z' then some (0, rest)
    else if c = '+' then offsetDigits between rest
    else if c = '-' || c.toNat = 0x2212 then
      (offsetDigits between rest).map fun (offset, s) => (-offset, s)
    else none
  | [] => none

/-- The strict grammar, which must use up the text, by what may stand between date and time. -/
def readFields (between : List Char → Option (List Char)) (s : List Char) : Option Fields := do
  let (year, s) ← fixed 4 s
  let s ← expect '-' s
  let (month, s) ← fixed 2 s
  let s ← expect '-' s
  let (day, s) ← fixed 2 s
  let s ← between s
  let (hour, s) ← fixed 2 s
  let s ← expect ':' s
  let (minute, s) ← fixed 2 s
  let s ← expect ':' s
  let (second, s) ← fixed 2 s
  let (nanos, s) ← fractionOfSecond s
  let (offset, s) ← zone (expect ':') s
  if s.isEmpty then some ⟨year, month, day, hour, minute, second, nanos, offset⟩ else none

def read (text : String) : Option Time :=
  (readFields separator text.toList).bind Fields.toTime?

/-- The whole milliseconds of an instant, cut toward zero. A leap second counts as the last moment before it. -/
def readMillis (text : String) : Option Int := do
  let f ← readFields (·.tail?) text.toList
  let leap := f.second = 60
  let t ← Fields.toTime? { f with
    second := if leap then 59 else f.second
    nanos := if leap then 999999999 else f.nanos }
  let next := t.seconds + 1
  let endsMonth := next % 86400 = 0 && (Civil.ofDays (next / 86400)).day = 1
  if leap && !endsMonth then none else some (Int.tdiv (t.seconds * 1000000000 + t.nanos) 1000000)

/-- The characters of the property White_Space. -/
def isBlank (c : Char) : Bool :=
  let n := c.toNat
  (9 ≤ n && n ≤ 13) || n = 32 || n = 0x85 || n = 0xa0 || n = 0x1680 ||
    (0x2000 ≤ n && n ≤ 0x200a) || n = 0x2028 || n = 0x2029 || n = 0x202f || n = 0x205f || n = 0x3000

def skipBlanks (s : List Char) : List Char := s.dropWhile isBlank

def looseField (s : List Char) : Option (Nat × List Char) := upTo 2 (skipBlanks s)

/-- A year: up to four digits, or any number of them after a sign. -/
def looseYear (s : List Char) : Option (Int × List Char) :=
  match skipBlanks s with
  | '-' :: rest => (upTo rest.length rest).map fun (n, s) => (-(n : Int), s)
  | '+' :: rest => (upTo rest.length rest).map fun (n, s) => ((n : Int), s)
  | s => (upTo 4 s).map fun (n, s) => ((n : Int), s)

def colonsOrBlanks (s : List Char) : Option (List Char) :=
  some (s.dropWhile fun c => c = ':' || isBlank c)

def looseZone (s : List Char) : Option (Int × List Char) :=
  match s with
  | u :: t :: c :: rest =>
    if u.toUpper = 'U' && t.toUpper = 'T' && c.toUpper = 'C' then some (0, rest)
    else zone colonsOrBlanks s
  | _ => zone colonsOrBlanks s

def readLooseFields (s : List Char) : Option Fields := do
  let (year, s) ← looseYear s
  let s ← expect '-' (skipBlanks s)
  let (month, s) ← looseField s
  let s ← expect '-' (skipBlanks s)
  let (day, s) ← looseField s
  let s ← separator s
  let (hour, s) ← looseField s
  let s ← expect ':' (skipBlanks s)
  let (minute, s) ← looseField s
  let s ← expect ':' (skipBlanks s)
  let (second, s) ← looseField s
  let (nanos, s) ← fractionOfSecond s
  let (offset, s) ← looseZone (skipBlanks s)
  if (skipBlanks s).isEmpty then some ⟨year, month, day, hour, minute, second, nanos, offset⟩ else none

def readLoose (text : String) : Option Time :=
  (readLooseFields text.toList).bind Fields.toTime?

/-! ## Writing -/

/-- A number with zeros in front up to the width. -/
def padded (width n : Nat) : List Char :=
  let digits := Nat.toDigits 10 n
  List.replicate (width - digits.length) '0' ++ digits

/-- Four digits; outside of them a sign and at least four digits. -/
def yearChars (year : Int) : List Char :=
  if 0 ≤ year && year ≤ 9999 then padded 4 year.toNat
  else (if year < 0 then '-' else '+') :: padded 4 year.natAbs

/-- No fraction, or as few of three, six or nine places as hold it. -/
def fractionChars (nanos : Nat) : List Char :=
  if nanos = 0 then []
  else if nanos % 1000000 = 0 then '.' :: padded 3 (nanos / 1000000)
  else if nanos % 1000 = 0 then '.' :: padded 6 (nanos / 1000)
  else '.' :: padded 9 nanos

def shortFractionChars (nanos : Nat) : List Char :=
  if nanos = 0 then [] else '.' :: ((padded 9 nanos).reverse.dropWhile (· = '0')).reverse

/-- The text of an instant, its fraction of a second written as given. -/
def writeWith (fraction : Nat → List Char) (t : Time) : String :=
  let civil := Civil.ofDays (t.seconds / 86400)
  let ofDay := (t.seconds % 86400).toNat
  let leap := 1000000000 ≤ t.nanos
  let second := ofDay % 60 + (if leap then 1 else 0)
  let nanos := if leap then t.nanos - 1000000000 else t.nanos
  String.ofList (yearChars civil.year ++ '-' :: padded 2 civil.month ++ '-' :: padded 2 civil.day ++
    'T' :: padded 2 (ofDay / 3600) ++ ':' :: padded 2 (ofDay / 60 % 60) ++ ':' :: padded 2 second ++
    fraction nanos ++ ['Z'])

def write (t : Time) : String := writeWith fractionChars t

def writeShort (t : Time) : String := writeWith shortFractionChars t

end DocClient.Rfc3339
