import DocClient.Number.DecimalFloat
import DocClient.Number.Double

/-!
Numbers read from text: integers, doubles, and numbers of the 128-bit decimal format. One sign of either
kind may stand in front.
-/
namespace DocClient

/-- Whether a text begins with a minus, and what follows its sign. -/
def splitSign : List Char → Bool × List Char
  | '-' :: rest => (true, rest)
  | '+' :: rest => (false, rest)
  | s => (false, s)

def readInt (s : List Char) : Option Int :=
  let (negative, digits) := splitSign s
  let n : Int := Nat.ofDigitChars 10 digits 0
  if digits.isEmpty || !digits.all Char.isDigit then none else some (if negative then -n else n)

def readIntWithin (lo hi : Int) (s : List Char) : Option Int :=
  (readInt s).filter fun n => lo ≤ n && n ≤ hi

/-- A number as it is written: digits without a point, and the power of ten that they count. -/
structure Scientific where
  digits : List Char
  exponent : Int

/-- Digits with a point between or beside them, and an exponent after a letter. -/
def Scientific.read (s : List Char) : Option Scientific := do
  let isLetter (c : Char) := c = 'e' || c = 'E'
  let mantissa := s.takeWhile (!isLetter ·)
  let exponent ← match s.drop mantissa.length with
    | [] => some 0
    | _ :: rest => readInt rest
  let whole := mantissa.takeWhile (· ≠ '.')
  let fraction := mantissa.drop (whole.length + 1)
  let digits := whole ++ fraction
  if digits.isEmpty || !digits.all Char.isDigit then none else some ⟨digits, exponent - fraction.length⟩

def lowerChars (s : List Char) : List Char := s.map Char.toLower

namespace Double

/-- The double nearest to a positive fraction, from a tie the even one. -/
def ofFraction (negative : Bool) (num den : Nat) : Double :=
  let estimate : Int := (num.log2 : Int) - den.log2
  let isReached (e : Int) : Bool := if 0 ≤ e then den <<< e.toNat ≤ num else den ≤ num <<< (-e).toNat
  let top := if isReached estimate then estimate else estimate - 1
  let unit := max (top - 52) (-1074)
  let n := if 0 ≤ unit then num else num <<< (-unit).toNat
  let d := if 0 ≤ unit then den <<< unit.toNat else den
  let rounded := if 2 * (n % d) < d then n / d else if d < 2 * (n % d) then n / d + 1 else n / d + n / d % 2
  -- A carry out of the significand raises the exponent, and a number without the hidden bit has none.
  let bits := (unit + 1074).toNat * hiddenBit + rounded
  if 2047 * hiddenBit ≤ bits then infinity negative else ⟨UInt64.ofNat (signBits negative + bits)⟩

/-- The double nearest to a number as it is written. Four hundred places before the point are too many for a
double, and so are as many zeros behind it. -/
def ofScientific (negative : Bool) (x : Scientific) : Double :=
  let n := Nat.ofDigitChars 10 x.digits 0
  let places := x.exponent + (Nat.toDigits 10 n).length
  if n = 0 || places < -400 then ⟨UInt64.ofNat (signBits negative)⟩
  else if 400 < places then infinity negative
  else if 0 ≤ x.exponent then ofFraction negative (n * Nat.pow 10 x.exponent.toNat) 1
  else ofFraction negative n (Nat.pow 10 (-x.exponent).toNat)

def read (text : String) : Option Double :=
  let (negative, s) := splitSign text.toList
  let word := String.ofList (lowerChars s)
  if word = "inf" || word = "infinity" then some (infinity negative)
  else if word = "nan" then some ⟨UInt64.ofNat (signBits negative + nan.bits.toNat)⟩
  else (Scientific.read s).map (ofScientific negative)

end Double

namespace DecimalFloat

/-- The greatest count of digits, and the bounds of the exponent. -/
def maxDigits : Nat := 34

def leastExponent : Int := -6176

def greatestExponent : Int := 6111

def ofNumber (n : Nat) : Bytes := (List.range 16).map fun i => UInt8.ofNat (n >>> (8 * i) % 256)

def signNumber (negative : Bool) : Nat := if negative then 1 <<< 127 else 0

/-- Drops digits at the end, which have to be zeros. -/
def dropZeros (count : Nat) (digits : List Char) : Option (List Char) :=
  let kept := digits.length - count
  if count < digits.length && (digits.drop kept).all (· = '0') then some (digits.take kept) else none

/-- The digits and the exponent of a number other than zero within their bounds, if none has to be rounded. -/
def fit (x : Scientific) : Option Scientific := do
  let excess := x.digits.length - maxDigits
  let digits ← if excess = 0 then some x.digits else dropZeros excess x.digits
  let exponent := x.exponent + excess
  if exponent < leastExponent then
    let digits ← dropZeros (leastExponent - exponent).toNat digits
    some ⟨digits, leastExponent⟩
  else if greatestExponent < exponent then
    let padding := (exponent - greatestExponent).toNat
    if maxDigits < digits.length + padding then none
    else some ⟨digits ++ List.replicate padding '0', greatestExponent⟩
  else some ⟨digits, exponent⟩

def ofScientific (negative : Bool) (x : Scientific) : Option Bytes := do
  let digits := x.digits.dropWhile (· = '0')
  let x ← if digits.isEmpty then some ⟨['0'], max leastExponent (min x.exponent greatestExponent)⟩
    else fit { x with digits }
  some (ofNumber (signNumber negative + (x.exponent + 6176).toNat <<< 113 + Nat.ofDigitChars 10 x.digits 0))

def read (text : String) : Option Bytes :=
  let (negative, s) := splitSign text.toList
  let word := String.ofList (lowerChars s)
  if word = "nan" then some (ofNumber (signNumber negative + 31 <<< 122))
  else if word = "snan" then some (ofNumber (signNumber negative + 63 <<< 121))
  else if word = "inf" || word = "infinity" then some (ofNumber (signNumber negative + 30 <<< 122))
  else do
    let x ← Scientific.read s
    ofScientific negative x

end DecimalFloat
end DocClient
