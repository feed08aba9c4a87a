/-!
Numbers in the 64-bit binary format, held as their bits so that every operation on them can be
reasoned about. Holds the decoding into significand and exponent, the cuts to integers, and the
roundings from integers and to the 32-bit format.
-/
namespace DocClient

/-- A double by its 64 bits: sign, eleven bits of exponent, fifty-two of fraction. -/
structure Double where
  bits : UInt64
  deriving DecidableEq, Repr, Inhabited

namespace Double

def zero : Double := ⟨0⟩

def nan : Double := ⟨0x7ff8000000000000⟩

/-- The bit above the fraction, which the significand of a normal number has and its bits do not write. -/
def hiddenBit : Nat := 0x10000000000000

def negative (d : Double) : Bool := d.bits.toNat >>> 63 = 1

def exponentField (d : Double) : Nat := d.bits.toNat >>> 52 % 2048

def fraction (d : Double) : Nat := d.bits.toNat % hiddenBit

def isNaN (d : Double) : Bool := d.exponentField = 2047 && d.fraction ≠ 0

def isInfinite (d : Double) : Bool := d.exponentField = 2047 && d.fraction = 0

def isFinite (d : Double) : Bool := d.exponentField < 2047

def isZero (d : Double) : Bool := d.exponentField = 0 && d.fraction = 0

/-- Together with `exponent`: a finite number is, up to sign, `significand · 2 ^ exponent`. -/
def significand (d : Double) : Nat :=
  if d.exponentField = 0 then d.fraction else hiddenBit + d.fraction

def exponent (d : Double) : Int :=
  if d.exponentField = 0 then -1074 else (d.exponentField : Int) - 1075

def isBelowZero (d : Double) : Bool := d.negative && !d.isNaN && !d.isZero

def isAboveZero (d : Double) : Bool := !d.negative && !d.isNaN && !d.isZero

def magnitudeFloor (d : Double) : Nat :=
  if 0 ≤ d.exponent then d.significand <<< d.exponent.toNat
  else d.significand >>> (-d.exponent).toNat

def truncate (d : Double) : Int :=
  if d.negative then -(d.magnitudeFloor : Int) else d.magnitudeFloor

def isIntegral (d : Double) : Bool :=
  d.isFinite && (0 ≤ d.exponent || d.significand % (1 <<< (-d.exponent).toNat) = 0)

/-- The integer of a number that is one but for a last digit, in the range of 64-bit integers. -/
def nearInteger? (d : Double) : Option Int :=
  let unit := 1 <<< (-d.exponent).toNat
  if d.isFinite && (0 ≤ d.exponent || d.significand % unit * hiddenBit ≤ unit) &&
      d.magnitudeFloor ≤ 0x8000000000000000 then
    some d.truncate
  else none

/-- The nearest bound for an integer outside the range. -/
def clamp (lo hi n : Int) : Int :=
  if n < lo then lo else if hi < n then hi else n

/-- Cut toward zero, the ends of the range standing in for what lies outside it; zero for a NaN. -/
def toIntWithin (lo hi : Int) (d : Double) : Int :=
  if d.isNaN then 0
  else if d.isInfinite then (if d.negative then lo else hi)
  else clamp lo hi d.truncate

def toInt64 (d : Double) : Int64 :=
  Int64.ofInt (d.toIntWithin (-0x8000000000000000) 0x7fffffffffffffff)

def toUInt64 (d : Double) : UInt64 :=
  UInt64.ofNat (d.toIntWithin 0 0xffffffffffffffff).toNat

/-- Division by a power of two, to the nearest integer and from a tie to the even one. -/
def shiftRightEven (n shift : Nat) : Nat :=
  let unit := 1 <<< shift
  let q := n / unit
  let r := n % unit
  if 2 * r < unit then q
  else if unit < 2 * r then q + 1
  else q + q % 2

def signBits (negative : Bool) : Nat := if negative then 0x8000000000000000 else 0

/--
The double for `n · 2 ^ e`, rounded to fifty-three bits. It is meant for magnitudes in the range of the
normal numbers; a carry out of the significand raises the exponent by itself.
-/
def ofScaled (negative : Bool) (n : Nat) (e : Int) : Double :=
  if n = 0 then ⟨UInt64.ofNat (signBits negative)⟩
  else
    let top := n.log2
    let significand := if top ≤ 52 then n <<< (52 - top) else shiftRightEven n (top - 52)
    let field := (top : Int) + e + 1022
    ⟨UInt64.ofNat (signBits negative + field.toNat * hiddenBit + significand)⟩

def ofInt (n : Int) : Double := ofScaled (n < 0) n.natAbs 0

def infinity (negative : Bool) : Double :=
  ⟨UInt64.ofNat (signBits negative + 2047 * hiddenBit)⟩

/-- The nearest number of the 32-bit format, as a double: twenty-four bits, no unit below `2 ^ -149`. -/
def toSingle (d : Double) : Double :=
  if !d.isFinite || d.isZero then (if d.isNaN then nan else d)
  else
    let leading := (d.significand.log2 : Int) + d.exponent
    let unit := max (leading - 23) (-149)
    let n :=
      if unit ≤ d.exponent then d.significand <<< (d.exponent - unit).toNat
      else shiftRightEven d.significand (unit - d.exponent).toNat
    if n = 0 then ofScaled d.negative 0 0
    else if 128 ≤ (n.log2 : Int) + unit then infinity d.negative
    else ofScaled d.negative n unit

/-- Numeric equality: a NaN equals nothing, and the two zeros are equal. -/
def sameNumber (a b : Double) : Bool :=
  !a.isNaN && !b.isNaN && (a = b || (a.isZero && b.isZero))

/-- Every NaN as the one quiet NaN. -/
def canonical (d : Double) : Double := if d.isNaN then nan else d

end Double
end DocClient
