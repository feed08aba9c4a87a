/-!
Hexadecimal text of byte strings. Writing gives two lower-case digits a byte; reading accepts either
case and names the first fault.
-/
namespace DocClient

abbrev Bytes := List UInt8

namespace Hex

inductive Fault
  /-- An odd count of bytes, noticed before any byte is looked at. -/
  | oddLength
  /-- The first byte that is no digit, and its place. -/
  | badDigit (byte : UInt8) (index : Nat)
  deriving DecidableEq, Repr

def digit (n : Nat) : Char :=
  if n < 10 then Char.ofNat (48 + n) else Char.ofNat (87 + n)

/-- The two digits of a byte, high half first. -/
def encodeByte (b : UInt8) : List Char :=
  [digit (b.toNat / 16), digit (b.toNat % 16)]

def encodeChars (bytes : Bytes) : List Char :=
  bytes.flatMap encodeByte

def encode (bytes : Bytes) : String :=
  String.ofList (encodeChars bytes)

/-- The value of a byte that stands for a digit of either case. -/
def digitValue? (b : UInt8) : Option Nat :=
  let n := b.toNat
  if 48 ≤ n ∧ n ≤ 57 then some (n - 48)
  else if 97 ≤ n ∧ n ≤ 102 then some (n - 87)
  else if 65 ≤ n ∧ n ≤ 70 then some (n - 55)
  else none

/-- Reads digits pairwise; `index` is the place of the first of them. -/
def decodePairs (index : Nat) : Bytes → Except Fault Bytes
  | [] => .ok []
  | [b] => .error (.badDigit b index)
  | hi :: lo :: rest =>
    match digitValue? hi, digitValue? lo with
    | some h, some l => (decodePairs (index + 2) rest).map (UInt8.ofNat (16 * h + l) :: ·)
    | none, _ => .error (.badDigit hi index)
    | some _, none => .error (.badDigit lo (index + 1))

/-- Reads the bytes of a text. The length is checked first. -/
def decodeBytes (text : Bytes) : Except Fault Bytes :=
  if text.length % 2 = 1 then .error .oddLength else decodePairs 0 text

def decode (text : String) : Except Fault Bytes :=
  decodeBytes text.toUTF8.toList

end Hex
end DocClient
