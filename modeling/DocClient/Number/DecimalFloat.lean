import DocClient.Text.Hex

/-!
Text of the 128-bit decimal format, whose sixteen bytes come least first: a sign, an exponent with base
-6176 and a coefficient of up to thirty-four digits.
-/
namespace DocClient.DecimalFloat

inductive Parts
  | nan
  | infinity (negative : Bool)
  | finite (negative : Bool) (coefficient : Nat) (exponent : Int)
  deriving Repr

def numberOf (bytes : Bytes) : Nat :=
  bytes.foldr (fun b n => b.toNat + 256 * n) 0

/-- A coefficient above thirty-four nines counts as zero. -/
def parts (bytes : Bytes) : Parts :=
  let n := numberOf bytes
  let negative : Bool := n >>> 127 % 2 = 1
  let combination := n >>> 122 % 32
  if combination = 31 then .nan
  else if combination = 30 then .infinity negative
  else if 24 ≤ combination then .finite negative 0 ((n >>> 111 % 16384 : Nat) - 6176)
  else
    let coefficient := n % (1 <<< 113)
    .finite negative (if Nat.pow 10 34 ≤ coefficient then 0 else coefficient)
      ((n >>> 113 % 16384 : Nat) - 6176)

/-- Positional when the exponent is not above zero and at most six zeros follow the point. -/
def finiteChars (coefficient : Nat) (exponent : Int) : List Char :=
  let digits := Nat.toDigits 10 coefficient
  let adjusted := exponent + digits.length - 1
  if exponent ≤ 0 && -6 ≤ adjusted then
    if exponent = 0 then digits
    else
      let point := (digits.length : Int) + exponent
      if 0 < point then digits.take point.toNat ++ '.' :: digits.drop point.toNat
      else '0' :: '.' :: List.replicate (-point).toNat '0' ++ digits
  else
    let mantissa := match digits with
      | d :: r :: rest => d :: '.' :: r :: rest
      | ds => ds
    mantissa ++ 'E' :: (if 0 ≤ adjusted then ['+'] else []) ++ (toString adjusted).toList

def text (bytes : Bytes) : String :=
  match parts bytes with
  | .nan => "NaN"
  | .infinity negative => if negative then "-Infinity" else "Infinity"
  | .finite negative coefficient exponent =>
    let chars := finiteChars coefficient exponent
    String.ofList (if negative then '-' :: chars else chars)

end DocClient.DecimalFloat
