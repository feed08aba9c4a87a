import DocClient.Number.Shortest

/-!
The two texts of a double. Both use the shortest digits; the plain one is positional throughout, the
exact-looking one always shows a point or an exponent.
-/
namespace DocClient.Double

def positional (digits : List Char) (point : Int) (alwaysPoint : Bool) : List Char :=
  let count : Int := digits.length
  if point ≤ 0 then
    ['0', '.'] ++ List.replicate (-point).toNat '0' ++ digits
  else if point < count then
    digits.take point.toNat ++ ['.'] ++ digits.drop point.toNat
  else
    digits ++ List.replicate (point - count).toNat '0' ++ (if alwaysPoint then ['.', '0'] else [])

def scientific (digits : List Char) (point : Int) : List Char :=
  let mantissa := match digits with
    | [] => []
    | [d] => [d]
    | d :: rest => d :: '.' :: rest
  mantissa ++ 'e' :: (toString (point - 1)).toList

/-- Exponents are written from `10 ^ 16` up and below `10 ^ -4`. -/
def usesExponent (x : Decimal) : Bool := 16 < x.point || x.point < -3

def signed (d : Double) (chars : List Char) : String :=
  String.ofList (if d.negative then '-' :: chars else chars)

/-- Always with a point or an exponent: `1.0`, `0.0001`, `1e16`, `1e-5`. -/
def exactText (d : Double) : String :=
  if d.isNaN then "NaN"
  else if d.isInfinite then d.signed "inf".toList
  else if d.isZero then d.signed "0.0".toList
  else
    let x := Decimal.shortest d
    if usesExponent x then d.signed (scientific x.digitChars x.point)
    else d.signed (positional x.digitChars x.point true)

/-- Positional at every size, an integer without a point. -/
def plainText (d : Double) : String :=
  if d.isNaN then "NaN"
  else if d.isInfinite then d.signed "inf".toList
  else if d.isZero then d.signed "0".toList
  else
    let x := Decimal.shortest d
    d.signed (positional x.digitChars x.point false)

end DocClient.Double
