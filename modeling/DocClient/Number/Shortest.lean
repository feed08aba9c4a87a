import DocClient.Number.Double

/-!
The shortest decimal that reads back as a given double. A decimal reads back when it lies between the
midpoints to the two neighbouring doubles; the midpoints count when the significand is even. Of the
decimals with the fewest digits the nearest is taken, the upper one from a tie.
-/
namespace DocClient

/-- A positive decimal `0.d₁d₂… · 10 ^ point`, its digits read as one number. -/
structure Decimal where
  digits : Nat
  point : Int
  deriving DecidableEq, Repr

namespace Decimal

/-- A positive fraction, with the two ends of what rounds to it, over one denominator. -/
structure Interval where
  low : Nat
  value : Nat
  high : Nat
  denominator : Nat
  closed : Bool
  deriving Repr

/-- What rounds to a positive finite double. Below a power of two the neighbour is half as far. -/
def Interval.ofDouble (d : Double) : Interval :=
  let m := d.significand
  let lower := if d.fraction = 0 && 1 < d.exponentField then 4 * m - 1 else 4 * m - 2
  let scale := d.exponent - 2
  let up := if 0 ≤ scale then 1 <<< scale.toNat else 1
  let denominator := if 0 ≤ scale then 1 else 1 <<< (-scale).toNat
  ⟨lower * up, 4 * m * up, (4 * m + 2) * up, denominator, m % 2 = 0⟩

/-- Whether `n / denominator`, given over the interval's denominator as `n`, rounds to the double. -/
def Interval.contains (i : Interval) (n scaleLow : Nat) : Bool :=
  if i.closed then i.low * scaleLow ≤ n && n ≤ i.high * scaleLow
  else i.low * scaleLow < n && n < i.high * scaleLow

def power10 (e : Int) : Nat × Nat :=
  if 0 ≤ e then (Nat.pow 10 e.toNat, 1) else (1, Nat.pow 10 (-e).toNat)

/-- The exponent `k` with `10 ^ (k - 1) ≤ value < 10 ^ k`, from an estimate that is off by at most one. -/
def pointOf (i : Interval) (estimate : Int) : Int :=
  let below (k : Int) : Bool :=
    let (p, q) := power10 k
    i.value * q < p * i.denominator
  if !below estimate then estimate + 1
  else if below (estimate - 1) then estimate - 1
  else estimate

/-- The better of the two neighbours of the value among decimals of `count` digits, if one reads back. -/
def onGrid? (i : Interval) (point : Int) (count : Nat) : Option Nat :=
  let (p, q) := power10 (point - count)
  -- the value is `value * q / (denominator * p)` units of the grid
  let unit := i.denominator * p
  let n := i.value * q / unit
  let down := i.contains (n * unit) q
  let up := i.contains ((n + 1) * unit) q
  if down && up then
    if (2 * n + 1) * unit ≤ 2 * (i.value * q) then some (n + 1) else some n
  else if down then some n
  else if up then some (n + 1)
  else none

def stripZeros : Nat → Nat → Nat
  | 0, n => n
  | fuel + 1, n => if n % 10 = 0 && n ≠ 0 then stripZeros fuel (n / 10) else n

/-- The shortest decimal of a positive finite double; seventeen digits always suffice. -/
def shortest (d : Double) : Decimal :=
  let i := Interval.ofDouble d
  let leading := (d.significand.log2 : Int) + d.exponent
  let point := pointOf i (leading * 30103 / 100000 + 1)
  let counts := (List.range 17).map (· + 1)
  match counts.findSome? (fun c => (onGrid? i point c).map (fun n => (c, n))) with
  | some (c, n) =>
    let carried := n = Nat.pow 10 c
    ⟨stripZeros 20 n, if carried then point + 1 else point⟩
  | none => ⟨0, 0⟩

def digitChars (x : Decimal) : List Char := Nat.toDigits 10 x.digits

end Decimal
end DocClient
