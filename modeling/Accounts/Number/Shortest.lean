import Accounts.Number.Binary64

/-!
# Shortest decimals

The decimal with the fewest digits among those that round to a given binary64 number, and of
these the nearest to it. For each number of digits only the two neighbours on that decimal grid
matter, since a grid point that rounds to the number has one of them beside it.
-/
namespace Accounts

/-- Stands for `coefficient * 10 ^ exponent`. -/
structure Decimal where
  coefficient : Nat
  exponent : Int
  deriving DecidableEq, Repr

namespace Decimal

/-- The power of ten of the first digit of `num / den`, which is at least one. -/
def leadingPower (num den : Nat) : Nat → Nat
  | 0 => 0
  | fuel + 1 => if num < 10 * den then 0 else leadingPower num (10 * den) fuel + 1

/-- How many tens bring `num / den`, which is below one, up to one. -/
def liftingPower (num den : Nat) : Nat → Nat
  | 0 => 0
  | fuel + 1 => if den ≤ num then 0 else liftingPower (10 * num) den fuel + 1

/-- The power of ten of the first digit of a binary64 ratio. -/
def firstPower (num den : Nat) : Int :=
  if den ≤ num then leadingPower num den 310 else -(liftingPower num den 325 : Int)

/-- The bounds of the numbers that round to `x`, in units of a quarter of its last bit. -/
def bounds (x : Binary64) : Nat × Nat :=
  let m := 4 * x.mantissa
  if x.mantissa = Binary64.leastNormal ∧ -1074 < x.exponent then (m - 1, m + 2) else (m - 2, m + 2)

/-- `num / den` compared with `c * 10 ^ p`: the two sides brought to one denominator. -/
def sides (num den c : Nat) (p : Int) : Nat × Nat :=
  if 0 ≤ p then (num, c * Nat.pow 10 p.toNat * den) else (num * Nat.pow 10 (-p).toNat, c * den)

def roundsTo (x : Binary64) (c : Nat) (p : Int) : Bool :=
  let (lo, hi) := bounds x
  let (ln, ld) := scaleRatio lo 1 (2 - x.exponent)
  let (hn, hd) := scaleRatio hi 1 (2 - x.exponent)
  let (l, cl) := sides ln ld c p
  let (h, ch) := sides hn hd c p
  if x.mantissa % 2 = 0 then l ≤ cl && ch ≤ h else l < cl && ch < h

/-- The better of the two neighbours of `x` among the multiples of `10 ^ p`, if one rounds to it. -/
def onGrid (x : Binary64) (p : Int) : Option Nat :=
  let (num, den) := x.ratio
  let (n, d) := sides num den 1 p
  let c := n / d
  let below := roundsTo x c p
  let above := roundsTo x (c + 1) p
  let nearerBelow := 2 * (n % d) < d || (2 * (n % d) == d && c % 2 == 0)
  if below && (nearerBelow || !above) then some c
  else if above then some (c + 1)
  else none

/-- Tries ever finer grids, from the power of the first digit down. -/
def search (x : Binary64) : Nat → Int → Decimal
  | 0, _ => ⟨0, 0⟩
  | fuel + 1, p =>
    match onGrid x p with
    | some c => ⟨c, p⟩
    | none => search x fuel (p - 1)

def shortest (x : Binary64) : Decimal :=
  if x.isZero then ⟨0, 0⟩
  else
    let (num, den) := x.ratio
    search x 17 (firstPower num den)

end Decimal

end Accounts
