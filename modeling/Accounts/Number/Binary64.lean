/-!
# Double precision without sign

Finite non-negative binary64 numbers as a mantissa and a power of two, with rounding of an exact
ratio to the nearest of them, a tie going to the even mantissa. Products and quotients are the
rounded exact ones.
-/
namespace Accounts

/-- Stands for `mantissa * 2 ^ exponent`. -/
structure Binary64 where
  mantissa : Nat
  exponent : Int
  deriving DecidableEq, Repr

/-- The quotient rounded to the nearest integer, a tie to the even one. -/
def roundQuotient (num den : Nat) : Nat :=
  let q := num / den
  let r := num % den
  if 2 * r < den ∨ (2 * r = den ∧ q % 2 = 0) then q else q + 1

/-- `num / den` divided by `2 ^ e`. -/
def scaleRatio (num den : Nat) (e : Int) : Nat × Nat :=
  if 0 ≤ e then (num, den * Nat.pow 2 e.toNat) else (num * Nat.pow 2 (-e).toNat, den)

namespace Binary64

/-- The least mantissa of 53 bits. -/
def leastNormal : Nat := 4503599627370496

def zero : Binary64 := ⟨0, -1074⟩

def isZero (x : Binary64) : Bool := x.mantissa == 0

def ratio (x : Binary64) : Nat × Nat := scaleRatio x.mantissa 1 (-x.exponent)

/-- The exponent that leaves 53 bits before the point, or the least one there is. -/
def exponentOf (num den : Nat) : Int :=
  let k : Int := (num.log2 : Int) - (den.log2 : Int)
  let (n, d) := scaleRatio num den k
  max (if n < d then k - 53 else k - 52) (-1074)

/-- The nearest number to `num / den`, or nothing where that is beyond the largest one. -/
def nearest (num den : Nat) : Option Binary64 :=
  if num = 0 then some zero
  else
    let e := exponentOf num den
    let (n, d) := scaleRatio num den e
    let m := roundQuotient n d
    let x : Binary64 := if m = 2 * leastNormal then ⟨leastNormal, e + 1⟩ else ⟨m, e⟩
    if 971 < x.exponent then none else some x

def mul (x y : Binary64) : Option Binary64 :=
  let (a, b) := x.ratio
  let (c, d) := y.ratio
  nearest (a * c) (b * d)

/-- The quotient of `x` by a number that is not zero. -/
def div (x y : Binary64) : Option Binary64 :=
  let (a, b) := x.ratio
  let (c, d) := y.ratio
  nearest (a * d) (b * c)

end Binary64

end Accounts
