import Accounts.Json.Basic
import Accounts.Json.Document
import Accounts.Text.Utf8

/-!
# The value of a document

Gives a document its value. A literal must denote text and a number must not be beyond binary64;
arrays and objects nest at most 127 deep. A number with a fraction or an exponent is computed in
two rounded steps: the digits that fit 64 bits, then the power of ten.
-/
namespace Accounts.Json

open Accounts.Text

namespace Numeral

/-- The largest number of 64 bits. -/
def maxWord : Nat := 18446744073709551615

/-- The largest magnitude of a negative integer of 64 bits. -/
def maxNegative : Nat := 9223372036854775808

/-- Appends digits to a coefficient as long as the result fits 64 bits; the rest is returned. -/
def absorb (coefficient : Nat) : List Char → Nat × List Char
  | [] => (coefficient, [])
  | c :: s =>
    let next := coefficient * 10 + digitValue c
    if maxWord < next then (coefficient, c :: s) else absorb next s

def powerOfTen (n : Nat) : Binary64 := (Binary64.nearest (Nat.pow 10 n) 1).getD .zero

/-- `x * 10 ^ e`. Powers of ten beyond the largest are divided away in steps of `10 ^ 308`. -/
def scale (x : Binary64) (e : Int) : Option Binary64 :=
  if -308 ≤ e ∧ e ≤ 308 then
    if 0 ≤ e then x.mul (powerOfTen e.toNat) else x.div (powerOfTen (-e).toNat)
  else if x.isZero then some x
  else if h : 0 ≤ e then none
  else (x.div (powerOfTen 308)).bind fun y => scale y (e + 308)
  termination_by (-e).toNat
  decreasing_by omega

def exponentValue (n : Numeral) : Int :=
  match n.exponent with
  | none => 0
  | some (false, ds) => ofDigits ds
  | some (true, ds) => -(ofDigits ds : Int)

/-- The magnitude as a binary64 number. -/
def toBinary64? (n : Numeral) : Option Binary64 :=
  let (c, dropped) := absorb 0 n.whole
  let (c', unread) := absorb c n.fraction
  let shift : Int := dropped.length - (n.fraction.length - unread.length : Nat)
  (Binary64.nearest c' 1).bind fun x => scale x (shift + n.exponentValue)

def toNumber? (n : Numeral) : Option Number :=
  let whole := ofDigits n.whole
  if n.fraction.isEmpty ∧ n.exponent.isNone ∧ whole ≤ maxWord ∧
      (n.isNegative → 0 < whole ∧ whole ≤ maxNegative) then
    some (if n.isNegative then .negative whole else .natural whole)
  else (n.toBinary64?).map (.float n.isNegative)

end Numeral

def maxDepth : Nat := 127

mutual

/-- The value of a document with at most `depth` levels of nesting. -/
def ofDocument? (depth : Nat) : Document → Option Json
  | .null => some .null
  | .bool b => some (.bool b)
  | .number n => n.toNumber?.map .number
  | .string s => s.denote.map fun s => .string (String.ofList s)
  | .array items =>
    match depth with
    | 0 => none
    | depth + 1 => (ofItems? depth items).map .array
  | .object members =>
    match depth with
    | 0 => none
    | depth + 1 => (ofMemberList? depth members).map ofMembers

def ofItems? (depth : Nat) : List Document → Option (List Json)
  | [] => some []
  | d :: ds => do
    let v ← ofDocument? depth d
    let vs ← ofItems? depth ds
    pure (v :: vs)

def ofMemberList? (depth : Nat) :
    List (Literal × Document) → Option (List (String × Json))
  | [] => some []
  | (key, d) :: ms => do
    let key ← key.denote
    let v ← ofDocument? depth d
    let vs ← ofMemberList? depth ms
    pure ((String.ofList key, v) :: vs)

end

def parse? (s : List Char) : Option Json := (Document.read? s).bind (ofDocument? maxDepth)

/-- The value of a byte sequence, which has to be undamaged UTF-8. -/
def parseBytes? (bs : List UInt8) : Option Json := (Utf8.decode? bs).bind parse?

end Accounts.Json
