import Accounts.Json.Basic
import Accounts.Json.Literal
import Accounts.Number.Shortest
import Accounts.Text.Decimal

/-!
# JSON text

The compact text of a value. A binary64 number has the fewest digits that read back; it is
positional from `0.00001` up to sixteen digits before the point and has a signed exponent
outside.
-/
namespace Accounts.Json

open Accounts.Text

/-- The digits without zeros at the end, and the power of ten of the first of them. -/
def significant (d : Decimal) : List Char × Int :=
  let ds := digits d.coefficient
  let kept := (ds.reverse.dropWhile (· == '0')).reverse
  (if kept.isEmpty then ['0'] else kept, d.exponent + (ds.length - 1 : Nat))

/-- Digits with a point after the one of power zero, and at least one digit on each side. -/
def positional (ds : List Char) (power : Int) : List Char :=
  if 0 ≤ power then
    let whole := power.toNat + 1
    let front := ds.take whole ++ List.replicate (whole - ds.length) '0'
    let back := ds.drop whole
    front ++ '.' :: (if back.isEmpty then ['0'] else back)
  else '0' :: '.' :: (List.replicate ((-power).toNat - 1) '0' ++ ds)

def scientific (ds : List Char) (power : Int) : List Char :=
  let back := ds.drop 1
  let sign := if 0 ≤ power then '+' else '-'
  ds.take 1 ++ (if back.isEmpty then [] else '.' :: back) ++ 'e' :: sign :: digits power.natAbs

def writeBinary64 (x : Binary64) : List Char :=
  let (ds, power) := significant (Decimal.shortest x)
  if -5 ≤ power ∧ power ≤ 15 then positional ds power else scientific ds power

def Number.write : Number → List Char
  | .natural n => digits n
  | .negative n => '-' :: digits n
  | .float isNegative x => (if isNegative then ['-'] else []) ++ writeBinary64 x

mutual

def write : Json → List Char
  | .null => ['n', 'u', 'l', 'l']
  | .bool true => ['t', 'r', 'u', 'e']
  | .bool false => ['f', 'a', 'l', 's', 'e']
  | .number n => n.write
  | .string s => Literal.write s.toList
  | .array items => '[' :: (writeItems items ++ [']'])
  | .object members => '{' :: (writeMembers members ++ ['}'])

def writeItems : List Json → List Char
  | [] => []
  | [v] => v.write
  | v :: vs => v.write ++ ',' :: writeItems vs

def writeMembers : List (String × Json) → List Char
  | [] => []
  | [(k, v)] => Literal.write k.toList ++ ':' :: v.write
  | (k, v) :: ms => Literal.write k.toList ++ ':' :: v.write ++ ',' :: writeMembers ms

end

def toText (v : Json) : String := String.ofList v.write

end Accounts.Json
