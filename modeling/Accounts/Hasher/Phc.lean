import Accounts.Hasher.Argon2
import Accounts.Text.Base64
import Accounts.Text.Decimal
import Accounts.Text.Fields

/-!
# Hash strings

A hash as text names its algorithm, then a version, parameters, a salt and the hash itself, each
behind a dollar sign and all of them optional: `$argon2id$v=19$m=8,t=1,p=1$c2FsdHNhbHQ$...`.
-/
namespace Accounts.Hasher

open Accounts.Text

/-- The salt is kept as it is written; it need not be base64. -/
structure Phc where
  algorithm : List Char
  version : Option Nat
  parameters : List (List Char × List Char)
  salt : Option (List Char)
  output : Option (List UInt8)
  deriving DecidableEq, Repr

namespace Phc

def isNameChar (c : Char) : Bool := ('a' ≤ c && c ≤ 'z') || isDigit c || c == '-'

/-- The name of an algorithm or of a parameter. -/
def isName (s : List Char) : Bool := 1 ≤ s.length && s.length ≤ 32 && s.all isNameChar

def isValueChar (c : Char) : Bool :=
  ('a' ≤ c && c ≤ 'z') || ('A' ≤ c && c ≤ 'Z') || isDigit c ||
    c == '/' || c == '+' || c == '.' || c == '-'

def isValue (s : List Char) : Bool := s.length ≤ 64 && s.all isValueChar

/-- A number of 32 bits without needless zeros. -/
def decimal? (s : List Char) : Option Nat :=
  if s.head? = some '0' ∧ 1 < s.length then none
  else (readNat? s).filter fun n => n ≤ Cost.maxWord

def parameter? (s : List Char) : Option (List Char × List Char) :=
  match fields '=' s with
  | [name, value] => if isName name && isValue value then some (name, value) else none
  | _ => none

def maxParameterLength : Nat := 127

def parameters? (s : List Char) : Option (List (List Char × List Char)) :=
  if maxParameterLength < s.length then none else (fields ',' s).mapM parameter?

def salt? (s : List Char) : Option (List Char) :=
  if 4 ≤ s.length ∧ isValue s then some s else none

def output? (s : List Char) : Option (List UInt8) :=
  (Base64.decodeUnpadded? .standard s).filter fun bs => 10 ≤ bs.length ∧ bs.length ≤ 64

/-- Takes the version from the front of the fields, if it stands there. -/
def takeVersion? : List (List Char) → Option (Option Nat × List (List Char))
  | ('v' :: '=' :: s) :: fs =>
    if ',' ∈ s then some (none, ('v' :: '=' :: s) :: fs)
    else if isValue s then (decimal? s).map fun n => (some n, fs)
    else none
  | fs => some (none, fs)

/-- Takes the parameters from the front of the fields, if they stand there. -/
def takeParameters? : List (List Char) →
    Option (List (List Char × List Char) × List (List Char))
  | f :: fs => if '=' ∈ f then (parameters? f).map fun ps => (ps, fs) else some ([], f :: fs)
  | [] => some ([], [])

/-- The fields after the parameters. -/
def takeHash? : List (List Char) → Option (Option (List Char) × Option (List UInt8))
  | [] => some (none, none)
  | [salt] => (salt? salt).map fun salt => (some salt, none)
  | [salt, output] => do
    let salt ← salt? salt
    let output ← output? output
    pure (some salt, some output)
  | _ => none

/-- Nothing stands before the first dollar sign. -/
def parse? (s : List Char) : Option Phc :=
  match fields '$' s with
  | [] :: algorithm :: fs =>
    if isName algorithm then do
      let (version, fs) ← takeVersion? fs
      let (parameters, fs) ← takeParameters? fs
      let (salt, output) ← takeHash? fs
      pure ⟨algorithm, version, parameters, salt, output⟩
    else none
  | _ => none

def write (h : Phc) : List Char :=
  let version := h.version.toList.map fun n => 'v' :: '=' :: digits n
  let parameters :=
    if h.parameters.isEmpty then []
    else [joined ',' (h.parameters.map fun (name, value) => name ++ '=' :: value)]
  let output := h.output.toList.map (Base64.encodeUnpadded .standard)
  joined '$' ([] :: h.algorithm :: (version ++ parameters ++ h.salt.toList ++ output))

end Phc

end Accounts.Hasher
