import Accounts.Number.Binary64

/-!
# JSON values

Numbers are exact while they are integers of 64 bits and binary64 beyond that. An object keeps its
members in order; `ofMembers` makes one that is sorted by key and in which no key occurs twice.
-/
namespace Accounts

namespace Json

/-- `natural n` stands for `n`, `negative n` for `-n`, which is not zero, and `float` for the sign
and the magnitude of a binary64 number. -/
inductive Number where
  | natural (n : Nat)
  | negative (n : Nat)
  | float (isNegative : Bool) (magnitude : Binary64)
  deriving DecidableEq, Repr

end Json

inductive Json where
  | null
  | bool (b : Bool)
  | number (n : Json.Number)
  | string (s : String)
  | array (items : List Json)
  | object (members : List (String × Json))

namespace Json

/-- Sets a member, keeping the keys sorted. -/
def insertMember (key : String) (value : Json) :
    List (String × Json) → List (String × Json)
  | [] => [(key, value)]
  | (k, v) :: rest =>
    if key < k then (key, value) :: (k, v) :: rest
    else if key = k then (key, value) :: rest
    else (k, v) :: insertMember key value rest

/-- The object with these members; of two with one key the later counts. -/
def ofMembers (members : List (String × Json)) : Json :=
  .object (members.foldl (fun ms (k, v) => insertMember k v ms) [])

def get? (key : String) : Json → Option Json
  | .object members => (members.find? fun m => m.1 == key).map Prod.snd
  | _ => none

def getString? : Json → Option String
  | .string s => some s
  | _ => none

end Json

end Accounts
