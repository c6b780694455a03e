import Accounts.Hasher.Error

/-!
# Hashers

What the service asks of a hasher. Hashing and checking may crash, which is not a failure that the
hasher reports; then there is no result.
-/
namespace Accounts

/-- The salt is random and as long as the hasher asks for. -/
structure Hasher where
  saltBytes : Nat
  hash : (salt : List UInt8) → (password : String) → Option (Except HasherError String)
  verify : (password hash : String) → Option Bool
  needsRehash : (hash : String) → Bool

namespace Hasher

/-- A hasher that only puts a mark in front of the password, with chosen faults. -/
structure Plain where
  mark : String
  accepted : List String
  outdated : List String
  failing : List String
  crashing : List String
  deriving DecidableEq, Repr

/-- No salt is used. A password that is both failing and crashing fails. -/
def ofPlain (p : Plain) : Hasher where
  saltBytes := 0
  hash _ password :=
    if password ∈ p.failing then some (.error (.hashing "injected"))
    else if password ∈ p.crashing then none
    else some (.ok (p.mark ++ password))
  verify password hash := some (p.accepted.any fun mark => mark ++ password == hash)
  needsRehash hash := p.outdated.any fun mark => mark.toList.isPrefixOf hash.toList

end Hasher

end Accounts
