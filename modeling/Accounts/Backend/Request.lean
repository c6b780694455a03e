import Accounts.Backend.Error
import Accounts.Program

/-!
# Requests to a backend

A backend keeps one record for each user id and, for each index, one owner for each key. Two
requests are conditional and atomic: a claim sets an entry unless another user has it, and a
release removes an entry only from the owner it names.
-/
namespace Accounts.Backend

inductive Request where
  | record (id : String)
  | setRecord (id value : String)
  | deleteRecord (id : String)
  | owner (index key : String)
  | putEntry (index key owner : String)
  | claimEntry (index key owner : String)
  | removeEntry (index key : String)
  | releaseEntry (index key owner : String)
  deriving DecidableEq, Repr

/-- What a request returns: a record or an owner if there is one, and whether a claim holds. -/
@[reducible] def Request.Value : Request → Type
  | record _ | owner _ _ => Option String
  | claimEntry _ _ _ => Bool
  | _ => Unit

abbrev interface : Interface where
  Call := Request
  Reply r := Except BackendError r.Value

end Accounts.Backend
