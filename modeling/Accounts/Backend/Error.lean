/-!
# Failures of a backend
-/
namespace Accounts

/-- Why a call to a backend failed: the store could not be used, a value could not be converted,
or the answer was not one of those the call has. -/
inductive BackendError where
  | failed (reason : String)
  | unconvertible (reason : String)
  | unexpectedReply (reason : String)
  deriving DecidableEq, Repr

def BackendError.message : BackendError → String
  | .failed reason => "Storage error: " ++ reason
  | .unconvertible reason => "Json conversion(Serde) error: " ++ reason
  | .unexpectedReply reason => "Unexpected backend response: " ++ reason

end Accounts
