/-!
# Failures of a hasher
-/
namespace Accounts

inductive HasherError where
  | invalidParameters (reason : String)
  | hashing (reason : String)
  deriving DecidableEq, Repr

def HasherError.message : HasherError → String
  | .invalidParameters reason => "Invalid hasher parameters: " ++ reason
  | .hashing reason => "Password hashing failed: " ++ reason

end Accounts
