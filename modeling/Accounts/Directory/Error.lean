import Accounts.Backend.Error
import Accounts.User.Basic

/-!
# Failures of the directory
-/
namespace Accounts

/-- Why the directory refuses a user or does not find one: `corrupt` is a record that is no user. -/
inductive DirectoryError where
  | invalidUser (reason : String)
  | notFound
  | taken (field : UniqueField)
  | backend (e : BackendError)
  | corrupt (reason : String)
  deriving DecidableEq, Repr

def DirectoryError.message : DirectoryError → String
  | .invalidUser reason => "Invalid user object: " ++ reason
  | .notFound => "User not found"
  | .taken .email => "The given email address is already taken"
  | .taken .loginName => "The given login name is already taken"
  | .taken .resetToken => "The given reset password token is already taken"
  | .backend e => "Storage error: " ++ e.message
  | .corrupt reason => "Invalid data: " ++ reason

end Accounts
