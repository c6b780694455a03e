import Accounts.Directory.Error
import Accounts.Hasher.Error
import Accounts.Identifier.Source

/-!
# Failures of the service
-/
namespace Accounts

inductive ServiceError where
  | invalidArguments (reason : String)
  | invalidCredentials
  | emailMismatch
  | emailNotVerified
  | tokenExpired
  | directory (e : DirectoryError)
  | hasher (e : HasherError)
  | identifier (e : IdentifierError)
  | crash (reason : String)
  deriving DecidableEq, Repr

namespace ServiceError

def message : ServiceError → String
  | invalidArguments reason => "Invalid arguments: " ++ reason
  | invalidCredentials => "Invalid credentials"
  | emailMismatch => "Email address does not match current email for user"
  | emailNotVerified => "Email must be verified to authenticate"
  | tokenExpired => "Reset password token expired"
  | directory e => "User error: " ++ e.message
  | hasher e => "Hasher error: " ++ e.message
  | identifier e => "Id factory error: " ++ e.message
  | crash reason => "Internal error: " ++ reason

def isNotFound (e : ServiceError) : Bool := e == .directory .notFound

def isEmailTaken (e : ServiceError) : Bool := e == .directory (.taken .email)

def isLoginNameTaken (e : ServiceError) : Bool := e == .directory (.taken .loginName)

end ServiceError

end Accounts
