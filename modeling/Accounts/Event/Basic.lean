import Accounts.Json.Printer

/-!
# Events

What is announced after an operation on an account has succeeded. The payload is an object of texts
with its keys sorted.
-/
namespace Accounts

inductive Event where
  | created (id email loginName : String)
  | authenticated (id : String)
  | credentialsChanged (id loginName : String)
  | passwordChanged (id : String)
  | profileNameChanged (id profileName : String)
  | emailChanged (id email : String)
  | emailVerified (id email : String)
  | tokenCreated (id : String)
  | credentialsReset (id loginName : String)
  deriving DecidableEq, Repr

namespace Event

def tag : Event → String
  | created .. => "user.created"
  | authenticated .. => "user.authenticated"
  | credentialsChanged .. => "user.login_credentials_changed"
  | passwordChanged .. => "user.password_changed"
  | profileNameChanged .. => "user.profile_name_changed"
  | emailChanged .. => "user.email_changed"
  | emailVerified .. => "user.email_verified"
  | tokenCreated .. => "user.reset_login_credentials_token_created"
  | credentialsReset .. => "user.login_credentials_reset"

def members : Event → List (String × String)
  | created id email loginName =>
    [("email", email), ("login_name", loginName), ("user_id", id)]
  | authenticated id | passwordChanged id | tokenCreated id => [("user_id", id)]
  | credentialsChanged id loginName | credentialsReset id loginName =>
    [("login_name", loginName), ("user_id", id)]
  | profileNameChanged id profileName => [("profile_name", profileName), ("user_id", id)]
  | emailChanged id email | emailVerified id email => [("email", email), ("user_id", id)]

def payload (e : Event) : String :=
  (Json.object (e.members.map fun (k, v) => (k, .string v))).toText

end Event

end Accounts
