import Accounts.Time.Instant

/-!
# Users

A user account, the fields of it that no two accounts may share, and the ways to look one up. An
empty text is no value of a unique field, so two users without a token do not collide.
-/
namespace Accounts

structure User where
  id : String
  profileName : String
  loginName : String
  passwordHash : String
  email : String
  emailVerified : Bool
  resetToken : Option String
  resetTokenIssued : Option Instant
  deriving DecidableEq, Repr

/-- The fields that have at most one owner for each value, in the order of their checks. -/
inductive UniqueField where
  | email
  | loginName
  | resetToken
  deriving DecidableEq, Repr

namespace UniqueField

def all : List UniqueField := [email, loginName, resetToken]

theorem mem_all (f : UniqueField) : f ∈ all := by
  cases f <;> decide

/-- The name of the index that maps the values of the field to their owners. -/
def index : UniqueField → String
  | email => "emails"
  | loginName => "login_name"
  | resetToken => "reset_password_token"

theorem index_injective {f g : UniqueField} (h : f.index = g.index) : f = g := by
  cases f <;> cases g <;> simp_all [index]

end UniqueField

namespace User

/-- A new account: not verified and without a token. -/
def create (id profileName email loginName passwordHash : String) : User :=
  ⟨id, profileName, loginName, passwordHash, email, false, none, none⟩

def unique? (u : User) (f : UniqueField) : Option String :=
  let value := match f with
    | .email => some u.email
    | .loginName => some u.loginName
    | .resetToken => u.resetToken
  value.filter fun v => v ≠ ""

/-- The unique fields that have a value, with it. -/
def uniqueValues (u : User) : List (UniqueField × String) :=
  UniqueField.all.filterMap fun f => (u.unique? f).map fun v => (f, v)

theorem mem_uniqueValues {u : User} {f : UniqueField} {key : String} :
    (f, key) ∈ u.uniqueValues ↔ u.unique? f = some key := by
  simp [uniqueValues, UniqueField.mem_all]

end User

/-- What a user is looked up by. -/
inductive SearchField where
  | id (id : String)
  | loginName (loginName : String)
  | email (email : String)
  | resetToken (token : String)
  deriving DecidableEq, Repr

namespace SearchField

/-- A description for messages; a token is a secret and does not show. -/
def describe : SearchField → String
  | id v => "id=" ++ v
  | loginName v => "login_name=" ++ v
  | email v => "email=" ++ v
  | resetToken _ => "reset_password_token=<redacted>"

end SearchField

end Accounts
