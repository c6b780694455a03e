import Accounts.Directory.Action
import Accounts.User.Encoding

/-!
# Finding users

A user is found by its id or through an index. An entry of an index counts only if the record of
its owner still has the value, so what an interrupted save leaves behind is never taken for a user.
-/
namespace Accounts.Directory

/-- The user with this id, if there is a record of it. -/
def load (id : String) : Action (Option User) := do
  match ← ask (.record id) with
  | none => pure none
  | some text =>
    match User.decode? text with
    | none => throw (.corrupt "not a user")
    | some u => pure (some u)

def get (id : String) : Action User := do
  if id = "" then throw (.invalidUser "user id must not be empty")
  match ← load id with
  | none => throw .notFound
  | some u => pure u

def findOwner (f : UniqueField) (key : String) : Action User := do
  match ← ask (.owner f.index key) with
  | none => throw .notFound
  | some id =>
    match ← load id with
    | none => throw .notFound
    | some u => if u.unique? f = some key then pure u else throw .notFound

def find : SearchField → Action User
  | .id id => get id
  | .loginName key => findOwner .loginName key
  | .email key => findOwner .email key
  | .resetToken key => findOwner .resetToken key

end Accounts.Directory
