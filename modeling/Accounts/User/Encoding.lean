import Accounts.Json.Printer
import Accounts.Json.Reader
import Accounts.Time.Rfc3339
import Accounts.User.Basic

/-!
# Users as JSON text

A user is written as one object with its fields in a fixed order; an absent token is left out. The
reader takes the fields in any order, ignores members that are no field whatever their value, and
refuses a field that is given twice. It also takes an array of the fields in order.
-/
namespace Accounts.User

open Accounts.Json

inductive Field where
  | id
  | profileName
  | loginName
  | passwordHash
  | email
  | emailVerified
  | resetToken
  | resetTokenIssued
  deriving DecidableEq, Repr

namespace Field

/-- In the order in which they are written. -/
def all : List Field :=
  [id, profileName, loginName, passwordHash, email, emailVerified, resetToken, resetTokenIssued]

def name : Field → String
  | id => "id"
  | profileName => "profile_name"
  | loginName => "login_name"
  | passwordHash => "login_password_hash"
  | email => "email"
  | emailVerified => "email_verified"
  | resetToken => "reset_password_token"
  | resetTokenIssued => "reset_password_token_issued"

def ofName? (s : String) : Option Field := all.find? fun f => f.name == s

theorem ofName?_name (f : Field) : ofName? f.name = some f := by
  cases f <;> decide +kernel

end Field

def toJson (u : User) : Json :=
  let required := [(Field.id, Json.string u.id), (.profileName, .string u.profileName),
    (.loginName, .string u.loginName), (.passwordHash, .string u.passwordHash),
    (.email, .string u.email), (.emailVerified, .bool u.emailVerified)]
  let token := u.resetToken.toList.map fun t => (Field.resetToken, Json.string t)
  let issued := u.resetTokenIssued.toList.map fun t =>
    (Field.resetTokenIssued, Json.string (String.ofList t.write))
  .object ((required ++ token ++ issued).map fun (f, v) => (f.name, v))

def encode (u : User) : String := u.toJson.toText

def string? : Document → Option String
  | .string s => s.denote.map String.ofList
  | _ => none

def bool? : Document → Option Bool
  | .bool b => some b
  | _ => none

def instant? (d : Document) : Option Instant := (string? d).bind fun s => Instant.read? s.toList

/-- A value that may be missing or null. -/
def optional? {α : Type} (read : Document → Option α) : Option Document → Option (Option α)
  | none => some none
  | some .null => some none
  | some d => (read d).map some

/-- The user whose fields are given by these documents. -/
def ofFields? (given : Field → Option Document) : Option User := do
  let id ← (given .id).bind string?
  let profileName ← (given .profileName).bind string?
  let loginName ← (given .loginName).bind string?
  let passwordHash ← (given .passwordHash).bind string?
  let email ← (given .email).bind string?
  let emailVerified ← match given .emailVerified with
    | none => some false
    | some d => bool? d
  let resetToken ← optional? string? (given .resetToken)
  let resetTokenIssued ← optional? instant? (given .resetTokenIssued)
  pure ⟨id, profileName, loginName, passwordHash, email, emailVerified, resetToken,
    resetTokenIssued⟩

/-- The members that are fields, each at most once. -/
def fields? : List (Literal × Document) → Option (List (Field × Document))
  | [] => some []
  | (key, d) :: ms => do
    let key ← key.denote
    let fs ← fields? ms
    match Field.ofName? (String.ofList key) with
    | none => pure fs
    | some f => if fs.any fun e => e.1 == f then none else pure ((f, d) :: fs)

def ofDocument? : Document → Option User
  | .object members => do
    let fs ← fields? members
    ofFields? fun f => (fs.find? fun e => e.1 == f).map Prod.snd
  | .array items =>
    if Field.all.length < items.length then none
    else ofFields? fun f => items[Field.all.idxOf f]?
  | _ => none

def decode? (s : String) : Option User := (Document.read? s.toList).bind ofDocument?

def decodeBytes? (bs : List UInt8) : Option User := (Document.readBytes? bs).bind ofDocument?

end Accounts.User
