import Accounts.Directory.Save
import Accounts.Service.Action

/-!
# Operations on accounts

Each change of an account reads the user, changes it and saves it, and the save checks the unique
values again. Each argument is checked before it is used, and an event is published when an
operation that is more than a look-up has succeeded.
-/
namespace Accounts.Service

/-- The rules of the service. -/
structure Rules where
  verifiedEmailRequired : Bool
  tokenLifetime : Duration
  deriving DecidableEq, Repr

/-- A token can be used for a day. -/
def Rules.standard : Rules := ⟨true, Duration.ofSeconds 86400⟩

inductive Operation where
  | createUser (profileName email loginName password : String)
  | getUser (id : String)
  | changeCredentials (id loginName password : String)
  | changePassword (id password : String)
  | changeProfileName (id profileName : String)
  | changeEmail (id email : String)
  | authenticate (loginName password : String)
  | setEmailVerified (id : String)
  | confirmEmail (id email : String)
  | newToken (fields : List SearchField)
  | resetCredentials (token loginName password : String)
  deriving DecidableEq, Repr

/-- What a successful operation returns. -/
inductive Answer where
  | done
  | text (s : String)
  | user (u : User)
  deriving DecidableEq, Repr

def save (u : User) : Action Unit := onDirectory (Directory.save u)

/-- Reads a user, changes it and saves it. -/
def update (id : String) (change : User → Except ServiceError User) : Action User := do
  require "user_id" id
  let u ← onDirectory (Directory.get id)
  let u ← ExceptT.mk (.done (change u))
  save u
  pure u

def createUser (profileName email loginName password : String) : Action String := do
  require "profile_name" profileName
  require "email" email
  require "login_name" loginName
  require "login_password" password
  let hash ← hashPassword password
  let id ← newId
  save (User.create id profileName email loginName hash)
  publish (.created id email loginName)
  pure id

def getUser (id : String) : Action User := do
  require "user_id" id
  onDirectory (Directory.get id)

def changeCredentials (id loginName password : String) : Action Unit := do
  require "login_name" loginName
  require "login_password" password
  let hash ← hashPassword password
  let _ ← update id fun u => .ok { u with loginName := loginName, passwordHash := hash }
  publish (.credentialsChanged id loginName)

def changePassword (id password : String) : Action Unit := do
  require "login_password" password
  let hash ← hashPassword password
  let _ ← update id fun u => .ok { u with passwordHash := hash }
  publish (.passwordChanged id)

def changeProfileName (id profileName : String) : Action Unit := do
  require "profile_name" profileName
  let _ ← update id fun u => .ok { u with profileName := profileName }
  publish (.profileNameChanged id profileName)

/-- The new address counts as verified if the old one did. -/
def changeEmail (id email : String) : Action Unit := do
  require "email" email
  let _ ← update id fun u => .ok { u with email := email }
  publish (.emailChanged id email)

def setEmailVerified (id : String) : Action Unit := do
  let u ← update id fun u => .ok { u with emailVerified := true }
  publish (.emailVerified id u.email)

/-- Marks the address as verified if it is still that of the user. -/
def confirmEmail (id email : String) : Action Unit := do
  require "email" email
  let _ ← update id fun u =>
    if u.email = email then .ok { u with emailVerified := true } else .error .emailMismatch
  publish (.emailVerified id email)

/-- Saves a new hash of the password unless the hash has changed since it was checked. -/
def rehash (id checked password : String) : Action Unit := do
  let hash ← hashPassword password
  let u ← onDirectory (Directory.get id)
  if u.passwordHash = checked then save { u with passwordHash := hash }

/-- An outdated hash is replaced on the way; whether that works does not matter. -/
def authenticate (rules : Rules) (loginName password : String) : Action String := do
  require "login_name" loginName
  require "login_password" password
  let u ← onDirectory (Directory.find (.loginName loginName))
  if rules.verifiedEmailRequired && !u.emailVerified then throw .emailNotVerified
  if !(← verifyPassword password u.passwordHash) then throw .invalidCredentials
  let outdated : Bool ← ask (.needsRehash u.passwordHash)
  if outdated then tryCatch (rehash u.id u.passwordHash password) fun _ => pure ()
  publish (.authenticated u.id)
  pure u.id

def requireField : SearchField → Action Unit
  | .id v => require "user_id" v
  | .loginName v => require "login_name" v
  | .email v => require "email" v
  | .resetToken v => require "token" v

/-- The user that every one of these fields leads to, which is `known` if there is one. -/
def findByAll (known : Option User) : List SearchField → Action (Option User)
  | [] => pure known
  | f :: rest => do
    requireField f
    let u ← onDirectory (Directory.find f)
    if known.any fun k => k.id ≠ u.id then
      throw (.invalidArguments (f.describe ++ " belongs to a different user"))
    findByAll (some (known.getD u)) rest

/-- Issues a token for the user that all the fields lead to. -/
def newTokenBy (fields : List SearchField) : Action String := do
  match ← findByAll none fields with
  | none => throw (.invalidArguments "an email or login name is required")
  | some u =>
    let token ← newToken
    let now ← ask .now
    save { u with resetToken := some token, resetTokenIssued := some now }
    publish (.tokenCreated u.id)
    pure token

/-- The user with a token; an unknown one is an invalid argument. -/
def findByToken (token : String) : Action User :=
  tryCatch (onDirectory (Directory.find (.resetToken token))) fun e =>
    if e = .directory .notFound then throw (.invalidArguments "invalid reset password token")
    else throw e

/-- Whether a token issued then can no longer be used. -/
def isExpired (rules : Rules) (issued : Option Instant) : Action Bool := do
  match issued with
  | none => pure true
  | some t =>
    let now : Instant ← ask .now
    pure (rules.tokenLifetime.nanoseconds < (now.since t).nanoseconds)

/-- Sets new credentials for the user with the token, which is used up. -/
def resetCredentials (rules : Rules) (token loginName password : String) : Action String := do
  require "token" token
  require "login_name" loginName
  require "login_password" password
  let u ← findByToken token
  if ← isExpired rules u.resetTokenIssued then throw .tokenExpired
  let hash ← hashPassword password
  save { u with
    loginName := loginName, passwordHash := hash, resetToken := none, resetTokenIssued := none }
  publish (.credentialsReset u.id loginName)
  pure u.id

def perform (rules : Rules) : Operation → Action Answer
  | .createUser profileName email loginName password =>
    Answer.text <$> createUser profileName email loginName password
  | .getUser id => Answer.user <$> getUser id
  | .changeCredentials id loginName password =>
    (fun _ => .done) <$> changeCredentials id loginName password
  | .changePassword id password => (fun _ => .done) <$> changePassword id password
  | .changeProfileName id profileName => (fun _ => .done) <$> changeProfileName id profileName
  | .changeEmail id email => (fun _ => .done) <$> changeEmail id email
  | .authenticate loginName password => Answer.text <$> authenticate rules loginName password
  | .setEmailVerified id => (fun _ => .done) <$> setEmailVerified id
  | .confirmEmail id email => (fun _ => .done) <$> confirmEmail id email
  | .newToken fields => Answer.text <$> newTokenBy fields
  | .resetCredentials token loginName password =>
    Answer.text <$> resetCredentials rules token loginName password

end Accounts.Service
