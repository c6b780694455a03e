import Accounts.Directory.Action
import Accounts.Event.Basic
import Accounts.Service.Error
import Accounts.Time.Instant

/-!
# Actions of the service

What an operation of the service may call: the directory, a hasher, a source of identifiers, a
clock, and the streams that events go to. Hashing and checking a password may crash, which fails
the operation and nothing else.
-/
namespace Accounts.Service

inductive Call where
  | directory (c : Directory.Call)
  | hash (password : String)
  | verify (password hash : String)
  | needsRehash (hash : String)
  | newId
  | newToken
  | now
  | publish (e : Event)
  deriving DecidableEq, Repr

/-- There is no reply from a hasher that crashed. -/
def Call.Reply : Call → Type
  | directory c => c.Reply
  | hash _ => Option (Except HasherError String)
  | verify _ _ => Option Bool
  | needsRehash _ => Bool
  | newId | newToken => Except IdentifierError String
  | now => Instant
  | publish _ => Unit

abbrev interface : Interface := ⟨Call, Call.Reply⟩

abbrev Action (α : Type) : Type := ExceptT ServiceError (Program interface) α

variable {α : Type}

def ask (c : Call) : Action c.Reply := ExceptT.lift (Program.ask (I := interface) c)

/-- An action of the directory as part of an operation. -/
def onDirectory (a : Directory.Action α) : Action α :=
  ExceptT.mk ((a.run.embed fun c => Program.ask (I := interface) (.directory c)).bind fun r =>
    .done (r.mapError .directory))

def crashed : ServiceError := .crash "Blocking task failed"

def hashPassword (password : String) : Action String := do
  match ← ask (.hash password) with
  | none => throw crashed
  | some (.error e) => throw (.hasher e)
  | some (.ok hash) => pure hash

def verifyPassword (password hash : String) : Action Bool := do
  match ← ask (.verify password hash) with
  | none => throw crashed
  | some valid => pure valid

def newId : Action String := do
  match ← ask .newId with
  | .error e => throw (.identifier e)
  | .ok id => pure id

def newToken : Action String := do
  match ← ask .newToken with
  | .error e => throw (.identifier e)
  | .ok token => pure token

def publish (e : Event) : Action Unit := ask (.publish e)

/-- Refuses an argument that is empty. -/
def require (name value : String) : Action Unit :=
  if value = "" then throw (.invalidArguments (name ++ " must not be empty")) else pure ()

end Accounts.Service
