import Accounts.Directory.Find

/-!
# Saving users

A save claims the unique values of a user, writes the record and gives up the values that the user
no longer has, in this order, so that every entry it writes points at a user with that value. An
entry whose owner does not have the value is a leftover and does not block it. After the record is
written the claims are confirmed; a save that lost one puts everything back.
-/
namespace Accounts.Directory

def validate (u : User) : Except DirectoryError Unit :=
  if u.id = "" then .error (.invalidUser "id is empty")
  else if u.email = "" then .error (.invalidUser "email is empty")
  else if u.loginName = "" then .error (.invalidUser "login name is empty")
  else if u.resetToken = some "" then
    .error (.invalidUser "reset password token is present but empty")
  else .ok ()

/-- Whether the record of `owner` has the value. -/
def holds (f : UniqueField) (key owner : String) : Action Bool := do
  let u ← load owner
  pure (u.any fun u => u.unique? f == some key)

/-- Whether a user other than `id` has the value. A leftover entry is removed on the way. -/
def isTaken (f : UniqueField) (key id : String) : Action Bool := do
  match ← ask (.owner f.index key) with
  | none => pure false
  | some owner =>
    if owner = id then pure false
    else if ← holds f key owner then pure true
    else
      ask (.releaseEntry f.index key owner)
      pure false

def checkFree (id : String) : List (UniqueField × String) → Action Unit
  | [] => pure ()
  | (f, key) :: rest => do
    if ← isTaken f key id then throw (.taken f)
    checkFree id rest

/-- Claims a value, once more if a leftover entry was in the way. -/
def claim (f : UniqueField) (key id : String) : Action Bool := do
  let claimed : Bool ← ask (.claimEntry f.index key id)
  if claimed then pure true
  else if ← isTaken f key id then pure false
  else ask (.claimEntry f.index key id)

/-- Releases entries of `id`, each whether or not the others could be. -/
def releaseAll (id : String) : List (UniqueField × String) → Action Unit
  | [] => pure ()
  | (f, key) :: rest => do
    attempt (ask (.releaseEntry f.index key id))
    releaseAll id rest

/-- Claims all these values and returns those that `old` did not have, after `acquired`. On a
failure the acquired ones are released. -/
def claimAll (id : String) (old : List (UniqueField × String)) :
    List (UniqueField × String) → List (UniqueField × String) →
    Action (List (UniqueField × String))
  | [], acquired => pure acquired
  | (f, key) :: rest, acquired => do
    if ← orElse (claim f key id) (releaseAll id acquired) then
      claimAll id old rest (if (f, key) ∈ old then acquired else acquired ++ [(f, key)])
    else
      releaseAll id acquired
      throw (.taken f)

/-- The first value whose entry does not name `id`. -/
def lostClaim (id : String) : List (UniqueField × String) → Action (Option UniqueField)
  | [] => pure none
  | (f, key) :: rest => do
    let owner : Option String ← ask (.owner f.index key)
    if owner = some id then lostClaim id rest else pure (some f)

/-- Puts back the record that was there before and releases the acquired entries. -/
def rollBack (id : String) (old : Option User) (acquired : List (UniqueField × String)) :
    Action Unit := do
  attempt (match old with
    | some u => ask (.setRecord id u.encode)
    | none => ask (.deleteRecord id))
  releaseAll id acquired

def saveLocked (u : User) : Action Unit := do
  checkFree u.id u.uniqueValues
  let old ← load u.id
  let oldValues := (old.map User.uniqueValues).getD []
  let acquired ← claimAll u.id oldValues u.uniqueValues []
  orElse (ask (.setRecord u.id u.encode)) (releaseAll u.id acquired)
  match ← orElse (lostClaim u.id u.uniqueValues) (rollBack u.id old acquired) with
  | some f =>
    rollBack u.id old acquired
    throw (.taken f)
  | none => releaseAll u.id (oldValues.filter fun v => v ∉ u.uniqueValues)

def save (u : User) : Action Unit := do
  ExceptT.mk (.done (validate u))
  locked (saveLocked u)

end Accounts.Directory
