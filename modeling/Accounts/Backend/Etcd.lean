import Accounts.Backend.Gateway
import Accounts.Backend.Memory
import Accounts.Text.Base64
import Accounts.Text.Utf8
import Accounts.Time.Instant

/-!
# The backend on etcd

Keys and values travel as base64. With a time to live, every record is put under a lease of its
own; the lease of the record it replaces then holds nothing and is revoked, and whether that works
does not matter.
-/
namespace Accounts.Backend.Etcd

open Accounts.Text

structure Settings where
  endpoint : String
  keyPrefix : String
  timeToLive : Option Duration
  deriving DecidableEq, Repr

def withoutSlashes (s : String) : String :=
  String.ofList (s.toList.reverse.dropWhile (· == '/')).reverse

/-- The same settings with no slash at the end of the endpoint and of the prefix. -/
def Settings.normal (c : Settings) : Settings :=
  ⟨withoutSlashes c.endpoint, withoutSlashes c.keyPrefix, c.timeToLive⟩

def encodeText (s : String) : String :=
  String.ofList (Base64.encode (Utf8.encode s.toList))

def decodeText (s : String) : Except BackendError String :=
  match Base64.decode? s.toList with
  | none => .error (.unexpectedReply "invalid base64 value")
  | some bs =>
    match Utf8.decode? bs with
    | none => .error (.unexpectedReply "value is not utf-8")
    | some s => .ok (String.ofList s)

theorem decodeText_encodeText (s : String) : decodeText (encodeText s) = .ok s := by
  unfold decodeText encodeText
  rw [String.toList_ofList, Base64.decode?_encode]
  simp only [Utf8.decode?_encode, String.ofList_toList]

theorem encodeText_injective {s t : String} (h : encodeText s = encodeText t) : s = t := by
  have hdecoded := decodeText_encodeText s
  rw [h, decodeText_encodeText] at hdecoded
  exact (Except.ok.inj hdecoded).symm

/-- The stored key of a value. -/
def Settings.key (c : Settings) (space key : String) : String :=
  encodeText (c.keyPrefix ++ "/" ++ space ++ "/" ++ key)

def valueOf : Option Gateway.Entry → Except BackendError (Option String)
  | none => .ok none
  | some e => (decodeText e.value).map some

/-- The lease of a replaced entry, if it has one and it is not the one now in use. -/
def superseded (current : String) (replaced : Option Gateway.Entry) : Option String :=
  (replaced.bind Gateway.Entry.lease).filter fun l => l ≠ "" ∧ l ≠ "0" ∧ l ≠ current

abbrev Action (α : Type) : Type := ExceptT BackendError (Program Gateway.interface) α

def ask (r : Gateway.Request) : Action r.Value := Program.ask (I := Gateway.interface) r

def get (key : String) : Action (Option String) := do
  let e ← ask (.range key)
  ExceptT.mk (.done (valueOf e))

def put (key value : String) : Action Unit := do
  let _ ← ask (.put key (encodeText value) none)

/-- Puts a value under a new lease of at least one second. -/
def putLeased (key value : String) (timeToLive : Duration) : Action Unit := do
  let seconds := max 1 (timeToLive.nanoseconds / Duration.perSecond).toNat
  let lease ← ask (.grantLease seconds)
  let replaced ← ask (.put key (encodeText value) (some lease))
  match superseded lease replaced with
  | none => pure ()
  | some old => tryCatch (ask (.revokeLease old)) fun _ => pure ()

def claim (key owner : String) : Action Bool := do
  let outcome ← ask (.createIfAbsent key (encodeText owner))
  if outcome.succeeded then pure true
  else
    let current ← ExceptT.mk (.done (valueOf outcome.current))
    pure (current == some owner)

def release (key owner : String) : Action Unit := do
  let _ ← ask (.deleteIfEqual key (encodeText owner))

def program (c : Settings) : (r : Request) → Action r.Value
  | .record id => get (c.key recordSpace id)
  | .setRecord id value =>
    match c.timeToLive with
    | none => put (c.key recordSpace id) value
    | some t => putLeased (c.key recordSpace id) value t
  | .deleteRecord id => ask (.deleteRange (c.key recordSpace id))
  | .owner index key => get (c.key index key)
  | .putEntry index key owner => put (c.key index key) owner
  | .claimEntry index key owner => claim (c.key index key) owner
  | .removeEntry index key => ask (.deleteRange (c.key index key))
  | .releaseEntry index key owner => release (c.key index key) owner

/-- Checks that the gateway answers. -/
def probe : Action Unit := ask .status

end Accounts.Backend.Etcd
