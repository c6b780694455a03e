import Accounts.Backend.Error
import Accounts.Program
import Accounts.Table
import Accounts.Text.Decimal

/-!
# A store with leases

A table of values each of which may be attached to a lease. Revoking a lease removes the values
attached to it. A put attaches its key to the lease it names and to no other, and can report what
it replaced. Transactions compare one value and then write one, as a single step.
-/
namespace Accounts.Backend.Gateway

structure Entry where
  value : String
  lease : Option String
  deriving DecidableEq, Repr

/-- What a transaction answers: whether its comparison held, and else the entry it looked at. -/
structure Outcome where
  succeeded : Bool
  current : Option Entry
  deriving DecidableEq, Repr

inductive Request where
  | status
  | range (key : String)
  | put (key value : String) (lease : Option String)
  | deleteRange (key : String)
  | grantLease (seconds : Nat)
  | revokeLease (lease : String)
  | createIfAbsent (key value : String)
  | deleteIfEqual (key value : String)
  deriving DecidableEq, Repr

/-- A put returns the entry that it replaced and a grant the new lease. -/
def Request.Value : Request → Type
  | range _ | put _ _ _ => Option Entry
  | grantLease _ => String
  | createIfAbsent _ _ | deleteIfEqual _ _ => Outcome
  | _ => Unit

abbrev interface : Interface where
  Call := Request
  Reply r := Except BackendError r.Value

structure State where
  entries : Table Entry
  granted : Nat
  deriving DecidableEq, Repr

namespace State

def empty : State := ⟨Table.empty, 0⟩

/-- Leases are numbered from 1001. -/
def lease (n : Nat) : String := String.ofList (Text.digits (1000 + n))

def revoke (s : State) (lease : String) : State :=
  { s with entries := ⟨s.entries.entries.filter fun e => e.2.lease != some lease⟩ }

def respond : (r : Request) → State → r.Value × State
  | .status, s => ((), s)
  | .range key, s => (s.entries.get? key, s)
  | .put key value lease, s =>
    (s.entries.get? key, { s with entries := s.entries.insert key ⟨value, lease⟩ })
  | .deleteRange key, s => ((), { s with entries := s.entries.erase key })
  | .grantLease _, s => (lease (s.granted + 1), { s with granted := s.granted + 1 })
  | .revokeLease lease, s => ((), s.revoke lease)
  | .createIfAbsent key value, s =>
    match s.entries.get? key with
    | some e => (⟨false, some e⟩, s)
    | none => (⟨true, none⟩, { s with entries := s.entries.insert key ⟨value, none⟩ })
  | .deleteIfEqual key value, s =>
    if (s.entries.get? key).map Entry.value = some value then
      (⟨true, none⟩, { s with entries := s.entries.erase key })
    else (⟨false, none⟩, s)

def serve : Handler interface State := fun r s =>
  let (v, s) := respond r s
  (.ok v, s)

end State

end Accounts.Backend.Gateway
