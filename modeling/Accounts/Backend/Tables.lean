import Accounts.Backend.Request

/-!
# What a backend has to do

The meaning of the requests on two functions, from ids to records and from the keys of an index to
owners. Every backend that does not fail behaves like this.
-/
namespace Accounts.Backend

structure Tables where
  record : String → Option String
  entry : String → String → Option String

namespace Tables

def empty : Tables := ⟨fun _ => none, fun _ _ => none⟩

def withRecord (t : Tables) (id : String) (value : Option String) : Tables :=
  { t with record := fun i => if i = id then value else t.record i }

def withEntry (t : Tables) (index key : String) (owner : Option String) : Tables :=
  { t with entry := fun i k => if i = index ∧ k = key then owner else t.entry i k }

def respond : (r : Request) → Tables → r.Value × Tables
  | .record id, t => (t.record id, t)
  | .setRecord id value, t => ((), t.withRecord id (some value))
  | .deleteRecord id, t => ((), t.withRecord id none)
  | .owner index key, t => (t.entry index key, t)
  | .putEntry index key owner, t => ((), t.withEntry index key (some owner))
  | .claimEntry index key owner, t =>
    match t.entry index key with
    | some current => (current == owner, t)
    | none => (true, t.withEntry index key (some owner))
  | .removeEntry index key, t => ((), t.withEntry index key none)
  | .releaseEntry index key owner, t =>
    ((), if t.entry index key = some owner then t.withEntry index key none else t)

def serve : Handler interface Tables := fun r t =>
  let (v, t) := respond r t
  (.ok v, t)

end Tables

end Accounts.Backend
