import Accounts.Backend.Request
import Accounts.Table

/-!
# The backend in memory

One table for records and entries. Their keys differ in what stands before the first colon, as
long as no index is called `user`.
-/
namespace Accounts.Backend

/-- The key of a value in a store that has one space of keys. -/
def flatKey (space key : String) : String := space ++ ":" ++ key

/-- The space of keys that records are in. -/
def recordSpace : String := "user"

namespace Memory

def respond : (r : Request) → Table String → r.Value × Table String
  | .record id, t => (t.get? (flatKey recordSpace id), t)
  | .setRecord id value, t => ((), t.insert (flatKey recordSpace id) value)
  | .deleteRecord id, t => ((), t.erase (flatKey recordSpace id))
  | .owner index key, t => (t.get? (flatKey index key), t)
  | .putEntry index key owner, t => ((), t.insert (flatKey index key) owner)
  | .claimEntry index key owner, t =>
    match t.get? (flatKey index key) with
    | some current => (current == owner, t)
    | none => (true, t.insert (flatKey index key) owner)
  | .removeEntry index key, t => ((), t.erase (flatKey index key))
  | .releaseEntry index key owner, t =>
    ((), if t.get? (flatKey index key) = some owner then t.erase (flatKey index key) else t)

def serve : Handler interface (Table String) := fun r t =>
  let (v, t) := respond r t
  (.ok v, t)

end Memory

end Accounts.Backend
