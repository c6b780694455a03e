import Accounts.Backend.Etcd
import Accounts.Backend.Redis

/-!
# Choosing a backend

A backend is chosen once and then answers requests. What can be reached under which address is
given as a `Network`; the backend in memory needs none.
-/
namespace Accounts.Backend

inductive Choice where
  | memory
  | redis (url : String)
  | etcd (settings : Etcd.Settings)
  deriving DecidableEq, Repr

/-- The servers that can be reached, by address. -/
structure Network where
  redis : String → Option (Table String)
  gateway : String → Option Gateway.State

/-- The network in which nothing answers. -/
def Network.unreachable : Network := ⟨fun _ => none, fun _ => none⟩

inductive Storage where
  | memory (table : Table String)
  | redis (server : Table String)
  | etcd (settings : Etcd.Settings) (gateway : Gateway.State)

namespace Storage

def connect (network : Network) : Choice → Except BackendError Storage
  | .memory => .ok (.memory Table.empty)
  | .redis url =>
    match network.redis url with
    | none => .error (.failed "no connection")
    | some server => .ok (.redis server)
  | .etcd settings =>
    match network.gateway settings.normal.endpoint with
    | none => .error (.failed "no connection")
    | some gateway =>
      let (r, gateway) := Etcd.probe.run.run Gateway.State.serve gateway
      r.map fun _ => .etcd settings.normal gateway

def serve : Handler interface Storage
  | r, .memory t =>
    let (v, t) := Memory.serve r t
    (v, .memory t)
  | r, .redis t =>
    let (v, t) := (Redis.program r).run Redis.serve t
    (v, .redis t)
  | r, .etcd c s =>
    let (v, s) := (Etcd.program c r).run.run Gateway.State.serve s
    (v, .etcd c s)

/-- The value under a stored key. -/
def get? (key : String) : Storage → Option String
  | memory t | redis t => t.get? key
  | etcd _ s => (s.entries.get? key).map Gateway.Entry.value

def keys : Storage → List String
  | memory t | redis t => t.keys
  | etcd _ s => s.entries.keys

end Storage

end Accounts.Backend
