import Accounts.Backend.Storage
import Accounts.Service.Environment
import Accounts.Service.Operation
import Accounts.Session.Interference

/-!
# Sessions

A sequence of steps on one service over one storage. A step is an operation of the service, an
action of its directory, a request to its backend that is not watched, or a change of the clock. Its
report tells the result, the calls that were made, what the event stream put out, and which stored
values changed.
-/
namespace Accounts

namespace Session

inductive Step where
  | request (r : Backend.Request)
  | save (u : User)
  | find (field : SearchField)
  | perform (o : Service.Operation)
  | advance (d : Duration)
  | setClock (t : Instant)
  | setHasher (h : Hasher)

inductive Result where
  | nothing
  | text (s : Option String)
  | truth (b : Bool)
  | user (u : User)
  | time (t : Instant)
  deriving DecidableEq, Repr

inductive Failure where
  | backend (e : BackendError)
  | directory (e : DirectoryError)
  | service (e : ServiceError)
  deriving DecidableEq, Repr

structure State where
  storage : Backend.Storage
  environment : Service.Environment
  rules : Service.Rules

structure Report where
  result : Except Failure Result
  calls : List Recorded
  output : Event.Output
  changed : List (String × Option String)

def Result.ofValue : (r : Backend.Request) → r.Value → Result
  | .record _, v => .text v
  | .owner _ _, v => .text v
  | .claimEntry _ _ _, v => .truth v
  | .setRecord _ _, _ => .nothing
  | .deleteRecord _, _ => .nothing
  | .putEntry _ _ _, _ => .nothing
  | .removeEntry _ _, _ => .nothing
  | .releaseEntry _ _ _, _ => .nothing

def Result.ofAnswer : Service.Answer → Result
  | .done => .nothing
  | .text s => .text (some s)
  | .user u => .user u

/-- The storage with its calls recorded, next to the environment. -/
abbrev Scene : Type := Watched Backend.Storage × Service.Environment

/-- How the calls of an operation are answered under interference. -/
def serve (plan : List Interference) : Handler Service.interface Scene :=
  Service.serve (Directory.serve (Watched.serve Backend.Storage.serve plan))

variable {α : Type}

/-- Runs an action of the service. -/
def runService (plan : List Interference) (a : Service.Action α) (s : State) :
    Except ServiceError α × Scene :=
  a.run.run (serve plan) (.start s.storage, { s.environment with output := .empty })

/-- Runs an action of the directory. -/
def runDirectory (plan : List Interference) (a : Directory.Action α) (s : State) :
    Except DirectoryError α × Scene :=
  let (r, w) := a.run.run
    (Directory.serve (Watched.serve Backend.Storage.serve plan)) (.start s.storage)
  (r, (w, { s.environment with output := .empty }))

def quiet (s : State) (result : Result) (env : Service.Environment) :
    Except Failure Result × Scene :=
  (.ok result, (.start s.storage, { env with output := .empty }))

def act (plan : List Interference) (s : State) : Step → Except Failure Result × Scene
  | .request r =>
    let (reply, storage) := Backend.Storage.serve r s.storage
    ((reply.map (Result.ofValue r)).mapError .backend,
      (.start storage, { s.environment with output := .empty }))
  | .save u =>
    let (r, scene) := runDirectory plan (Directory.save u) s
    ((r.map fun _ => .nothing).mapError .directory, scene)
  | .find field =>
    let (r, scene) := runDirectory plan (Directory.find field) s
    ((r.map .user).mapError .directory, scene)
  | .perform o =>
    let (r, scene) := runService plan (Service.perform s.rules o) s
    ((r.map Result.ofAnswer).mapError .service, scene)
  | .advance d =>
    let now := s.environment.clock.advance d
    quiet s (.time now) { s.environment with clock := now }
  | .setClock t => quiet s (.time t) { s.environment with clock := t }
  | .setHasher h => quiet s .nothing { s.environment with hasher := h }

/-- The stored keys whose value is not the same in both, with the later value. -/
def changes (earlier later : Backend.Storage) : List (String × Option String) :=
  (earlier.keys ++ later.keys).eraseDups.filterMap fun key =>
    if earlier.get? key = later.get? key then none else some (key, later.get? key)

def step (plan : List Interference) (s : State) (a : Step) : Report × State :=
  let (result, watched, env) := act plan s a
  ({ result := result
     calls := watched.calls.reverse
     output := env.output
     changed := changes s.storage watched.backend },
    { s with storage := watched.backend, environment := env })

def run (s : State) : List (List Interference × Step) → List Report × State
  | [] => ([], s)
  | (plan, a) :: rest =>
    let (report, s) := step plan s a
    let (reports, s) := run s rest
    (report :: reports, s)

end Session

end Accounts
