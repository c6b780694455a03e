import Accounts.Backend.Memory
import Accounts.Text.Decimal

/-!
# The backend on Redis

Each request is one command. Claims and releases are scripts that the server runs as a single
step. A reply is accepted in every form that has the meaning the request asks for.
-/
namespace Accounts.Backend.Redis

inductive Command where
  | get (key : String)
  | set (key value : String)
  | del (key : String)
  | claim (key owner : String)
  | release (key owner : String)
  | publish (channel message : String)
  | append (list message : String)
  deriving DecidableEq, Repr

inductive Reply where
  | nil
  | integer (n : Int)
  | text (s : String)
  | error (reason : String)
  deriving DecidableEq, Repr

abbrev interface : Interface where
  Call := Command
  Reply _ := Reply

/-- The words of a command; a script stands under its name. -/
def Command.words : Command → List String
  | get key => ["GET", key]
  | set key value => ["SET", key, value]
  | del key => ["DEL", key]
  | claim key owner => ["EVALSHA", "<claim>", "1", key, owner]
  | release key owner => ["EVALSHA", "<release>", "1", key, owner]
  | publish channel message => ["PUBLISH", channel, message]
  | append list message => ["RPUSH", list, message]

/-- A server that holds texts. -/
def serve : Handler interface (Table String)
  | .get key, t => ((t.get? key).elim .nil .text, t)
  | .set key value, t => (.text "OK", t.insert key value)
  | .del key, t => (.integer (if (t.get? key).isSome then 1 else 0), t.erase key)
  | .claim key owner, t =>
    match t.get? key with
    | none => (.integer 1, t.insert key owner)
    | some current => (.integer (if current = owner then 1 else 0), t)
  | .release key owner, t =>
    if t.get? key = some owner then (.integer 1, t.erase key) else (.integer 0, t)
  | .publish _ _, t => (.integer 1, t)
  | .append _ _, t => (.integer 1, t)

def command : Request → Command
  | .record id => .get (flatKey recordSpace id)
  | .setRecord id value => .set (flatKey recordSpace id) value
  | .deleteRecord id => .del (flatKey recordSpace id)
  | .owner index key => .get (flatKey index key)
  | .putEntry index key owner => .set (flatKey index key) owner
  | .claimEntry index key owner => .claim (flatKey index key) owner
  | .removeEntry index key => .del (flatKey index key)
  | .releaseEntry index key owner => .release (flatKey index key) owner

def accepted : Reply → Except BackendError Unit
  | .error reason => .error (.failed reason)
  | _ => .ok ()

def found : Reply → Except BackendError (Option String)
  | .nil => .ok none
  | .integer n => .ok (some (String.ofList (Text.intDigits n)))
  | .text s => .ok (some s)
  | .error reason => .error (.failed reason)

def count : Reply → Except BackendError Int
  | .integer n => .ok n
  | .text s =>
    match Text.readWithin? Text.minInt64 Text.maxInt64 s.toList with
    | some n => .ok n
    | none => .error (.failed "the reply is not an integer")
  | .nil => .error (.failed "the reply is empty")
  | .error reason => .error (.failed reason)

/-- The result of a request from the reply to its command. -/
def result : (r : Request) → Reply → Except BackendError r.Value
  | .record _, reply => found reply
  | .setRecord _ _, reply => accepted reply
  | .deleteRecord _, reply => accepted reply
  | .owner _ _, reply => found reply
  | .putEntry _ _ _, reply => accepted reply
  | .claimEntry _ _ _, reply => (count reply).map fun n => n == 1
  | .removeEntry _ _, reply => accepted reply
  | .releaseEntry _ _ _, reply => (count reply).map fun _ => ()

def program (r : Request) : Program interface (Except BackendError r.Value) :=
  (Program.ask (I := interface) (command r)).bind fun reply => .done (result r reply)

end Accounts.Backend.Redis
