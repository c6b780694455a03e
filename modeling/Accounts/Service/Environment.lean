import Accounts.Event.Stream
import Accounts.Hasher.Basic
import Accounts.Service.Action

/-!
# The surroundings of a service

A hasher, a source of identifiers, a clock and a stream for events, and how they answer the calls of
an operation next to a directory. The clock stands still during an operation.
-/
namespace Accounts.Service

structure Environment where
  hasher : Hasher
  identifiers : Identifier.Source
  entropy : Entropy
  clock : Instant
  stream : Event.Stream
  output : Event.Output

namespace Environment

/-- The message that an event is sent as. -/
def message (e : Event) : Event.Message := ⟨e.tag, Text.Utf8.encode e.payload.toList⟩

def publish (env : Environment) (m : Event.Message) : Environment :=
  let o : Event.Occasion := ⟨env.clock, true⟩
  { env with
    stream := env.stream.publish o m
    output := env.output.append (env.stream.output o m) }

def drawn (env : Environment) : Identifier.Drawn → Except IdentifierError String × Environment
  | (s, identifiers, entropy) => (s, { env with identifiers := identifiers, entropy := entropy })

end Environment

variable {σ : Type}

def serve (h : Handler Directory.interface σ) : Handler interface (σ × Environment)
  | .directory c, (s, env) =>
    let (r, s) := h c s
    (r, (s, env))
  | .hash password, (s, env) =>
    let (salt, entropy) := env.entropy.draw env.hasher.saltBytes
    (env.hasher.hash salt password, (s, { env with entropy := entropy }))
  | .verify password hash, (s, env) => (env.hasher.verify password hash, (s, env))
  | .needsRehash hash, (s, env) => (env.hasher.needsRehash hash, (s, env))
  | .newId, (s, env) =>
    let (r, env) := env.drawn (Identifier.newId env.identifiers env.entropy)
    (r, (s, env))
  | .newToken, (s, env) =>
    let (r, env) := env.drawn (Identifier.newToken env.identifiers env.entropy)
    (r, (s, env))
  | .now, (s, env) => (env.clock, (s, env))
  | .publish e, (s, env) => ((), (s, env.publish (Environment.message e)))

end Accounts.Service
