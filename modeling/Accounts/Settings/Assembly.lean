import Accounts.Hasher.Costed
import Accounts.Service.Environment
import Accounts.Settings.Variables

/-!
# Assembly of a service

The parts that settings describe, put together. The cost of hashing is checked first; then the
streams are connected in order, and at last the storage. An assembly crashes at a collector whose
room cannot be reserved.
-/
namespace Accounts.Settings

open Accounts.Event

/-- What comes of an assembly: something or an error, and nothing from one that crashed. -/
abbrev Assembly : Type → Type := ExceptT SettingsError Option

/-- The parts of a service that are not storage, as they are shown to a reader of logs. -/
def shownParts : String := "Dependencies \x7b clock: SystemClock, .. \x7d"

def identifierSource : IdentifierChoice → Identifier.Source
  | .random => .random
  | .sequence mark => .sequence mark 0

/-- A collector has its room reserved when it is connected, not when items come. -/
def connectStream (memory : Memory) (network : Backend.Network) (s : Settings) :
    StreamChoice → Assembly Stream
  | .log => pure (.log s.eventMark)
  | .collector capacity => do
    let c ← Collector.reserve memory capacity
    pure (.collect c)
  | .redis usesChannel =>
    if (network.redis s.redisUrl).isSome then pure (.redis s.eventMark usesChannel)
    else throw (.backend (.failed "no connection"))

/-- One stream is used as it is, several are joined. -/
def joinStreams : List Stream → Stream
  | [] => .discard
  | [s] => s
  | streams => .broadcast streams

def environment (memory : Memory) (network : Backend.Network) (entropy : Entropy)
    (clock : Instant) (s : Settings) : Assembly Service.Environment := do
  s.cost.validate.mapError SettingsError.hasher
  let streams ← s.streams.mapM (connectStream memory network s)
  pure
    { hasher := Hasher.ofCost s.cost
      identifiers := identifierSource s.identifiers
      entropy := entropy
      clock := clock
      stream := joinStreams streams
      output := Output.empty }

/-- The storage and the environment of a service. -/
def assemble (memory : Memory) (network : Backend.Network) (entropy : Entropy) (clock : Instant)
    (s : Settings) : Assembly (Backend.Storage × Service.Environment) := do
  let env ← environment memory network entropy clock s
  let storage ← (Backend.Storage.connect network s.storage).mapError SettingsError.backend
  pure (storage, env)

end Accounts.Settings
