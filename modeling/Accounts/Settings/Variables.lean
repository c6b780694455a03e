import Accounts.Backend.Storage
import Accounts.Hasher.Argon2
import Accounts.Service.Operation
import Accounts.Settings.Error
import Accounts.Text.Blank
import Accounts.Text.Fields

/-!
# Settings from variables

The settings of a service, read from named variables. A choice that is not known is an error; a
number or a flag that cannot be read counts as not given. Choices and flags may have blanks around
them and letters of either case.
-/
namespace Accounts

inductive IdentifierChoice where
  | random
  | sequence (mark : String)
  deriving DecidableEq, Repr

inductive StreamChoice where
  | log
  | redis (usesChannel : Bool)
  | collector (capacity : Nat)
  deriving DecidableEq, Repr

structure Settings where
  storage : Backend.Choice
  identifiers : IdentifierChoice
  cost : Hasher.Cost
  streams : List StreamChoice
  eventMark : String
  redisUrl : String
  rules : Service.Rules
  deriving DecidableEq, Repr

namespace Settings

open Accounts.Text

abbrev Variables : Type := String → Option String

def defaultRedisUrl : String := "redis://localhost:6379"

def defaultEtcdEndpoint : String := "http://localhost:2379"

def defaultEtcdPrefix : String := "userd"

def defaultIdMark : String := "user-"

def defaultCapacity : Nat := 100

/-- Without blanks at the ends, in small letters. -/
def normalized (s : String) : List Char := (trim s.toList).map lowerAscii

/-- The text of a variable, or a default if it is not set or blank. -/
def choice (vars : Variables) (name default : String) : List Char :=
  (((vars name).map normalized).filter fun s => !s.isEmpty).getD default.toList

/-- The integer of a variable if it is one from `lo` to `hi`. -/
def integer (vars : Variables) (name : String) (lo hi default : Int) : Int :=
  ((vars name).bind fun s => readWithin? lo hi (trim s.toList)).getD default

/-- A number of so many bits. -/
def natural (vars : Variables) (name : String) (bits default : Nat) : Nat :=
  (integer vars name 0 (Nat.pow 2 bits - 1 : Nat) default).toNat

def trueWords : List (List Char) :=
  ["true".toList, "1".toList, "yes".toList, "on".toList]

def falseWords : List (List Char) :=
  ["false".toList, "0".toList, "no".toList, "off".toList]

def flag (vars : Variables) (name : String) (default : Bool) : Bool :=
  match (vars name).map normalized with
  | none => default
  | some word =>
    if word ∈ trueWords then true else if word ∈ falseWords then false else default

def unsupported {α : Type} (name : String) (value : List Char) : Except SettingsError α :=
  .error (.unsupported name (String.ofList value))

def redisUrlOf (vars : Variables) : String := (vars "USERD_REDIS_URL").getD defaultRedisUrl

/-- A time to live of no seconds means that records stay. -/
def etcdOf (vars : Variables) : Backend.Etcd.Settings :=
  let seconds := natural vars "USERD_ETCD_TTL_SECS" 64 0
  { endpoint := (vars "USERD_ETCD_ENDPOINT").getD defaultEtcdEndpoint
    keyPrefix := (vars "USERD_ETCD_PREFIX").getD defaultEtcdPrefix
    timeToLive := if seconds = 0 then none else some (Duration.ofSeconds seconds) }

def storageOf (vars : Variables) : Except SettingsError Backend.Choice :=
  let word := choice vars "USERD_STORAGE" "memory"
  if word = "memory".toList then .ok .memory
  else if word = "redis".toList then .ok (.redis (redisUrlOf vars))
  else if word = "etcd".toList then .ok (.etcd (etcdOf vars))
  else unsupported "USERD_STORAGE" word

def identifiersOf (vars : Variables) : Except SettingsError IdentifierChoice :=
  let word := choice vars "USERD_IDFACTORY" "uuid"
  if word = "uuid".toList then .ok .random
  else if word = "seq".toList then
    .ok (.sequence ((vars "USERD_IDFACTORY_SEQ_PREFIX").getD defaultIdMark))
  else unsupported "USERD_IDFACTORY" word

def costOf (vars : Variables) : Hasher.Cost :=
  { memory := natural vars "USERD_ARGON2_M_COST" 32 Hasher.Cost.standard.memory
    passes := natural vars "USERD_ARGON2_T_COST" 32 Hasher.Cost.standard.passes
    lanes := natural vars "USERD_ARGON2_P_COST" 32 Hasher.Cost.standard.lanes }

/-- The stream with this name; no name and `none` stand for no stream. -/
def streamOf (vars : Variables) (name : List Char) : Except SettingsError (Option StreamChoice) :=
  if name = [] ∨ name = "none".toList then .ok none
  else if name = "log".toList then .ok (some .log)
  else if name = "redis".toList then
    .ok (some (.redis (flag vars "USERD_EVENTSTREAM_REDIS_PUBSUB" false)))
  else if name = "collector".toList then
    .ok (some (.collector
      (natural vars "USERD_EVENTSTREAM_COLLECTOR_MAX_ITEMS" 64 defaultCapacity)))
  else unsupported "USERD_EVENTSTREAM" name

/-- The streams of a list of names, up to the first that is not known. -/
def streamsOf (vars : Variables) : List (List Char) → Except SettingsError (List StreamChoice)
  | [] => .ok []
  | name :: rest => do
    let stream ← streamOf vars (trim name)
    let streams ← streamsOf vars rest
    pure (stream.toList ++ streams)

/-- The largest number of seconds that a duration in milliseconds of 64 bits has. -/
def maxLifetime : Int := 9223372036854775

/-- A lifetime that is not positive or too long is the default. -/
def lifetimeOf (vars : Variables) : Duration :=
  let seconds :=
    integer vars "USERD_RESET_TOKEN_EXPIRY_SECS" minInt64 maxInt64 86400
  if 0 < seconds ∧ seconds ≤ maxLifetime then Duration.ofSeconds seconds
  else Service.Rules.standard.tokenLifetime

def rulesOf (vars : Variables) : Service.Rules :=
  { verifiedEmailRequired := flag vars "USERD_AUTH_EMAIL_MUST_BE_VERIFIED"
      Service.Rules.standard.verifiedEmailRequired
    tokenLifetime := lifetimeOf vars }

def ofVariables (vars : Variables) : Except SettingsError Settings := do
  let storage ← storageOf vars
  let identifiers ← identifiersOf vars
  let streams ← streamsOf vars (fields ',' (choice vars "USERD_EVENTSTREAM" "none"))
  pure
    { storage := storage
      identifiers := identifiers
      cost := costOf vars
      streams := streams
      eventMark := (vars "USERD_EVENTSTREAM_PREFIX").getD ""
      redisUrl := redisUrlOf vars
      rules := rulesOf vars }

/-- The settings if nothing is set. -/
def standard : Settings :=
  { storage := .memory
    identifiers := .random
    cost := Hasher.Cost.standard
    streams := []
    eventMark := ""
    redisUrl := defaultRedisUrl
    rules := Service.Rules.standard }

end Settings

end Accounts
