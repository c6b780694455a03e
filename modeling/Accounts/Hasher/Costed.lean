import Accounts.Hasher.Basic
import Accounts.Hasher.Phc
import Accounts.Text.Utf8

/-!
# Hashing at a cost

The hasher that makes Argon2id hashes at a given cost. It checks a password at the cost that the
hash itself names, and calls a hash outdated that was made at another cost or in another way.
-/
namespace Accounts.Hasher

open Accounts.Text

def variantName : Argon2.Variant → List Char
  | .d => "argon2d".toList
  | .i => "argon2i".toList
  | .id => "argon2id".toList

def variant? (name : List Char) : Option Argon2.Variant :=
  [.d, .i, .id].find? fun v => variantName v == name

def version? : Option Nat → Option Argon2.Version
  | none => some .v19
  | some 16 => some .v16
  | some 19 => some .v19
  | some _ => none

/-- The parameters of a hash: its cost and data that is hashed along with the password. -/
structure Parameters where
  cost : Cost
  data : List UInt8
  deriving DecidableEq, Repr

namespace Parameters

def bytes? (limit : Nat) (s : List Char) : Option (List UInt8) :=
  (Base64.decodeUnpadded? .standard s).filter fun bs => bs.length ≤ limit

/-- One parameter taken over; the identifier of a key is read and not used. -/
def set? (p : Parameters) : List Char × List Char → Option Parameters
  | (['m'], v) => (Phc.decimal? v).map fun n => { p with cost := { p.cost with memory := n } }
  | (['t'], v) => (Phc.decimal? v).map fun n => { p with cost := { p.cost with passes := n } }
  | (['p'], v) => (Phc.decimal? v).map fun n => { p with cost := { p.cost with lanes := n } }
  | (name, v) =>
    if name = "keyid".toList then (bytes? 8 v).map fun _ => p
    else if name = "data".toList then (bytes? 32 v).map fun bs => { p with data := bs }
    else none

/-- What is not given has its standard value; of a repeated parameter the last counts. -/
def ofPhc? (h : Phc) : Option Parameters := do
  let p ← h.parameters.foldlM set? ⟨Cost.standard, []⟩
  if p.cost.fault?.isNone then some p else none

end Parameters

def minSaltBytes : Nat := 8

/-- The bytes of a salt, if there are enough of them. -/
def saltBytes? (salt : List Char) : Option (List UInt8) :=
  (Base64.decodeUnpadded? .standard salt).filter fun bs => minSaltBytes ≤ bs.length

/-- The hash of a password made in the way and at the cost that a hash string names. -/
def remake? (h : Phc) (size : Nat) (password : List UInt8) : Option (List UInt8) := do
  let parameters ← Parameters.ofPhc? h
  let variant ← variant? h.algorithm
  let version ← version? h.version
  let salt ← h.salt.bind saltBytes?
  pure (Argon2.hash ⟨variant, version, parameters.cost⟩ size password salt parameters.data)

/-- Whether the hash string belongs to the password. -/
def checks (h : Phc) (password : List UInt8) : Bool :=
  h.output.any fun output => remake? h output.length password == some output

/-- Whether a hash string was made by the hasher with this cost. -/
def isCurrent (c : Cost) (h : Phc) : Bool :=
  h.algorithm == variantName .id && (Parameters.ofPhc? h).any fun p => p.cost == c

def outputBytes : Nat := 32

/-- The hash string of a password. -/
def stamp (c : Cost) (salt password : List UInt8) : Phc :=
  { algorithm := variantName .id
    version := some Argon2.Version.v19.number
    parameters := [(['m'], digits c.memory), (['t'], digits c.passes), (['p'], digits c.lanes)]
    salt := some (Base64.encodeUnpadded .standard salt)
    output := some (Argon2.hash ⟨.id, .v19, c⟩ outputBytes password salt []) }

def bytesOf (s : String) : List UInt8 := Utf8.encode s.toList

/-- Passwords are hashed as UTF-8 with a salt of sixteen bytes. -/
def ofCost (c : Cost) : Hasher where
  saltBytes := 16
  hash salt password := some (.ok (String.ofList (stamp c salt (bytesOf password)).write))
  verify password hash :=
    some ((Phc.parse? hash.toList).any fun h => checks h (bytesOf password))
  needsRehash hash := !(Phc.parse? hash.toList).any (isCurrent c)

end Accounts.Hasher
