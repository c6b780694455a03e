import Accounts.Hasher.Blake2b
import Accounts.Text.Base64
import Accounts.Text.Decimal
import Accounts.Text.Quoted

/-!
# Fresh identifiers

Where the ids of new users and the tokens for a reset come from: random bytes, a counter, or lists
that are used up in order. Random bytes come from a seed that is used once for each draw.
-/
namespace Accounts

structure Entropy where
  seed : Nat
  deriving DecidableEq, Repr

/-- Up to 64 random bytes. -/
def Entropy.draw (count : Nat) (e : Entropy) : List UInt8 × Entropy :=
  (Hasher.Blake2b.hash count (Hasher.bytesOfNat 32 e.seed), ⟨e.seed + 1⟩)

inductive IdentifierError where
  | unavailable (reason : String)
  deriving DecidableEq, Repr

def IdentifierError.message : IdentifierError → String
  | .unavailable reason => "Crypto error: " ++ reason

namespace Identifier

open Accounts.Text

inductive Source where
  | random
  | sequence (mark : String) (issued : Nat)
  | listed (ids tokens : List String)
  deriving DecidableEq, Repr

/-- Two hexadecimal digits. -/
def hexByte (b : UInt8) : List Char := [hexChar (b.toNat / 16), hexChar (b.toNat % 16)]

/-- Sixteen bytes as groups of digits, with the marks of a random identifier set. -/
def uuid (bs : List UInt8) : String :=
  let marked := bs.zipIdx.map fun (b, i) =>
    if i = 6 then b % 16 + 0x40 else if i = 8 then b % 64 + 0x80 else b
  let part (start count : Nat) := ((marked.drop start).take count).flatMap hexByte
  String.ofList (part 0 4 ++ '-' :: part 4 2 ++ '-' :: part 6 2 ++ '-' :: part 8 2 ++
    '-' :: part 10 6)

def uuidBytes : Nat := 16

def tokenBytes : Nat := 32

def numbered (mark : String) (n : Nat) : String := mark ++ String.ofList (digits n)

/-- The first of a list, which is then used up. -/
def takeFirst : List String → Except IdentifierError String × List String
  | [] => (.error (.unavailable "exhausted"), [])
  | s :: rest => (.ok s, rest)

abbrev Drawn : Type := Except IdentifierError String × Source × Entropy

def newId : Source → Entropy → Drawn
  | .random, e =>
    let (bs, e) := e.draw uuidBytes
    (.ok (uuid bs), .random, e)
  | .sequence mark n, e => (.ok (numbered mark (n + 1)), .sequence mark (n + 1), e)
  | .listed ids tokens, e =>
    let (id, ids) := takeFirst ids
    (id, .listed ids tokens, e)

def newToken : Source → Entropy → Drawn
  | .random, e =>
    let (bs, e) := e.draw tokenBytes
    (.ok (String.ofList (Base64.encodeUnpadded .url bs)), .random, e)
  | .sequence mark n, e => (.ok (numbered mark (n + 1)), .sequence mark (n + 1), e)
  | .listed ids tokens, e =>
    let (token, tokens) := takeFirst tokens
    (token, .listed ids tokens, e)

end Identifier

end Accounts
