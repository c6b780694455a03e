import Accounts.Hasher.Blake2b
import Accounts.Hasher.Error

/-!
# Argon2

The password hash of RFC 9106 in its three variants and two versions. A matrix of blocks of 1024
bytes, one row for each lane, is filled segment by segment: each block is made from the one before
it and one that lies further back.
-/
namespace Accounts.Hasher

/-- What a hash costs: kibibytes of memory, passes over it, and lanes. -/
structure Cost where
  memory : Nat
  passes : Nat
  lanes : Nat
  deriving DecidableEq, Repr

namespace Cost

/-- The cost if nothing else is asked for. -/
def standard : Cost := ⟨19456, 2, 1⟩

/-- Memory and passes have an upper bound, that of a number of 32 bits. -/
def maxWord : Nat := 4294967295

def maxLanes : Nat := 16777215

/-- Why the cost cannot be used. The memory a number of lanes needs is a number of 32 bits. -/
def fault? (c : Cost) : Option String :=
  if c.memory < 8 ∨ c.memory < c.lanes * 8 % 4294967296 then some "memory cost is too small"
  else if c.passes < 1 then some "time cost is too small"
  else if c.lanes < 1 then some "not enough threads"
  else if maxLanes < c.lanes then some "too many threads"
  else none

def validate (c : Cost) : Except HasherError Unit :=
  match c.fault? with
  | none => .ok ()
  | some reason => .error (.invalidParameters reason)

end Cost

namespace Argon2

inductive Variant where
  | d
  | i
  | id
  deriving DecidableEq, Repr

def Variant.number : Variant → Nat
  | d => 0
  | i => 1
  | id => 2

inductive Version where
  | v16
  | v19
  deriving DecidableEq, Repr

def Version.number : Version → Nat
  | v16 => 16
  | v19 => 19

structure Setting where
  variant : Variant
  version : Version
  cost : Cost
  deriving DecidableEq, Repr

abbrev Block := Array UInt64

def wordsPerBlock : Nat := 128

def slices : Nat := 4

def zeroBlock : Block := Array.replicate wordsPerBlock 0

def xorBlocks (a b : Block) : Block := Array.zipWith (fun x y => x ^^^ y) a b

/-- A sum with twice the product of the low halves added. -/
def blend (a b : UInt64) : UInt64 :=
  a + b + 2 * ((a &&& 0xffffffff) * (b &&& 0xffffffff))

def mix (v : Block) (i j k l : Nat) : Block :=
  let b := v.getD j 0
  let a := blend (v.getD i 0) b
  let d := rotateRight (v.getD l 0 ^^^ a) 32
  let c := blend (v.getD k 0) d
  let b := rotateRight (b ^^^ c) 24
  let a := blend a b
  let d := rotateRight (d ^^^ a) 16
  let c := blend c d
  let b := rotateRight (b ^^^ c) 63
  (((v.setIfInBounds i a).setIfInBounds j b).setIfInBounds k c).setIfInBounds l d

/-- One round on the sixteen words of a block that `word` numbers. -/
def permute (word : Nat → Nat) (v : Block) : Block :=
  Blake2b.quarters.foldl (fun v (i, j, k, l) => mix v (word i) (word j) (word k) (word l)) v

/-- Makes one block of two: a round on each row of sixteen words and on each column of pairs. -/
def compress (a b : Block) : Block :=
  let r := xorBlocks a b
  let rows := (List.range 8).foldl (fun v n => permute (fun i => 16 * n + i) v) r
  let columns :=
    (List.range 8).foldl (fun v n => permute (fun i => 2 * n + 16 * (i / 2) + i % 2) v) rows
  xorBlocks columns r

def word32 (n : Nat) : List UInt8 := bytesOfNat 4 n

/-- Bytes with their number in front. -/
def counted (bs : List UInt8) : List UInt8 := word32 bs.length ++ bs

/-- The blocks after the first in a long digest: half of each is output, the last is whole. -/
def lengthen : Nat → Nat → List UInt8 → List UInt8
  | 0, _, _ => []
  | fuel + 1, size, v =>
    if size ≤ 64 then Blake2b.hash size v
    else
      let next := Blake2b.hash 64 v
      next.take 32 ++ lengthen fuel (size - 32) next

/-- A digest of any size. -/
def digest (size : Nat) (input : List UInt8) : List UInt8 :=
  let input := word32 size ++ input
  if size ≤ 64 then Blake2b.hash size input
  else
    let first := Blake2b.hash 64 input
    first.take 32 ++ lengthen size (size - 32) first

namespace Setting

/-- The number of blocks of a segment. -/
def segment (s : Setting) : Nat := s.cost.memory / (slices * s.cost.lanes)

def lane (s : Setting) : Nat := slices * s.segment

def blocks (s : Setting) : Nat := s.cost.lanes * s.lane

end Setting

/-- A segment of the matrix: the pass, the slice of a lane and the lane. -/
structure Place where
  pass : Nat
  slice : Nat
  lane : Nat
  deriving DecidableEq, Repr

/-- Whether the blocks that are looked at do not depend on the password. -/
def isIndependent (s : Setting) (p : Place) : Bool :=
  s.variant == .i || (s.variant == .id && p.pass == 0 && p.slice < 2)

/-- Random words for 128 blocks of a segment that do not depend on the password. -/
def addresses (s : Setting) (p : Place) (counter : Nat) : Block :=
  let words := [p.pass, p.lane, p.slice, s.blocks, s.cost.passes, s.variant.number, counter]
  let input := (words.map UInt64.ofNat).toArray ++ Array.replicate (wordsPerBlock - 7) 0
  compress zeroBlock (compress zeroBlock input)

/-- Where the block lies that block `i` of a segment is made from, chosen by a random word. -/
def reference (s : Setting) (p : Place) (i : Nat) (random : UInt64) : Nat :=
  let first := p.pass = 0 ∧ p.slice = 0
  let lane := if first then p.lane else (random >>> 32).toNat % s.cost.lanes
  let finished := if p.pass = 0 then p.slice * s.segment else s.lane - s.segment
  let area :=
    if first ∨ lane = p.lane then finished + i - 1
    else if i = 0 then finished - 1
    else finished
  let x := random.toNat % 4294967296
  let back := area * (x * x / 4294967296) / 4294967296
  let start := if p.pass ≠ 0 ∧ p.slice ≠ slices - 1 then (p.slice + 1) * s.segment else 0
  lane * s.lane + (start + (area - 1 - back)) % s.lane

/-- Fills block `i` of a segment. -/
def fillBlock (s : Setting) (p : Place) (state : Array Block × Block) (i : Nat) :
    Array Block × Block :=
  let (memory, known) := state
  let column := p.slice * s.segment + i
  let current := p.lane * s.lane + column
  let previous := if column = 0 then current + s.lane - 1 else current - 1
  let independent := isIndependent s p
  let fresh := i % wordsPerBlock = 0 ∨ (p.pass = 0 ∧ p.slice = 0 ∧ i = 2)
  let known :=
    if independent ∧ fresh then addresses s p (i / wordsPerBlock + 1) else known
  let before := memory.getD previous zeroBlock
  let random := if independent then known.getD (i % wordsPerBlock) 0 else before.getD 0 0
  let made := compress before (memory.getD (reference s p i random) zeroBlock)
  let made :=
    if s.version = .v19 ∧ p.pass ≠ 0 then xorBlocks made (memory.getD current zeroBlock)
    else made
  (memory.setIfInBounds current made, known)

def fillSegment (s : Setting) (memory : Array Block) (p : Place) : Array Block :=
  let first := if p.pass = 0 ∧ p.slice = 0 then 2 else 0
  let indices := (List.range' first (s.segment - first))
  (indices.foldl (fillBlock s p) (memory, zeroBlock)).1

/-- All segments in the order in which they are filled. -/
def places (s : Setting) : List Place :=
  (List.range s.cost.passes).flatMap fun pass =>
    (List.range slices).flatMap fun slice =>
      (List.range s.cost.lanes).map fun lane => ⟨pass, slice, lane⟩

def blockOfBytes (bs : List UInt8) : Block := (wordsOfBytes wordsPerBlock bs).toArray

/-- The matrix with the first two blocks of each lane. -/
def initial (s : Setting) (seed : List UInt8) : Array Block :=
  let put (memory : Array Block) (lane column : Nat) :=
    memory.setIfInBounds (lane * s.lane + column)
      (blockOfBytes (digest 1024 (seed ++ word32 column ++ word32 lane)))
  (List.range s.cost.lanes).foldl (fun memory lane => put (put memory lane 0) lane 1)
    (Array.replicate s.blocks zeroBlock)

/-- The hash of a password, of `size` bytes. There is no key. -/
def hash (s : Setting) (size : Nat) (password salt data : List UInt8) : List UInt8 :=
  let seed := Blake2b.hash 64
    (word32 s.cost.lanes ++ word32 size ++ word32 s.cost.memory ++ word32 s.cost.passes ++
      word32 s.version.number ++ word32 s.variant.number ++ counted password ++ counted salt ++
      counted [] ++ counted data)
  let memory := (places s).foldl (fillSegment s) (initial s seed)
  let last := (List.range s.cost.lanes).foldl
    (fun block lane => xorBlocks block (memory.getD (lane * s.lane + s.lane - 1) zeroBlock))
    zeroBlock
  digest size (bytesOfWords last.toList)

theorem length_hash (s : Setting) {size : Nat} (hsize : size ≤ 64)
    (password salt data : List UInt8) : (hash s size password salt data).length = size := by
  simp only [hash, digest, if_pos hsize, Blake2b.length_hash hsize]

end Argon2

end Accounts.Hasher
