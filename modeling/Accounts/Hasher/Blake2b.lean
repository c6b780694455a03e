/-!
# BLAKE2b

The unkeyed hash function BLAKE2b with digests of 1 to 64 bytes (`length_hash`). Words are
little-endian.
-/
namespace Accounts.Hasher

/-- The number whose bytes, lowest first, these are. -/
def wordOfBytes (bs : List UInt8) : UInt64 := bs.foldr (fun b w => w <<< 8 ||| b.toUInt64) 0

/-- The lowest `count` bytes of a number, lowest first. -/
def bytesOfNat : Nat → Nat → List UInt8
  | 0, _ => []
  | count + 1, n => UInt8.ofNat n :: bytesOfNat count (n / 256)

theorem length_bytesOfNat (count n : Nat) : (bytesOfNat count n).length = count := by
  induction count generalizing n with
  | zero => rfl
  | succ count ih => simp [bytesOfNat, ih]

def rotateRight (w : UInt64) (n : UInt64) : UInt64 := w >>> n ||| w <<< (64 - n)

/-- The words of `count` groups of eight bytes; missing bytes are zero. -/
def wordsOfBytes : Nat → List UInt8 → List UInt64
  | 0, _ => []
  | count + 1, bs => wordOfBytes (bs.take 8) :: wordsOfBytes count (bs.drop 8)

def bytesOfWords (ws : List UInt64) : List UInt8 := ws.flatMap fun w => bytesOfNat 8 w.toNat

theorem length_bytesOfWords (ws : List UInt64) : (bytesOfWords ws).length = 8 * ws.length := by
  induction ws with
  | nil => rfl
  | cons w ws ih =>
    rw [bytesOfWords] at ih
    rw [bytesOfWords, List.flatMap_cons, List.length_append, length_bytesOfNat, ih,
      List.length_cons]
    omega

namespace Blake2b

def start : Array UInt64 :=
  #[0x6a09e667f3bcc908, 0xbb67ae8584caa73b, 0x3c6ef372fe94f82b, 0xa54ff53a5f1d36f1,
    0x510e527fade682d1, 0x9b05688c2b3e6c1f, 0x1f83d9abfb41bd6b, 0x5be0cd19137e2179]

/-- The order in which a round takes the words of a message; the rounds repeat after ten. -/
def schedule : Array (Array Nat) :=
  #[#[0, 1, 2, 3, 4, 5, 6, 7, 8, 9, 10, 11, 12, 13, 14, 15],
    #[14, 10, 4, 8, 9, 15, 13, 6, 1, 12, 0, 2, 11, 7, 5, 3],
    #[11, 8, 12, 0, 5, 2, 15, 13, 10, 14, 3, 6, 7, 1, 9, 4],
    #[7, 9, 3, 1, 13, 12, 11, 14, 2, 6, 5, 10, 4, 0, 15, 8],
    #[9, 0, 5, 7, 2, 4, 10, 15, 14, 1, 11, 12, 6, 8, 3, 13],
    #[2, 12, 6, 10, 0, 11, 8, 3, 4, 13, 7, 5, 15, 14, 1, 9],
    #[12, 5, 1, 15, 14, 13, 4, 10, 0, 7, 6, 3, 9, 2, 8, 11],
    #[13, 11, 7, 14, 12, 1, 3, 9, 5, 0, 15, 4, 8, 6, 2, 10],
    #[6, 15, 14, 9, 11, 3, 0, 8, 12, 2, 13, 7, 1, 4, 10, 5],
    #[10, 2, 8, 4, 7, 6, 1, 5, 15, 11, 9, 14, 3, 12, 13, 0]]

/-- The columns and the diagonals of a square of four by four words. -/
def quarters : List (Nat × Nat × Nat × Nat) :=
  [(0, 4, 8, 12), (1, 5, 9, 13), (2, 6, 10, 14), (3, 7, 11, 15),
    (0, 5, 10, 15), (1, 6, 11, 12), (2, 7, 8, 13), (3, 4, 9, 14)]

/-- Mixes two words of the message into four words of the state. -/
def mix (v : Array UInt64) (place : Nat × Nat × Nat × Nat) (x y : UInt64) : Array UInt64 :=
  let (i, j, k, l) := place
  let b := v.getD j 0
  let a := v.getD i 0 + b + x
  let d := rotateRight (v.getD l 0 ^^^ a) 32
  let c := v.getD k 0 + d
  let b := rotateRight (b ^^^ c) 24
  let a := a + b + y
  let d := rotateRight (d ^^^ a) 16
  let c := c + d
  let b := rotateRight (b ^^^ c) 63
  (((v.setIfInBounds i a).setIfInBounds j b).setIfInBounds k c).setIfInBounds l d

def round (message v : Array UInt64) (n : Nat) : Array UInt64 :=
  let order := schedule.getD (n % 10) #[]
  let word (i : Nat) := message.getD (order.getD i 0) 0
  (quarters.zipIdx).foldl (fun v (place, i) => mix v place (word (2 * i)) (word (2 * i + 1))) v

/-- Takes in one block; `count` is the number of bytes up to its end. -/
def compress (h message : Array UInt64) (count : Nat) (isLast : Bool) : Array UInt64 :=
  let v := h ++ start
  let v := v.setIfInBounds 12 (v.getD 12 0 ^^^ UInt64.ofNat count)
  let v := v.setIfInBounds 13 (v.getD 13 0 ^^^ UInt64.ofNat (count / 18446744073709551616))
  let v := if isLast then v.setIfInBounds 14 (~~~ v.getD 14 0) else v
  let v := (List.range 12).foldl (round message) v
  ((List.range 8).map fun i => h.getD i 0 ^^^ v.getD i 0 ^^^ v.getD (i + 8) 0).toArray

def blockBytes : Nat := 128

/-- Takes in the rest of the input after `count` bytes. -/
def absorb (h : Array UInt64) (count : Nat) (input : List UInt8) : Array UInt64 :=
  let block := (wordsOfBytes 16 (input.take blockBytes)).toArray
  if _h : input.length ≤ blockBytes then compress h block (count + input.length) true
  else absorb (compress h block (count + blockBytes) false) (count + blockBytes)
    (input.drop blockBytes)
  termination_by input.length
  decreasing_by
    simp only [List.length_drop, blockBytes] at *
    omega

/-- The digest of `size` bytes. -/
def hash (size : Nat) (input : List UInt8) : List UInt8 :=
  let first := start.getD 0 0 ^^^ 0x01010000 ^^^ UInt64.ofNat size
  (bytesOfWords (absorb (start.setIfInBounds 0 first) 0 input).toList).take size

theorem size_compress (h message : Array UInt64) (count : Nat) (isLast : Bool) :
    (compress h message count isLast).size = 8 := by
  simp [compress]

theorem size_absorb (h : Array UInt64) (count : Nat) (input : List UInt8) :
    (absorb h count input).size = 8 := by
  fun_induction absorb h count input with
  | case1 => exact size_compress ..
  | case2 h count input block hlong ih => exact ih

theorem length_hash {size : Nat} (hsize : size ≤ 64) (input : List UInt8) :
    (hash size input).length = size := by
  simp only [hash, List.length_take, length_bytesOfWords, Array.length_toList, size_absorb]
  omega

end Blake2b

end Accounts.Hasher
