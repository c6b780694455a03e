/-!
# UTF-8 with damage

Decodes bytes to characters. Where no character starts, the longest run of bytes that could have
begun one counts as one piece of damage and is shown as U+FFFD. `decode?` accepts exactly the
byte sequences without damage. Reading what was written gives the text back (`decode?_encode`).
-/
namespace Accounts.Text.Utf8

/-- How many bytes follow a leading byte, and the range of the first of them. -/
def shape (b : Nat) : Option (Nat × Nat × Nat) :=
  if b < 0x80 then some (0, 0, 0)
  else if 0xC2 ≤ b ∧ b ≤ 0xDF then some (1, 0x80, 0xBF)
  else if b = 0xE0 then some (2, 0xA0, 0xBF)
  else if b = 0xED then some (2, 0x80, 0x9F)
  else if 0xE1 ≤ b ∧ b ≤ 0xEF then some (2, 0x80, 0xBF)
  else if b = 0xF0 then some (3, 0x90, 0xBF)
  else if 0xF1 ≤ b ∧ b ≤ 0xF3 then some (3, 0x80, 0xBF)
  else if b = 0xF4 then some (3, 0x80, 0x8F)
  else none

/-- The bits of a leading byte that belong to its character. -/
def leadBits (b : Nat) : Nat :=
  if b < 0x80 then b else if b < 0xE0 then b % 0x20 else if b < 0xF0 then b % 0x10 else b % 8

/-- Takes up to `count` continuation bytes, the first from `lo` to `hi`; the code so far goes on
with their bits, or is lost where one is missing. -/
def continuation : Nat → Nat → Nat → Nat → List UInt8 → Option Nat × List UInt8
  | 0, _, _, code, bs => (some code, bs)
  | _ + 1, _, _, _, [] => (none, [])
  | count + 1, lo, hi, code, b :: bs =>
    if lo ≤ b.toNat ∧ b.toNat ≤ hi then
      continuation count 0x80 0xBF (code * 64 + b.toNat % 64) bs
    else (none, b :: bs)

theorem continuation_length (count lo hi code : Nat) (bs : List UInt8) :
    (continuation count lo hi code bs).2.length ≤ bs.length := by
  induction count generalizing lo hi code bs with
  | zero => simp [continuation]
  | succ n ih =>
    cases bs with
    | nil => simp [continuation]
    | cons b bs =>
      simp only [continuation]
      split
      · exact Nat.le_succ_of_le (ih ..)
      · simp

/-- The characters of a byte sequence, with `none` for each piece of damage. -/
def pieces (bs : List UInt8) : List (Option Char) :=
  match bs with
  | [] => []
  | b :: bs =>
    match shape b.toNat with
    | none => none :: pieces bs
    | some (count, lo, hi) =>
      let next := continuation count lo hi (leadBits b.toNat) bs
      next.1.map Char.ofNat :: pieces next.2
  termination_by bs.length
  decreasing_by
    · simp
    · exact Nat.lt_succ_of_le (continuation_length ..)

def decodeLossy (bs : List UInt8) : List Char :=
  (pieces bs).map fun c => c.getD '\uFFFD'

def decode? (bs : List UInt8) : Option (List Char) :=
  (pieces bs).mapM id

def encode (s : List Char) : List UInt8 := (String.ofList s).toUTF8.toList

/-! ### Reading what was written -/

theorem pieces_cons {b : UInt8} {bs rest : List UInt8} {count lo hi code : Nat}
    (hshape : shape b.toNat = some (count, lo, hi))
    (hbytes : continuation count lo hi (leadBits b.toNat) bs = (some code, rest)) :
    pieces (b :: bs) = some (Char.ofNat code) :: pieces rest := by
  rw [pieces, hshape]
  simp [hbytes]

theorem continuation_cons {b : UInt8} {n lo hi : Nat} (hb : b.toNat = n) (h : lo ≤ n ∧ n ≤ hi)
    (count code : Nat) (bs : List UInt8) :
    continuation (count + 1) lo hi code (b :: bs) =
      continuation count 0x80 0xBF (code * 64 + n % 64) bs := by
  subst hb
  rw [continuation, if_pos h]

theorem toNat_byte {n : Nat} (h : n < 256) : (UInt8.ofNat n).toNat = n := by
  simp [Nat.mod_eq_of_lt h]

theorem shape_two {b : Nat} (h : 0xC2 ≤ b ∧ b ≤ 0xDF) : shape b = some (1, 0x80, 0xBF) := by
  rw [shape, if_neg (by omega), if_pos h]

theorem leadBits_two {b : Nat} (h : 0xC2 ≤ b ∧ b ≤ 0xDF) : leadBits b = b % 0x20 := by
  rw [leadBits, if_neg (by omega), if_pos (by omega)]

theorem leadBits_three {b : Nat} (h : 0xE0 ≤ b ∧ b ≤ 0xEF) : leadBits b = b % 0x10 := by
  rw [leadBits, if_neg (by omega), if_neg (by omega), if_pos (by omega)]

theorem leadBits_four {b : Nat} (h : 0xF0 ≤ b ∧ b ≤ 0xF4) : leadBits b = b % 8 := by
  rw [leadBits, if_neg (by omega), if_neg (by omega), if_neg (by omega)]

/-- The range of the second byte leaves out what has a shorter form and the surrogates. -/
theorem shape_three (b second : Nat) (hb : 0xE0 ≤ b ∧ b ≤ 0xEF)
    (hsecond : 0x80 ≤ second ∧ second ≤ 0xBF) (hlong : b = 0xE0 → 0xA0 ≤ second)
    (hsurrogate : b = 0xED → second ≤ 0x9F) :
    ∃ lo hi, shape b = some (2, lo, hi) ∧ lo ≤ second ∧ second ≤ hi := by
  unfold shape
  rw [if_neg (by omega), if_neg (by omega)]
  split
  · next h => exact ⟨_, _, rfl, hlong h, hsecond.2⟩
  · split
    · next h => exact ⟨_, _, rfl, hsecond.1, hsurrogate h⟩
    · exact ⟨_, _, if_pos (by omega), hsecond⟩

/-- The range of the second byte leaves out what has a shorter form and what is no character. -/
theorem shape_four (b second : Nat) (hb : 0xF0 ≤ b ∧ b ≤ 0xF4)
    (hsecond : 0x80 ≤ second ∧ second ≤ 0xBF) (hlong : b = 0xF0 → 0x90 ≤ second)
    (hlast : b = 0xF4 → second ≤ 0x8F) :
    ∃ lo hi, shape b = some (3, lo, hi) ∧ lo ≤ second ∧ second ≤ hi := by
  unfold shape
  rw [if_neg (by omega), if_neg (by omega), if_neg (by omega), if_neg (by omega),
    if_neg (by omega)]
  split
  · next h => exact ⟨_, _, rfl, hlong h, hsecond.2⟩
  · split
    · exact ⟨_, _, rfl, hsecond⟩
    · exact ⟨_, _, if_pos (by omega), hsecond.1, hlast (by omega)⟩

theorem pieces_one {v : Nat} (h : v ≤ 0x7F) (rest : List UInt8) :
    pieces (UInt8.ofNat v :: rest) = some (Char.ofNat v) :: pieces rest := by
  have hb := toNat_byte (show v < 256 by omega)
  rw [pieces_cons (by rw [hb, shape, if_pos (by omega)]) rfl, hb, leadBits, if_pos (by omega)]

theorem pieces_two {v : Nat} (h : 0x7F < v ∧ v ≤ 0x7FF) (rest : List UInt8) :
    pieces (UInt8.ofNat (v / 64 % 0x20 + 0xC0) :: UInt8.ofNat (v % 0x40 + 0x80) :: rest) =
      some (Char.ofNat v) :: pieces rest := by
  have hb := toNat_byte (show v / 64 % 32 + 192 < 256 by omega)
  have hc := toNat_byte (show v % 64 + 128 < 256 by omega)
  refine pieces_cons (by rw [hb, shape_two (by omega)]) ?_
  rw [hb, leadBits_two (by omega), continuation_cons hc (by omega), continuation]
  congr 2
  omega

theorem pieces_three {v : Nat} (h : 0x7FF < v ∧ v ≤ 0xFFFF) (hvalid : v < 0xD800 ∨ 0xDFFF < v)
    (rest : List UInt8) :
    pieces (UInt8.ofNat (v / 4096 % 0x10 + 0xE0) :: UInt8.ofNat (v / 64 % 0x40 + 0x80) ::
      UInt8.ofNat (v % 0x40 + 0x80) :: rest) = some (Char.ofNat v) :: pieces rest := by
  have hb := toNat_byte (show v / 4096 % 16 + 224 < 256 by omega)
  have hc := toNat_byte (show v / 64 % 64 + 128 < 256 by omega)
  have hd := toNat_byte (show v % 64 + 128 < 256 by omega)
  obtain ⟨lo, hi, hshape, hsecond⟩ := shape_three (v / 4096 % 16 + 224)
    (v / 64 % 64 + 128) (by omega) (by omega) (by omega) (by omega)
  refine pieces_cons (by rw [hb, hshape]) ?_
  rw [hb, leadBits_three (by omega), continuation_cons hc hsecond,
    continuation_cons hd (by omega), continuation]
  congr 2
  omega

theorem pieces_four {v : Nat} (h : 0xFFFF < v ∧ v < 0x110000) (rest : List UInt8) :
    pieces (UInt8.ofNat (v / 262144 % 8 + 0xF0) :: UInt8.ofNat (v / 4096 % 0x40 + 0x80) ::
      UInt8.ofNat (v / 64 % 0x40 + 0x80) :: UInt8.ofNat (v % 0x40 + 0x80) :: rest) =
      some (Char.ofNat v) :: pieces rest := by
  have hb := toNat_byte (show v / 262144 % 8 + 240 < 256 by omega)
  have hc := toNat_byte (show v / 4096 % 64 + 128 < 256 by omega)
  have hd := toNat_byte (show v / 64 % 64 + 128 < 256 by omega)
  have he := toNat_byte (show v % 64 + 128 < 256 by omega)
  obtain ⟨lo, hi, hshape, hsecond⟩ := shape_four (v / 262144 % 8 + 240)
    (v / 4096 % 64 + 128) (by omega) (by omega) (by omega) (by omega)
  refine pieces_cons (by rw [hb, hshape]) ?_
  rw [hb, leadBits_four (by omega), continuation_cons hc hsecond,
    continuation_cons hd (by omega), continuation_cons he (by omega), continuation]
  congr 2
  omega

/-- A written character is read as itself. -/
theorem pieces_utf8EncodeChar (c : Char) (rest : List UInt8) :
    pieces (String.utf8EncodeChar c ++ rest) = some c :: pieces rest := by
  have hvalid : c.toNat < 0xD800 ∨ 0xDFFF < c.toNat ∧ c.toNat < 0x110000 := c.valid
  have hnat : c.val.toNat = c.toNat := rfl
  have hread : some c = some (Char.ofNat c.toNat) := by rw [Char.ofNat_toNat]
  simp only [String.utf8EncodeChar, hnat]
  rw [hread]
  split
  · next h => exact pieces_one h rest
  split
  · next h₁ h₂ => exact pieces_two (by omega) rest
  split
  · next h₁ h₂ h₃ => exact pieces_three (by omega) (by omega) rest
  · next h₁ h₂ h₃ => exact pieces_four (by omega) rest

theorem toList_loop (bs : ByteArray) (i : Nat) (read : List UInt8) :
    ByteArray.toList.loop bs i read = read.reverse ++ bs.data.toList.drop i := by
  fun_induction ByteArray.toList.loop bs i read with
  | case1 i read h ih =>
    have hi : i < bs.data.toList.length := by simpa using h
    rw [ih, List.drop_eq_getElem_cons hi]
    simp [ByteArray.get!, h]
  | case2 i read h =>
    have hi : bs.data.toList.length ≤ i := by simpa using h
    rw [List.drop_eq_nil_of_le hi, List.append_nil]

theorem toList_toByteArray (bs : List UInt8) : bs.toByteArray.toList = bs := by
  rw [ByteArray.toList, toList_loop, List.toList_data_toByteArray]
  rfl

theorem encode_eq (s : List Char) : encode s = s.flatMap String.utf8EncodeChar := by
  rw [encode, String.toUTF8, String.toByteArray_ofList, List.utf8Encode, toList_toByteArray]

theorem pieces_encode (s : List Char) : pieces (encode s) = s.map some := by
  rw [encode_eq]
  induction s with
  | nil => simp [pieces]
  | cons c s ih => rw [List.flatMap_cons, pieces_utf8EncodeChar, ih, List.map_cons]

theorem decode?_encode (s : List Char) : decode? (encode s) = some s := by
  rw [decode?, pieces_encode]
  induction s with
  | nil => rfl
  | cons c s ih => simp [ih]

end Accounts.Text.Utf8
