import Accounts.Text.Fields

/-!
# Base64

Bytes as symbols of 64 values each, with the ordinary or the URL alphabet, with or without padding.
Only the written form is read: unused bits of the last symbol must be zero and padding complete.
Reading gives the bytes back (`decodeUnpadded?_encodeUnpadded`, `decode?_encode`), and without
padding nothing else is read (`decodeUnpadded?_eq_some_iff`).
-/
namespace Accounts.Text.Base64

inductive Alphabet where
  | standard
  | url
  deriving DecidableEq, Repr

def Alphabet.symbols : Alphabet → List Char
  | .standard => "ABCDEFGHIJKLMNOPQRSTUVWXYZabcdefghijklmnopqrstuvwxyz0123456789+/".toList
  | .url => "ABCDEFGHIJKLMNOPQRSTUVWXYZabcdefghijklmnopqrstuvwxyz0123456789-_".toList

def Alphabet.symbol (a : Alphabet) (value : Nat) : Char := a.symbols.getD value 'A'

def Alphabet.value? (a : Alphabet) (c : Char) : Option Nat := a.symbols.idxOf? c

/-- The six-bit values of a byte sequence; the last one is filled up with zero bits. -/
def split : List UInt8 → List Nat
  | a :: b :: c :: rest =>
    (a.toNat / 4) :: (a.toNat % 4 * 16 + b.toNat / 16) :: (b.toNat % 16 * 4 + c.toNat / 64) ::
      (c.toNat % 64) :: split rest
  | [a, b] => [a.toNat / 4, a.toNat % 4 * 16 + b.toNat / 16, b.toNat % 16 * 4]
  | [a] => [a.toNat / 4, a.toNat % 4 * 16]
  | [] => []

/-- The bytes of six-bit values, if their number fits and the last one has no stray bits. -/
def join? : List Nat → Option (List UInt8)
  | w :: x :: y :: z :: rest =>
    (join? rest).map fun bs =>
      UInt8.ofNat (w * 4 + x / 16) :: UInt8.ofNat (x % 16 * 16 + y / 4) ::
        UInt8.ofNat (y % 4 * 64 + z) :: bs
  | [w, x, y] =>
    if y % 4 = 0 then
      some [UInt8.ofNat (w * 4 + x / 16), UInt8.ofNat (x % 16 * 16 + y / 4)]
    else none
  | [w, x] => if x % 16 = 0 then some [UInt8.ofNat (w * 4 + x / 16)] else none
  | [_] => none
  | [] => some []

theorem join?_split (bs : List UInt8) : join? (split bs) = some bs := by
  have lt (b : UInt8) : b.toNat < 256 := b.toNat_lt
  have eq (b : UInt8) (n : Nat) (h : n = b.toNat) : UInt8.ofNat n = b := by
    rw [h]; exact UInt8.ofNat_toNat
  fun_induction split bs with
  | case1 a b c rest ih =>
    simp only [join?, ih, Option.map_some, Option.some.injEq]
    have ha := lt a; have hb := lt b; have hc := lt c
    rw [eq a _ (by omega), eq b _ (by omega), eq c _ (by omega)]
  | case2 a b =>
    have ha := lt a; have hb := lt b
    simp only [join?, show b.toNat % 16 * 4 % 4 = 0 by omega, if_true]
    rw [eq a _ (by omega), eq b _ (by omega)]
  | case3 a =>
    have ha := lt a
    simp only [join?, show a.toNat % 4 * 16 % 16 = 0 by omega, if_true]
    rw [eq a _ (by omega)]
  | case4 => rfl

def encodeUnpadded (a : Alphabet) (bs : List UInt8) : List Char := (split bs).map a.symbol

def decodeUnpadded? (a : Alphabet) (s : List Char) : Option (List UInt8) :=
  (s.mapM a.value?).bind join?

/-- As many padding signs as complete the last group of four. -/
def padding (length : Nat) : List Char := List.replicate ((4 - length % 4) % 4) '='

def encode (bs : List UInt8) : List Char :=
  let s := encodeUnpadded .standard bs
  s ++ padding s.length

def decode? (s : List Char) : Option (List UInt8) :=
  let body := s.takeWhile (· != '=')
  if s = body ++ padding body.length then decodeUnpadded? .standard body else none

theorem lt_of_mem_split {bs : List UInt8} {v : Nat} (h : v ∈ split bs) : v < 64 := by
  have lt (b : UInt8) : b.toNat < 256 := b.toNat_lt
  fun_induction split bs with
  | case1 a b c rest ih =>
    have ha := lt a; have hb := lt b; have hc := lt c
    simp only [List.mem_cons] at h
    rcases h with rfl | rfl | rfl | rfl | h
    · omega
    · omega
    · omega
    · omega
    · exact ih h
  | case2 a b =>
    have ha := lt a; have hb := lt b
    simp only [List.mem_cons, List.not_mem_nil, or_false] at h
    omega
  | case3 a =>
    have ha := lt a
    simp only [List.mem_cons, List.not_mem_nil, or_false] at h
    omega
  | case4 => simp at h

theorem value?_symbol (a : Alphabet) {v : Nat} (h : v < 64) :
    a.value? (a.symbol v) = some v := by
  have hs : ∀ v : Fin 64, Alphabet.standard.value? (Alphabet.standard.symbol v) = some v.val := by
    decide +kernel
  have hu : ∀ v : Fin 64, Alphabet.url.value? (Alphabet.url.symbol v) = some v.val := by
    decide +kernel
  cases a
  · exact hs ⟨v, h⟩
  · exact hu ⟨v, h⟩

theorem symbol_ne_padding (a : Alphabet) {v : Nat} (h : v < 64) : a.symbol v ≠ '=' := by
  intro e
  have := value?_symbol a h
  rw [e] at this
  revert this
  cases a <;> simp [show Alphabet.standard.value? '=' = none by decide +kernel,
    show Alphabet.url.value? '=' = none by decide +kernel]

theorem value?_eq_some_iff {a : Alphabet} {c : Char} {v : Nat} :
    a.value? c = some v ↔ c = a.symbol v ∧ v < 64 := by
  constructor
  · intro h
    have hlength : a.symbols.length = 64 := by cases a <;> rfl
    obtain ⟨hv, hc, -⟩ := List.idxOf?_eq_some_iff.1 h
    refine ⟨?_, hlength ▸ hv⟩
    rw [Alphabet.symbol, List.getD, List.getElem?_eq_getElem hv]
    exact hc.symm
  · rintro ⟨rfl, hv⟩
    exact value?_symbol a hv

theorem split_of_join? {vs : List Nat} {bs : List UInt8} (hvs : ∀ v ∈ vs, v < 64)
    (h : join? vs = some bs) : split bs = vs := by
  have toNat {n : Nat} (hn : n < 256) : (UInt8.ofNat n).toNat = n := by
    simp [Nat.mod_eq_of_lt hn]
  fun_induction join? vs generalizing bs with
  | case1 w x y z rest ih =>
    obtain ⟨cs, hcs, rfl⟩ := Option.map_eq_some_iff.1 h
    simp only [List.mem_cons, forall_eq_or_imp] at hvs
    rw [split, ih hvs.2.2.2.2 hcs, toNat (by omega), toNat (by omega), toNat (by omega)]
    simp only [List.cons.injEq, and_true]
    omega
  | case2 w x y hy =>
    cases h
    simp only [List.mem_cons, forall_eq_or_imp] at hvs
    rw [split, toNat (by omega), toNat (by omega)]
    simp only [List.cons.injEq, and_true]
    omega
  | case3 w x y hy => cases h
  | case4 w x hx =>
    cases h
    simp only [List.mem_cons, forall_eq_or_imp] at hvs
    rw [split, toNat (by omega)]
    simp only [List.cons.injEq, and_true]
    omega
  | case5 w x hx => cases h
  | case6 w => cases h
  | case7 => cases h; rfl

theorem decodeUnpadded?_eq_some_iff {a : Alphabet} {s : List Char} {bs : List UInt8} :
    decodeUnpadded? a s = some bs ↔ s = encodeUnpadded a bs := by
  simp only [decodeUnpadded?, Option.bind_eq_some_iff,
    mapM_eq_some_iff (fun _ _ => value?_eq_some_iff)]
  constructor
  · rintro ⟨vs, ⟨rfl, hlt⟩, hbs⟩
    rw [encodeUnpadded, split_of_join? hlt hbs]
  · rintro rfl
    exact ⟨split bs, ⟨rfl, fun _ => lt_of_mem_split⟩, join?_split bs⟩

theorem decodeUnpadded?_encodeUnpadded (a : Alphabet) (bs : List UInt8) :
    decodeUnpadded? a (encodeUnpadded a bs) = some bs :=
  decodeUnpadded?_eq_some_iff.2 rfl

theorem length_encodeUnpadded (a : Alphabet) (bs : List UInt8) :
    (encodeUnpadded a bs).length = (4 * bs.length + 2) / 3 := by
  rw [encodeUnpadded, List.length_map]
  fun_induction split bs with
  | case1 a b c rest ih =>
    simp only [List.length_cons, ih]
    omega
  | case2 a b => simp
  | case3 a => simp
  | case4 => rfl

theorem takeWhile_encode (bs : List UInt8) :
    (encode bs).takeWhile (· != '=') = encodeUnpadded .standard bs := by
  unfold encode padding
  simp only
  rw [List.takeWhile_append_of_pos]
  · cases (4 - (encodeUnpadded .standard bs).length % 4) % 4 with
    | zero => simp
    | succ n => simp [List.replicate_succ]
  · intro c hc
    obtain ⟨v, hv, rfl⟩ := List.mem_map.1 hc
    simpa using symbol_ne_padding .standard (lt_of_mem_split hv)

theorem decode?_encode (bs : List UInt8) : decode? (encode bs) = some bs := by
  unfold decode?
  simp only [takeWhile_encode]
  exact (if_pos rfl).trans (decodeUnpadded?_encodeUnpadded .standard bs)

end Accounts.Text.Base64
