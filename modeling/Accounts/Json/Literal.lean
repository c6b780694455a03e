import Accounts.Text.Quoted

/-!
# String literals of JSON

The body of a literal is a sequence of pieces, a character or a 16-bit code written as an escape.
A literal may be well formed and still denote no text, when a surrogate code stands alone. Writing
escapes only what must be, and reading gives the text back (`scan_write`).
-/
namespace Accounts.Json

open Accounts.Text

inductive Piece where
  | char (c : Char)
  | code (n : Nat)
  deriving DecidableEq, Repr

abbrev Literal := List Piece

namespace Literal

/-- The text that the pieces stand for: codes of a surrogate pair stand for one character. -/
def denote : Literal → Option (List Char)
  | [] => some []
  | .char c :: rest => (denote rest).map (c :: ·)
  | .code n :: rest =>
    if n < 0xD800 ∨ 0xE000 ≤ n then (denote rest).map (Char.ofNat n :: ·)
    else
      match rest with
      | .code m :: rest =>
        if n < 0xDC00 ∧ 0xDC00 ≤ m ∧ m < 0xE000 then
          (denote rest).map
            (Char.ofNat (0x10000 + (n - 0xD800) * 0x400 + (m - 0xDC00)) :: ·)
        else none
      | _ => none

def hexValue? (c : Char) : Option Nat :=
  if '0' ≤ c ∧ c ≤ '9' then some (c.toNat - '0'.toNat)
  else if 'a' ≤ c ∧ c ≤ 'f' then some (c.toNat - 'a'.toNat + 10)
  else if 'A' ≤ c ∧ c ≤ 'F' then some (c.toNat - 'A'.toNat + 10)
  else none

def code? (a b c d : Char) : Option Nat := do
  let a ← hexValue? a
  let b ← hexValue? b
  let c ← hexValue? c
  let d ← hexValue? d
  pure (a * 0x1000 + b * 0x100 + c * 0x10 + d)

/-- The character that a backslash and this one stand for. -/
def unescape? : Char → Option Char
  | '"' => some '"'
  | '\\' => some '\\'
  | '/' => some '/'
  | 'b' => some '\x08'
  | 'f' => some '\x0c'
  | 'n' => some '\n'
  | 'r' => some '\r'
  | 't' => some '\t'
  | _ => none

/-- Reads the body of a literal up to its closing mark. -/
def scan : List Char → Option (Literal × List Char)
  | [] => none
  | '"' :: rest => some ([], rest)
  | '\\' :: 'u' :: a :: b :: c :: d :: rest => do
    let n ← code? a b c d
    let (ps, rest) ← scan rest
    pure (.code n :: ps, rest)
  | '\\' :: e :: rest => do
    let c ← unescape? e
    let (ps, rest) ← scan rest
    pure (.char c :: ps, rest)
  | c :: rest =>
    if c < ' ' ∨ c = '\\' then none
    else do
      let (ps, rest) ← scan rest
      pure (.char c :: ps, rest)

/-- How one character is written inside a literal. -/
def writeChar (c : Char) : List Char :=
  match c with
  | '"' => ['\\', '"']
  | '\\' => ['\\', '\\']
  | '\x08' => ['\\', 'b']
  | '\x0c' => ['\\', 'f']
  | '\n' => ['\\', 'n']
  | '\r' => ['\\', 'r']
  | '\t' => ['\\', 't']
  | c =>
    if c < ' ' then
      ['\\', 'u', '0', '0', hexChar (c.toNat / 16), hexChar (c.toNat % 16)]
    else [c]

def write (s : List Char) : List Char := '"' :: (s.flatMap writeChar ++ ['"'])

/-- The piece that a written character is read as. -/
def pieceOf (c : Char) : Piece :=
  if c < ' ' ∧ c ∉ ['\x08', '\x0c', '\n', '\r', '\t'] then .code c.toNat else .char c

theorem code?_control {n : Nat} (h : n < 32) :
    code? '0' '0' (hexChar (n / 16)) (hexChar (n % 16)) = some n := by
  have : ∀ n : Fin 32, code? '0' '0' (hexChar (n / 16)) (hexChar (n % 16)) = some n.val := by
    decide
  exact this ⟨n, h⟩

theorem scan_writeChar (c : Char) (rest : List Char) :
    scan (writeChar c ++ rest) = (scan rest).map fun (ps, r) => (pieceOf c :: ps, r) := by
  unfold writeChar
  split
  all_goals try (cases hs : scan rest <;> simp [scan, unescape?, pieceOf, hs]; done)
  split
  · next h =>
    have hc : c.toNat < 32 := h
    cases hs : scan rest <;> simp_all [scan, code?_control hc, pieceOf]
  · next hq hb _ _ _ _ _ h =>
    rw [List.singleton_append, scan, if_neg (not_or.2 ⟨h, fun e => hb e⟩)]
    · cases hs : scan rest <;> simp [pieceOf, h]
    · exact fun e => hq e
    · exact fun _ _ _ _ _ e _ => hb e
    · exact fun _ _ e _ => hb e

theorem denote_code {n : Nat} (h : n < 0xD800) (ps : Literal) :
    denote (.code n :: ps) = (denote ps).map (Char.ofNat n :: ·) := by
  match ps with
  | [] => simp [denote, h]
  | .char _ :: _ => simp [denote, h]
  | .code _ :: _ => rw [denote, if_pos (Or.inl h)]

theorem denote_pieceOf (c : Char) (ps : Literal) :
    denote (pieceOf c :: ps) = (denote ps).map (c :: ·) := by
  unfold pieceOf
  split
  · next h =>
    have hc : c.toNat < 32 := h.1
    rw [denote_code (by omega), Char.ofNat_toNat]
  · rfl

theorem scan_write (s rest : List Char) :
    ∃ ps, scan (s.flatMap writeChar ++ '"' :: rest) = some (ps, rest) ∧ denote ps = some s := by
  induction s with
  | nil => exact ⟨[], rfl, rfl⟩
  | cons c s ih =>
    obtain ⟨ps, hs, hd⟩ := ih
    refine ⟨pieceOf c :: ps, ?_, ?_⟩
    · rw [List.flatMap_cons, List.append_assoc, scan_writeChar, hs]
      rfl
    · rw [denote_pieceOf, hd]
      rfl

end Literal

end Accounts.Json
