import Accounts.Json.Literal
import Accounts.Text.Decimal
import Accounts.Text.Utf8

/-!
# JSON documents

The grammar of JSON as a tree that keeps what was written: literals as pieces, numbers as digits,
members in order and with repeats. Any depth is read. What a document means is decided elsewhere,
so that a reader which ignores a part need not give it a meaning. Damaged UTF-8 is let through where
a literal is ignored: it can be scanned (`scan_damaged`) and denotes nothing (`denote_damaged`).
-/
namespace Accounts.Json

open Accounts.Text

/-- A number as written: the digits before the point, after it, and of the exponent. -/
structure Numeral where
  isNegative : Bool
  whole : List Char
  fraction : List Char
  exponent : Option (Bool × List Char)
  deriving DecidableEq, Repr

inductive Document where
  | null
  | bool (b : Bool)
  | number (n : Numeral)
  | string (s : Literal)
  | array (items : List Document)
  | object (members : List (Literal × Document))

namespace Numeral

/-- The digits at the front, of which there has to be at least one. -/
def someDigits (s : List Char) : Option (List Char × List Char) :=
  let ds := s.takeWhile isDigit
  if ds.isEmpty then none else some (ds, s.dropWhile isDigit)

/-- A single zero, or digits that do not start with one. -/
def readWhole : List Char → Option (List Char × List Char)
  | '0' :: s => some (['0'], s)
  | s => someDigits s

def readFraction : List Char → Option (List Char × List Char)
  | '.' :: s => someDigits s
  | s => some ([], s)

def readExponent : List Char → Option (Option (Bool × List Char) × List Char)
  | c :: s =>
    if c = 'e' ∨ c = 'E' then
      match s with
      | '+' :: s => (someDigits s).map fun (ds, s) => (some (false, ds), s)
      | '-' :: s => (someDigits s).map fun (ds, s) => (some (true, ds), s)
      | s => (someDigits s).map fun (ds, s) => (some (false, ds), s)
    else some (none, c :: s)
  | [] => some (none, [])

def read (s : List Char) : Option (Numeral × List Char) := do
  let (isNegative, s) := match s with
    | '-' :: s => (true, s)
    | s => (false, s)
  let (whole, s) ← readWhole s
  let (fraction, s) ← readFraction s
  let (exponent, s) ← readExponent s
  pure (⟨isNegative, whole, fraction, exponent⟩, s)

end Numeral

namespace Document

def isSpace (c : Char) : Bool := c == ' ' || c == '\t' || c == '\n' || c == '\r'

def skipSpace (s : List Char) : List Char := s.dropWhile isSpace

mutual

def value : Nat → List Char → Option (Document × List Char)
  | 0, _ => none
  | fuel + 1, s =>
    match skipSpace s with
    | 'n' :: 'u' :: 'l' :: 'l' :: s => some (.null, s)
    | 't' :: 'r' :: 'u' :: 'e' :: s => some (.bool true, s)
    | 'f' :: 'a' :: 'l' :: 's' :: 'e' :: s => some (.bool false, s)
    | '"' :: s => (Literal.scan s).map fun (ps, s) => (.string ps, s)
    | '[' :: s =>
      match skipSpace s with
      | ']' :: s => some (.array [], s)
      | s => (items fuel s).map fun (ds, s) => (.array ds, s)
    | '{' :: s =>
      match skipSpace s with
      | '}' :: s => some (.object [], s)
      | s => (members fuel s).map fun (ms, s) => (.object ms, s)
    | s => (Numeral.read s).map fun (n, s) => (.number n, s)

/-- One or more values with commas between them, and the closing bracket. -/
def items : Nat → List Char → Option (List Document × List Char)
  | 0, _ => none
  | fuel + 1, s => do
    let (d, s) ← value fuel s
    match skipSpace s with
    | ',' :: s =>
      let (ds, s) ← items fuel s
      pure (d :: ds, s)
    | ']' :: s => pure ([d], s)
    | _ => none

/-- One or more members with commas between them, and the closing brace. -/
def members : Nat → List Char → Option (List (Literal × Document) × List Char)
  | 0, _ => none
  | fuel + 1, s =>
    match skipSpace s with
    | '"' :: s => do
      let (key, s) ← Literal.scan s
      match skipSpace s with
      | ':' :: s =>
        let (d, s) ← value fuel s
        match skipSpace s with
        | ',' :: s =>
          let (ms, s) ← members fuel s
          pure ((key, d) :: ms, s)
        | '}' :: s => pure ([(key, d)], s)
        | _ => none
      | _ => none
    | _ => none

end

/-- Reads a whole text as one document. Twice its length bounds the nesting of calls. -/
def read? (s : List Char) : Option Document := do
  let (d, rest) ← value (2 * s.length + 2) s
  if (skipSpace rest).isEmpty then some d else none

/-- What stands for damage: a character that is wrong after a backslash and outside of literals,
and then escapes that denote nothing, whatever codes are next to them. -/
def damaged : List Char :=
  ['\uFFFD', '\\', 'u', 'd', '8', '0', '0', '\\', 'u', 'd', '8', '0', '0']

theorem scan_damaged (rest : List Char) :
    Literal.scan (damaged ++ rest) = (Literal.scan rest).map fun (ps, r) =>
      (.char '\uFFFD' :: .code 0xD800 :: .code 0xD800 :: ps, r) := by
  have h : Literal.code? 'd' '8' '0' '0' = some 0xD800 := by decide
  simp only [damaged, List.cons_append, List.nil_append]
  rw [Literal.scan, if_neg (by decide), Literal.scan, Literal.scan, h]
  · cases hs : Literal.scan rest <;> rfl
  all_goals simp

theorem denote_damaged (ps qs : Literal) :
    Literal.denote (ps ++ .code 0xD800 :: .code 0xD800 :: qs) = none := by
  fun_induction Literal.denote ps with
  | case1 => rfl
  | case2 c rest ih => simp [Literal.denote, ih]
  | case3 n rest h ih =>
    rw [List.cons_append, Literal.denote.eq_def]
    simp [h, ih]
  | case4 n h m rest h' ih =>
    rw [List.cons_append, Literal.denote.eq_def]
    simp [h, h', ih]
  | case5 n h m rest h' =>
    rw [List.cons_append, Literal.denote.eq_def]
    simp [h, h']
  | case6 n rest h h' =>
    rw [List.cons_append, Literal.denote.eq_def]
    cases rest with
    | nil => simp [h]
    | cons p rest =>
      cases p with
      | char c => simp [h]
      | code m => exact absurd rfl (h' m rest)

/-- Reads bytes. Damaged UTF-8 may stand in literals, which then denote nothing. -/
def readBytes? (bs : List UInt8) : Option Document :=
  read? ((Utf8.pieces bs).flatMap fun p => p.elim damaged fun c => [c])

end Document

end Accounts.Json
