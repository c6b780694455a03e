/-!
# Decimal digits

Natural numbers as digits, alone or padded with zeros to a width, and integer literals: an
optional sign and at least one digit. Reading what was written gives the number back
(`ofDigits_digits`, `ofDigits_padded`).
-/
namespace Accounts.Text

def digitChar (d : Nat) : Char := Char.ofNat ('0'.toNat + d)

def digitValue (c : Char) : Nat := c.toNat - '0'.toNat

def isDigit (c : Char) : Bool := '0' ≤ c && c ≤ '9'

theorem isDigit_digitChar {d : Nat} (h : d < 10) : isDigit (digitChar d) = true := by
  have : ∀ d : Fin 10, isDigit (digitChar d) = true := by decide
  exact this ⟨d, h⟩

theorem digitValue_digitChar {d : Nat} (h : d < 10) : digitValue (digitChar d) = d := by
  have : ∀ d : Fin 10, digitValue (digitChar d) = d := by decide
  exact this ⟨d, h⟩

def digits (n : Nat) : List Char :=
  if n < 10 then [digitChar n] else digits (n / 10) ++ [digitChar (n % 10)]

def ofDigits (s : List Char) : Nat := s.foldl (fun n c => 10 * n + digitValue c) 0

theorem ofDigits_append_singleton (s : List Char) (c : Char) :
    ofDigits (s ++ [c]) = 10 * ofDigits s + digitValue c := by
  simp [ofDigits]

theorem ofDigits_digits (n : Nat) : ofDigits (digits n) = n := by
  fun_induction digits n with
  | case1 n h => simp [ofDigits, digitValue_digitChar h]
  | case2 n h ih =>
    rw [ofDigits_append_singleton, ih, digitValue_digitChar (Nat.mod_lt _ (by omega))]
    omega

theorem isDigit_of_mem_digits {n : Nat} {c : Char} (h : c ∈ digits n) : isDigit c = true := by
  fun_induction digits n with
  | case1 n hn =>
    rw [List.mem_singleton] at h
    exact h ▸ isDigit_digitChar hn
  | case2 n hn ih =>
    rcases List.mem_append.1 h with h | h
    · exact ih h
    · rw [List.mem_singleton] at h
      exact h ▸ isDigit_digitChar (Nat.mod_lt _ (by omega))

theorem digits_ne_nil (n : Nat) : digits n ≠ [] := by
  fun_induction digits n <;> simp

/-- At least `width` characters, with zeros in front. -/
def padded (width n : Nat) : List Char :=
  List.replicate (width - (digits n).length) '0' ++ digits n

theorem length_digits_le {w n : Nat} (hw : 0 < w) (h : n < Nat.pow 10 w) :
    (digits n).length ≤ w := by
  induction w generalizing n with
  | zero => omega
  | succ w ih =>
    unfold digits
    split
    · simp
    · next hn =>
      have hw' : 0 < w := by
        rcases Nat.eq_zero_or_pos w with rfl | hw'
        · simp at h; omega
        · exact hw'
      have hp : Nat.pow 10 (w + 1) = Nat.pow 10 w * 10 := rfl
      have := ih hw' (show n / 10 < Nat.pow 10 w by omega)
      simpa using this

theorem length_padded {w n : Nat} (hw : 0 < w) (h : n < Nat.pow 10 w) :
    (padded w n).length = w := by
  have := length_digits_le hw h
  simp only [padded, List.length_append, List.length_replicate]
  omega

theorem isDigit_of_mem_padded {w n : Nat} {c : Char} (h : c ∈ padded w n) : isDigit c = true := by
  rcases List.mem_append.1 h with h | h
  · rw [List.eq_of_mem_replicate h]
    rfl
  · exact isDigit_of_mem_digits h

theorem ofDigits_padded (w n : Nat) : ofDigits (padded w n) = n := by
  have hz (k : Nat) (ds : List Char) : ofDigits (List.replicate k '0' ++ ds) = ofDigits ds := by
    induction k with
    | zero => rfl
    | succ k ih => exact ih
  rw [padded, hz, ofDigits_digits]

theorem padded_ne_nil (w n : Nat) : padded w n ≠ [] := by
  simp [padded, digits_ne_nil]

/-- An integer with its sign, if negative, in front of the zeros and counted in the width. -/
def paddedInt (width : Nat) : Int → List Char
  | .ofNat n => padded width n
  | .negSucc n => '-' :: padded (width - 1) (n + 1)

def intDigits : Int → List Char
  | .ofNat n => digits n
  | .negSucc n => '-' :: digits (n + 1)

/-- One or more digits and nothing else. -/
def readNat? (s : List Char) : Option Nat :=
  if s.isEmpty || s.any (fun c => !isDigit c) then none else some (ofDigits s)

theorem readNat?_digits (n : Nat) : readNat? (digits n) = some n := by
  have hall : (digits n).any (fun c => !isDigit c) = false := by
    rw [List.any_eq_false]
    intro c hc
    simp [isDigit_of_mem_digits hc]
  simp [readNat?, hall, digits_ne_nil, ofDigits_digits]

/-- An integer literal; `signed` tells whether a minus is a sign. -/
def readInt? (signed : Bool) : List Char → Option Int
  | '+' :: s => (readNat? s).map Int.ofNat
  | '-' :: s => if signed then (readNat? s).map fun n => -Int.ofNat n else none
  | s => (readNat? s).map Int.ofNat

/-- An integer from `lo` to `hi`; a minus is a sign only if some of these are negative. -/
def readWithin? (lo hi : Int) (s : List Char) : Option Int :=
  (readInt? (decide (lo < 0)) s).filter fun n => lo ≤ n ∧ n ≤ hi

/-- The least and the largest signed integer of 64 bits. -/
def minInt64 : Int := -9223372036854775808

def maxInt64 : Int := 9223372036854775807

end Accounts.Text
