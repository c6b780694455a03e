import Accounts.Text.Decimal
import Mathlib.Data.List.Induction
import Mathlib.Data.Nat.Digits.Defs

/-!
# Integer literals

What texts are integers: decimal digits, after a plus or, for a signed integer, a minus. Reading one
gives the number it stands for, and nothing else can be read (`readWithin?_eq_some_iff`). Digits
without needless zeros are those that their number is written with (`digits_ofDigits`).
-/
namespace Accounts.Text

variable {signed : Bool} {s : List Char} {n lo hi : Int}

/-- One or more digits, the last of them counting ones, which stand for this number. -/
structure Numeral (s : List Char) (n : Nat) : Prop where
  nonempty : s ≠ []
  digits : ∀ c ∈ s, '0' ≤ c ∧ c ≤ '9'
  value : n = Nat.ofDigits 10 (s.reverse.map fun c => c.toNat - 48)

/-- A text that stands for an integer; a minus is part of it only if there are signed integers. -/
inductive Literal (signed : Bool) : List Char → Int → Prop
  | plain {s : List Char} {n : Nat} (h : Numeral s n) : Literal signed s n
  | plus {s : List Char} {n : Nat} (h : Numeral s n) : Literal signed ('+' :: s) n
  | minus {s : List Char} {n : Nat} (hsigned : signed = true) (h : Numeral s n) :
    Literal signed ('-' :: s) (-n)

theorem ofDigits_eq (s : List Char) :
    ofDigits s = Nat.ofDigits 10 (s.reverse.map fun c => c.toNat - 48) := by
  induction s using List.reverseRecOn with
  | nil => rfl
  | append_singleton s c ih =>
    rw [ofDigits_append_singleton, ih, List.reverse_append, List.map_append, List.reverse_singleton,
      List.map_singleton, List.singleton_append, Nat.ofDigits_cons]
    exact Nat.add_comm _ _

theorem readNat?_eq_some_iff {n : Nat} : readNat? s = some n ↔ Numeral s n := by
  unfold readNat?
  constructor
  · intro h
    split at h
    · cases h
    · next hs =>
      cases h
      rw [Bool.or_eq_true, not_or, List.isEmpty_iff, Bool.not_eq_true, List.any_eq_false] at hs
      refine ⟨hs.1, fun c hc => ?_, ofDigits_eq s⟩
      simpa [isDigit] using hs.2 c hc
  · rintro ⟨hne, hdigits, hvalue⟩
    have hall : s.any (fun c => !isDigit c) = false := by
      rw [List.any_eq_false]
      intro c hc
      simpa [isDigit] using hdigits c hc
    simp [hne, hall, ofDigits_eq, hvalue]

/-- No numeral begins with a sign. -/
theorem not_numeral_cons {c : Char} {n : Nat} (hc : ¬ ('0' ≤ c ∧ c ≤ '9')) :
    ¬ Numeral (c :: s) n := fun h => hc (h.digits c List.mem_cons_self)

theorem readInt?_eq_some_iff : readInt? signed s = some n ↔ Literal signed s n := by
  have hmap {s : List Char} {g : Nat → Int} : (readNat? s).map g = some n ↔
      ∃ m, Numeral s m ∧ g m = n := by
    simp only [Option.map_eq_some_iff, readNat?_eq_some_iff]
  unfold readInt?
  split
  · next s =>
    rw [hmap]
    constructor
    · rintro ⟨m, hm, rfl⟩
      exact .plus hm
    · intro h
      cases h with
      | plain h => exact absurd h (not_numeral_cons (by decide))
      | plus h => exact ⟨_, h, rfl⟩
  · next s =>
    constructor
    · intro h
      split at h
      · next hsigned =>
        obtain ⟨m, hm, rfl⟩ := hmap.1 h
        exact .minus hsigned hm
      · cases h
    · intro h
      cases h with
      | plain h => exact absurd h (not_numeral_cons (by decide))
      | minus hsigned h =>
        rw [if_pos hsigned]
        exact hmap.2 ⟨_, h, rfl⟩
  · next hplus hminus =>
    rw [hmap]
    constructor
    · rintro ⟨m, hm, rfl⟩
      exact .plain hm
    · intro h
      cases h with
      | plain h => exact ⟨_, h, rfl⟩
      | plus h => exact absurd rfl (hplus _)
      | minus _ h => exact absurd rfl (hminus _)

/-- An integer from `lo` to `hi` is read exactly from its literals. -/
theorem readWithin?_eq_some_iff :
    readWithin? lo hi s = some n ↔ (lo ≤ n ∧ n ≤ hi) ∧ Literal (decide (lo < 0)) s n := by
  unfold readWithin?
  rw [Option.filter_eq_some_iff, readInt?_eq_some_iff, decide_eq_true_iff, and_comm]

/-! ### No needless zeros -/

theorem digitChar_digitValue {c : Char} (h : isDigit c = true) :
    digitValue c < 10 ∧ digitChar (digitValue c) = c := by
  have hc : 48 ≤ c.toNat ∧ c.toNat ≤ 57 := by
    simpa [isDigit, Char.le_def, UInt32.le_iff_toNat_le] using h
  refine ⟨show c.toNat - 48 < 10 by omega, ?_⟩
  have hvalue : '0'.toNat + (c.toNat - '0'.toNat) = c.toNat := Nat.add_sub_cancel' hc.1
  rw [digitChar, digitValue, hvalue, Char.ofNat_toNat]

/-- A number has no needless zeros. -/
theorem eq_zero_of_head?_digits {n : Nat} (h : (digits n).head? = some '0') : n = 0 := by
  fun_induction digits n with
  | case1 n hn =>
    have hzero : ∀ d : Fin 10, some (digitChar d) = some '0' → d.val = 0 := by decide
    exact hzero ⟨n, hn⟩ h
  | case2 n hn ih =>
    rw [List.head?_append, Option.or_of_isSome (by simp [digits_ne_nil])] at h
    have := ih h
    omega

/-- Digits without needless zeros are those of their number. -/
theorem digits_ofDigits {s : List Char} (hs : s ≠ []) (hdigits : ∀ c ∈ s, isDigit c = true)
    (hzero : s.head? = some '0' → s.length = 1) : digits (ofDigits s) = s := by
  induction s using List.reverseRecOn with
  | nil => exact absurd rfl hs
  | append_singleton s c ih =>
    obtain ⟨hlt, hc⟩ := digitChar_digitValue (hdigits c (by simp))
    rw [ofDigits_append_singleton, digits]
    rcases eq_or_ne s [] with rfl | hne
    · rw [if_pos (by simpa [ofDigits] using hlt)]
      simpa [ofDigits] using hc
    · have hhead : s.head? ≠ some '0' := fun h => by
        have := hzero (by rw [List.head?_append, h]; rfl)
        simp [hne] at this
      have hdigits' := ih hne (fun c hc => hdigits c (by simp [hc])) fun h => absurd h hhead
      have hpos : ofDigits s ≠ 0 := fun h => by
        rw [← hdigits', h] at hhead
        exact hhead (by rw [digits]; rfl)
      rw [if_neg (by omega), show (10 * ofDigits s + digitValue c) / 10 = ofDigits s by omega,
        show (10 * ofDigits s + digitValue c) % 10 = digitValue c by omega, hdigits', hc]

theorem Numeral.digits_eq {n : Nat} (h : Numeral s n) (hzero : s.head? = some '0' → s.length = 1) :
    Text.digits n = s := by
  rw [h.value, ← ofDigits_eq]
  exact digits_ofDigits h.nonempty (fun c hc => by simpa [isDigit] using h.digits c hc) hzero

end Accounts.Text
