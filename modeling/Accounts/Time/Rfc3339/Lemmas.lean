import Accounts.Time.Rfc3339

/-!
# Reading what was written

The reader gives back every instant from its written form, as long as its year has dates
(`read?_write`). The parts of the form are read one by one: digits are not blank, so nothing is
skipped in front of them, and each part ends before the mark that follows it.
-/
namespace Accounts.Instant

open Accounts.Text

theorem isBlank_of_isDigit {c : Char} (h : isDigit c = true) : isBlank c = false := by
  have h₀ : '0' ≤ c ∧ c ≤ '9' := by
    simpa [isDigit] using h
  have h₁ : 48 ≤ c.toNat ∧ c.toNat ≤ 57 :=
    ⟨UInt32.le_iff_toNat_le.1 h₀.1, UInt32.le_iff_toNat_le.1 h₀.2⟩
  simp only [isBlank, Bool.or_eq_false_iff, Bool.and_eq_false_iff, decide_eq_false_iff_not,
    beq_eq_false_iff_ne]
  omega

theorem trimStart_padded (w n : Nat) (rest : List Char) :
    trimStart (padded w n ++ rest) = padded w n ++ rest := by
  obtain ⟨c, ds, hp⟩ := List.exists_cons_of_ne_nil (padded_ne_nil w n)
  rw [hp]
  exact trimStart_cons_of_not
    (isBlank_of_isDigit (isDigit_of_mem_padded (hp ▸ List.mem_cons_self))) _

theorem number?_padded {w n : Nat} (hw : 0 < w) (h : n < Nat.pow 10 w) (rest : List Char) :
    number? w (padded w n ++ rest) = some (n, rest) := by
  have hl := length_padded hw h
  have ht : (padded w n ++ rest).take w = padded w n := by
    rw [List.take_append_of_le_length (by omega), List.take_of_length_le (by omega)]
  have hd : (padded w n).takeWhile isDigit = padded w n := by
    rw [← List.append_nil (padded w n),
      List.takeWhile_append_of_pos fun c hc => isDigit_of_mem_padded hc]
    simp
  simp [number?, ht, hd, padded_ne_nil, ofDigits_padded]

theorem number?_until {w k n : Nat} (hk : (padded k n).length ≤ w) {c : Char}
    (hc : isDigit c = false) (rest : List Char) :
    number? w (padded k n ++ c :: rest) = some (n, c :: rest) := by
  have hd : ((padded k n ++ c :: rest).take w).takeWhile isDigit = padded k n := by
    rw [List.take_append, List.take_of_length_le hk,
      List.takeWhile_append_of_pos fun c hc => isDigit_of_mem_padded hc]
    cases w - (padded k n).length <;> simp [hc]
  rw [number?, hd]
  simp [padded_ne_nil, ofDigits_padded]

theorem year?_writeYear (y : Int) (rest : List Char) :
    year? (writeYear y ++ '-' :: rest) = some (y, '-' :: rest) := by
  unfold writeYear
  split
  · next h =>
    have hn := number?_padded (w := 4) (n := y.toNat) (by decide)
      (show _ < 10000 by omega) ('-' :: rest)
    obtain ⟨c, ds, hp⟩ := List.exists_cons_of_ne_nil (padded_ne_nil 4 y.toNat)
    have hc : isDigit c = true := isDigit_of_mem_padded (hp ▸ List.mem_cons_self)
    rw [hp, List.cons_append] at hn ⊢
    unfold year?
    split
    · next e => exact absurd ((List.cons.inj e).1 ▸ hc) (by decide)
    · next e => exact absurd ((List.cons.inj e).1 ▸ hc) (by decide)
    · rw [hn]
      simp only [Option.map_some, Option.some.injEq, Prod.mk.injEq, and_true]
      omega
  · next h =>
    by_cases hy : y < 0
    · simp only [hy, if_true, List.cons_append, year?, number?_until (k := 4) (n := y.natAbs)
        (show _ ≤ (padded 4 y.natAbs ++ '-' :: rest).length by simp) (c := '-') rfl]
      simp only [Option.map_some, Option.some.injEq, Prod.mk.injEq, and_true]
      omega
    · simp only [hy, if_false, List.cons_append, year?, number?_until (k := 4) (n := y.natAbs)
        (show _ ≤ (padded 4 y.natAbs ++ '-' :: rest).length by simp) (c := '-') rfl]
      simp only [Option.map_some, Option.some.injEq, Prod.mk.injEq, and_true]
      omega

theorem trimStart_writeYear (y : Int) (rest : List Char) :
    trimStart (writeYear y ++ rest) = writeYear y ++ rest := by
  unfold writeYear
  split
  · exact trimStart_padded ..
  · split <;> exact trimStart_cons_of_not rfl _

theorem date?_writeDate {d : Date} (hm : d.month < 100) (hd : d.day < 100) (rest : List Char) :
    date? (writeDate d ++ rest) = some (d, rest) := by
  have hw : writeDate d ++ rest =
      writeYear d.year ++ '-' :: (padded 2 d.month ++ '-' :: (padded 2 d.day ++ rest)) := by
    simp [writeDate]
  rw [hw, date?, trimStart_writeYear, year?_writeYear]
  simp [skip?, trimStart_cons_of_not (show isBlank '-' = false from rfl), trimStart_padded,
    number?_padded (show 0 < 2 by decide) hm, number?_padded (show 0 < 2 by decide) hd]

theorem fraction?_writeFraction {nano : Nat} (h : nano < 1000000000) {c : Char}
    (hc : isDigit c = false) (hp : c ≠ '.') (rest : List Char) :
    fraction? (writeFraction nano ++ c :: rest) = some (nano, c :: rest) := by
  have key {k m : Nat} (hk : 0 < k) (hk' : k ≤ 9) (hm : m < Nat.pow 10 k)
      (hn : m * Nat.pow 10 (9 - k) = nano) :
      fraction? ('.' :: padded k m ++ c :: rest) = some (nano, c :: rest) := by
    have hl := length_padded hk hm
    rw [List.cons_append, fraction?, number?_until (by omega) hc]
    simp only [Option.bind_eq_bind, Option.bind_some, List.length_append, List.length_cons, hl,
      show k + (rest.length + 1) - (rest.length + 1) = k by omega, hn,
      List.dropWhile_cons_of_neg (Bool.eq_false_iff.1 hc)]
    rfl
  unfold writeFraction
  split
  · next h₀ =>
    subst h₀
    unfold fraction?
    split
    · next e => exact absurd (List.cons.inj e).1 hp
    · rfl
  · split
    · exact key (by decide) (by decide) (show _ < 1000 by omega)
        (show nano / 1000000 * 1000000 = nano by omega)
    · split
      · exact key (by decide) (by decide) (show _ < 1000000 by omega)
          (show nano / 1000 * 1000 = nano by omega)
      · exact key (by decide) (by decide) (show _ < 1000000000 by omega)
          (show nano * 1 = nano by omega)

theorem clock?_writeClock {clock nano : Nat} (h : clock < 86400)
    (hn : nano < 1000000000 ∨ clock % 60 = 59 ∧ nano < 2000000000) {c : Char}
    (hc : isDigit c = false) (hp : c ≠ '.') (rest : List Char) :
    clock? (writeClock clock nano ++ c :: rest) = some ((clock, nano), c :: rest) := by
  have hw : writeClock clock nano ++ c :: rest =
      padded 2 (clock / 3600) ++ ':' :: (padded 2 (clock / 60 % 60) ++
        ':' :: (padded 2 (clock % 60 + nano / 1000000000) ++
          (writeFraction (nano % 1000000000) ++ c :: rest))) := by
    simp [writeClock]
  have ht (s : List Char) : trimStart (':' :: s) = ':' :: s := trimStart_cons_of_not rfl s
  rw [hw, clock?, trimStart_padded]
  simp only [number?_padded (w := 2) (n := clock / 3600) (by decide)
      (show _ < 100 by omega),
    number?_padded (w := 2) (n := clock / 60 % 60) (by decide) (show _ < 100 by omega),
    number?_padded (w := 2) (n := clock % 60 + nano / 1000000000) (by decide)
      (show _ < 100 by omega),
    Option.bind_eq_bind, Option.bind_some, ht, skip?, if_true, trimStart_padded,
    fraction?_writeFraction (Nat.mod_lt nano (by decide)) hc hp]
  rw [if_neg (by omega)]
  split
  · simp only [Option.some.injEq, Prod.mk.injEq, and_true]
    omega
  · simp only [Option.some.injEq, Prod.mk.injEq, and_true]
    omega

theorem ofLocal?_eq {t : Instant} {d : Date} {clock : Nat} (hv : d.IsValid)
    (hs : d.dayNumber * secondsPerDay + clock - 0 = t.second) (hc : inCalendar d.year = true)
    (hc' : inCalendar (Date.ofDayNumber (t.second / secondsPerDay)).year = true) :
    ofLocal? d clock t.nano 0 = some t := by
  rw [ofLocal?]
  simp only [hs]
  rw [if_pos ⟨hv, hc, hc'⟩, ofParts?, dif_pos t.nano_lt]

/-- Every instant whose year has dates is read back from what is written. -/
theorem read?_write (t : Instant)
    (h : inCalendar (Date.ofDayNumber (t.second / secondsPerDay)).year = true) :
    read? t.write = some t := by
  have hv := Date.isValid_ofDayNumber (t.second / secondsPerDay)
  have hn := Date.dayNumber_ofDayNumber (t.second / secondsPerDay)
  have hd : (Date.ofDayNumber (t.second / secondsPerDay)).day < 100 := by
    have h₁ := hv.2.2.2
    have h₂ : Date.daysIn (Date.ofDayNumber (t.second / secondsPerDay)).year
        (Date.ofDayNumber (t.second / secondsPerDay)).month ≤ 31 := by
      unfold Date.daysIn
      split <;> split <;> decide
    omega
  have hm : (Date.ofDayNumber (t.second / secondsPerDay)).month < 100 := by
    have := hv.2.1
    omega
  have hnano := t.nano_lt
  have hclock : clock? (writeClock (t.second % secondsPerDay).toNat t.nano ++ ['Z']) =
      some (((t.second % secondsPerDay).toNat, t.nano), ['Z']) :=
    clock?_writeClock (by unfold secondsPerDay; omega) (by unfold secondsPerDay; omega) rfl
      (by decide) []
  rw [write, read?, date?_writeDate hm hd]
  simp only [Option.bind_eq_bind, Option.bind_some, skipSeparator?, hclock]
  rw [trimStart_cons_of_not (show isBlank 'Z' = false from rfl)]
  refine ofLocal?_eq hv ?_ h h
  rw [hn]
  unfold secondsPerDay
  omega

end Accounts.Instant
