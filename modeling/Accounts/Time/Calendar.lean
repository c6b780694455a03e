/-!
# The calendar

Dates of the proleptic Gregorian calendar and the number of days since 1970-01-01. Years are
counted from March within cycles of 400 years, so that the leap day comes last. Every day has a
date of the calendar (`isValid_ofDayNumber`), and counting its days gives the day back
(`dayNumber_ofDayNumber`).
-/
namespace Accounts

structure Date where
  year : Int
  month : Nat
  day : Nat
  deriving DecidableEq, Repr

namespace Date

def isLeap (year : Int) : Bool :=
  year % 4 == 0 && (year % 100 != 0 || year % 400 == 0)

def daysIn (year : Int) (month : Nat) : Nat :=
  if month = 2 then (if isLeap year then 29 else 28)
  else if month = 4 ∨ month = 6 ∨ month = 9 ∨ month = 11 then 30
  else 31

def IsValid (d : Date) : Prop :=
  1 ≤ d.month ∧ d.month ≤ 12 ∧ 1 ≤ d.day ∧ d.day ≤ daysIn d.year d.month

instance (d : Date) : Decidable d.IsValid := by
  unfold IsValid
  infer_instance

def daysPerCycle : Int := 146097

/-- Days from 0000-03-01 to 1970-01-01. -/
def daysToEpoch : Int := 719468

/-- The days of the years of a cycle before year `y` of it. -/
def daysBeforeYear (y : Int) : Int := 365 * y + y / 4 - y / 100

/-- The days of a year before its month `m`, counted from March. -/
def daysBeforeMonth (m : Int) : Int := (153 * m + 2) / 5

def dayNumber (d : Date) : Int :=
  let m : Int := if 2 < d.month then d.month - 3 else d.month + 9
  let y : Int := if 2 < d.month then d.year else d.year - 1
  y / 400 * daysPerCycle + daysBeforeYear (y % 400) + daysBeforeMonth m + d.day - 1 - daysToEpoch

/-- The year of a cycle that its day `n` lies in: centuries first, then spans of four years. The
last century and the last year of a span may be a day longer. -/
def yearOfDay (n : Int) : Int :=
  let c := min 3 (n / 36524)
  let q := (n - 36524 * c) / 1461
  let y := min 3 ((n - 36524 * c - 1461 * q) / 365)
  100 * c + 4 * q + y

/-- The date on day `u`, counted from March, of a year that began in `year`. -/
def ofYearDay (year u : Int) : Date :=
  let m := (5 * u + 2) / 153
  let day := (u - daysBeforeMonth m + 1).toNat
  if m < 10 then ⟨year, (m + 3).toNat, day⟩ else ⟨year + 1, (m - 9).toNat, day⟩

def ofDayNumber (n : Int) : Date :=
  let z := n + daysToEpoch
  let ofCycle := z % daysPerCycle
  let y := yearOfDay ofCycle
  ofYearDay (z / daysPerCycle * 400 + y) (ofCycle - daysBeforeYear y)

theorem yearOfDay_spec {n : Int} (h₀ : 0 ≤ n) (h₁ : n < 146097) :
    0 ≤ yearOfDay n ∧ yearOfDay n < 400 ∧ 0 ≤ n - daysBeforeYear (yearOfDay n) ∧
      n - daysBeforeYear (yearOfDay n) < 366 := by
  unfold daysBeforeYear yearOfDay
  simp only
  have hc : 0 ≤ min 3 (n / 36524) ∧ min 3 (n / 36524) ≤ 3 := by omega
  have hr : 0 ≤ n - 36524 * min 3 (n / 36524) ∧ n - 36524 * min 3 (n / 36524) ≤ 36524 := by omega
  generalize min 3 (n / 36524) = c at *
  generalize hr' : n - 36524 * c = r at *
  have hq : 0 ≤ r / 1461 ∧ r / 1461 ≤ 24 := by omega
  have hs : 0 ≤ r - 1461 * (r / 1461) ∧ r - 1461 * (r / 1461) ≤ 1460 := by omega
  generalize r / 1461 = q at *
  generalize hs' : r - 1461 * q = s at *
  have hy : 0 ≤ min 3 (s / 365) ∧ min 3 (s / 365) ≤ 3 := by omega
  have ht : 0 ≤ s - 365 * min 3 (s / 365) ∧ s - 365 * min 3 (s / 365) < 366 := by omega
  generalize min 3 (s / 365) = y at *
  have h4 : (100 * c + 4 * q + y) / 4 = 25 * c + q := by omega
  have h100 : (100 * c + 4 * q + y) / 100 = c := by omega
  rw [h4, h100]
  omega

theorem dayNumber_ofYearDay {year u : Int} (h₀ : 0 ≤ u) (h₁ : u < 366) :
    (ofYearDay year u).dayNumber =
      year / 400 * daysPerCycle + daysBeforeYear (year % 400) + u - daysToEpoch := by
  unfold ofYearDay dayNumber daysBeforeMonth
  simp only
  by_cases hm : (5 * u + 2) / 153 < 10
  · have h : 2 < ((5 * u + 2) / 153 + 3).toNat := by omega
    simp only [hm, h, if_true]
    omega
  · have h : ¬ 2 < ((5 * u + 2) / 153 - 9).toNat := by omega
    simp only [hm, h, if_false, show year + 1 - 1 = year by omega]
    omega

theorem dayNumber_ofDayNumber (n : Int) : (ofDayNumber n).dayNumber = n := by
  have hz := Int.emod_nonneg (n + daysToEpoch) (show daysPerCycle ≠ 0 by decide)
  have hz' := Int.emod_lt_of_pos (n + daysToEpoch) (show 0 < daysPerCycle by decide)
  have hd := Int.emod_add_mul_ediv (n + daysToEpoch) daysPerCycle
  obtain ⟨hy, hy', hu, hu'⟩ := yearOfDay_spec hz hz'
  rw [ofDayNumber, dayNumber_ofYearDay hu hu']
  generalize (n + daysToEpoch) % daysPerCycle = z at *
  generalize (n + daysToEpoch) / daysPerCycle = c at *
  generalize yearOfDay z = y at *
  rw [show (c * 400 + y) / 400 = c by omega, show (c * 400 + y) % 400 = y by omega]
  simp only [daysPerCycle, daysToEpoch] at *
  omega

theorem leap_of_last_day {n : Int} (h₀ : 0 ≤ n) (h₁ : n < 146097)
    (h : n - daysBeforeYear (yearOfDay n) = 365) : isLeap (yearOfDay n + 1) = true := by
  unfold daysBeforeYear at h
  unfold yearOfDay at *
  simp only at *
  have hc : 0 ≤ min 3 (n / 36524) ∧ min 3 (n / 36524) ≤ 3 := by omega
  have hr : 0 ≤ n - 36524 * min 3 (n / 36524) ∧ n - 36524 * min 3 (n / 36524) ≤ 36524 := by omega
  have hr₀ : min 3 (n / 36524) < 3 → n - 36524 * min 3 (n / 36524) ≤ 36523 := by omega
  generalize min 3 (n / 36524) = c at *
  generalize hr' : n - 36524 * c = r at *
  have hq : 0 ≤ r / 1461 ∧ r / 1461 ≤ 24 := by omega
  have hs : 0 ≤ r - 1461 * (r / 1461) ∧ r - 1461 * (r / 1461) ≤ 1460 := by omega
  generalize r / 1461 = q at *
  generalize hs' : r - 1461 * q = s at *
  have hy : 0 ≤ min 3 (s / 365) ∧ min 3 (s / 365) ≤ 3 := by omega
  have ht : min 3 (s / 365) < 3 → s - 365 * min 3 (s / 365) < 365 := by omega
  generalize min 3 (s / 365) = y at *
  have h4 : (100 * c + 4 * q + y) / 4 = 25 * c + q := by omega
  have h100 : (100 * c + 4 * q + y) / 100 = c := by omega
  rw [h4, h100] at h
  simp only [isLeap, Bool.and_eq_true, Bool.or_eq_true, beq_iff_eq, bne_iff_ne, ne_eq]
  omega

theorem isValid_ofYearDay {year u : Int} (h₀ : 0 ≤ u) (h₁ : u < 366)
    (h : u = 365 → isLeap (year + 1) = true) : (ofYearDay year u).IsValid := by
  have hm : 0 ≤ (5 * u + 2) / 153 ∧ (5 * u + 2) / 153 < 12 := by omega
  unfold ofYearDay IsValid daysIn daysBeforeMonth
  simp only
  generalize hv : (5 * u + 2) / 153 = m at *
  by_cases hm' : m < 10
  · simp only [hm', if_true]
    rw [if_neg (show ¬ (m + 3).toNat = 2 by omega)]
    split <;> omega
  · simp only [hm', if_false]
    split
    · split
      · omega
      · next hl =>
        have : u ≠ 365 := fun e => hl (h e)
        omega
    · split <;> omega

theorem isLeap_add_cycles (c y : Int) : isLeap (c * 400 + y) = isLeap y := by
  unfold isLeap
  rw [show (c * 400 + y) % 4 = y % 4 by omega, show (c * 400 + y) % 100 = y % 100 by omega,
    show (c * 400 + y) % 400 = y % 400 by omega]

theorem isValid_ofDayNumber (n : Int) : (ofDayNumber n).IsValid := by
  have hz := Int.emod_nonneg (n + daysToEpoch) (show daysPerCycle ≠ 0 by decide)
  have hz' := Int.emod_lt_of_pos (n + daysToEpoch) (show 0 < daysPerCycle by decide)
  obtain ⟨_, _, hu, hu'⟩ := yearOfDay_spec hz hz'
  refine isValid_ofYearDay hu hu' fun h => ?_
  rw [Int.add_assoc, isLeap_add_cycles]
  exact leap_of_last_day hz hz' h

end Date

end Accounts
