import Accounts.Text.Decimal

/-!
# Instants and durations

Points of universal time to the nanosecond. The last second of a minute may be followed by a leap
second, which is counted as nanoseconds beyond that second. Durations are whole nanoseconds of
either sign. Without leap seconds an instant is its count of nanoseconds: `since` is the difference
of two counts and `advance` adds to one (`since_ofCount`, `advance_ofCount`).
-/
namespace Accounts

structure Duration where
  nanoseconds : Int
  deriving DecidableEq, Repr

namespace Duration

def perSecond : Int := 1000000000

def ofSeconds (n : Int) : Duration := ⟨n * perSecond⟩

def ofMilliseconds (n : Int) : Duration := ⟨n * 1000000⟩

/-- Whole seconds, a point, and nine digits of nanoseconds that carry the sign again. -/
def toText (d : Duration) : List Char :=
  Text.intDigits (d.nanoseconds.tdiv perSecond) ++
    '.' :: Text.paddedInt 9 (d.nanoseconds.tmod perSecond)

end Duration

/-- `second` counts from 1970-01-01; a leap second has `nano` from `10 ^ 9` on. -/
structure Instant where
  second : Int
  nano : Nat
  nano_lt : nano < 1000000000 ∨ second % 60 = 59 ∧ nano < 2000000000
  deriving DecidableEq, Repr

namespace Instant

def secondsPerDay : Int := 86400

def IsLeap (t : Instant) : Prop := 1000000000 ≤ t.nano

instance (t : Instant) : Decidable t.IsLeap := Nat.decLe ..

/-- The nanoseconds since 1970-01-01, leap seconds before that second left out. -/
def count (t : Instant) : Int := t.second * 1000000000 + t.nano

def ofCount (n : Int) : Instant :=
  ⟨n / 1000000000, (n % 1000000000).toNat, by omega⟩

/-- The time from `b` to `a`. A leap second counts if one of the two lies in it and the other is
at another time of the day, on the far side of it. -/
def since (a b : Instant) : Duration :=
  let clock (t : Instant) := t.second % secondsPerDay
  let leap : Int :=
    if clock b < clock a ∧ b.IsLeap then Duration.perSecond
    else if clock a < clock b ∧ a.IsLeap then -Duration.perSecond
    else 0
  ⟨a.count - b.count + leap⟩

/-- Later by `d`, or earlier if `d` is negative. Within a leap second one stays in it; leaving it
forwards goes on from its end, which is the start of the next second. -/
def advance (t : Instant) (d : Duration) : Instant :=
  let n := (t.nano : Int) + d.nanoseconds
  if h : t.IsLeap then
    if h₁ : 2000000000 ≤ n then ofCount (t.count + d.nanoseconds - Duration.perSecond)
    else if h₂ : d.nanoseconds ≤ -Duration.perSecond then ofCount (t.count + d.nanoseconds)
    else
      ⟨t.second, n.toNat, by
        have := t.nano_lt
        unfold IsLeap Duration.perSecond at *
        omega⟩
  else ofCount (t.count + d.nanoseconds)

theorem not_isLeap_ofCount (n : Int) : ¬ (ofCount n).IsLeap := by
  unfold IsLeap ofCount
  simp only
  omega

theorem count_ofCount (n : Int) : (ofCount n).count = n := by
  unfold count ofCount
  simp only
  omega

theorem since_ofCount (a b : Int) : (ofCount a).since (ofCount b) = ⟨a - b⟩ := by
  simp [since, not_isLeap_ofCount, count_ofCount]

theorem advance_ofCount (n : Int) (d : Duration) :
    (ofCount n).advance d = ofCount (n + d.nanoseconds) := by
  simp [advance, not_isLeap_ofCount, count_ofCount]

end Instant

end Accounts
