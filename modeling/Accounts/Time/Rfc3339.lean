import Accounts.Text.Blank
import Accounts.Time.Calendar
import Accounts.Time.Instant

/-!
# Instants as text

The written form is `2024-01-31T09:30:05Z`, with three, six or nine digits of a fraction where
they are needed. The reader takes what RFC 3339 calls a date-time in any offset and is generous
with it: blanks between the parts, fewer digits, signed years, `UTC` for an offset.
-/
namespace Accounts.Instant

open Accounts.Text

/-- Four digits, and outside of 0 to 9999 a sign in front. -/
def writeYear (y : Int) : List Char :=
  if 0 ≤ y ∧ y ≤ 9999 then padded 4 y.toNat
  else (if y < 0 then '-' else '+') :: padded 4 y.natAbs

/-- No digits, or the fewest of three, six and nine that are exact. -/
def writeFraction (nano : Nat) : List Char :=
  if nano = 0 then []
  else if nano % 1000000 = 0 then '.' :: padded 3 (nano / 1000000)
  else if nano % 1000 = 0 then '.' :: padded 6 (nano / 1000)
  else '.' :: padded 9 nano

def writeDate (d : Date) : List Char :=
  writeYear d.year ++ '-' :: (padded 2 d.month ++ '-' :: padded 2 d.day)

/-- A second of the day and the nanoseconds after it; a leap second is written as second 60. -/
def writeClock (clock nano : Nat) : List Char :=
  padded 2 (clock / 3600) ++ ':' :: (padded 2 (clock / 60 % 60) ++
    ':' :: (padded 2 (clock % 60 + nano / 1000000000) ++ writeFraction (nano % 1000000000)))

def write (t : Instant) : List Char :=
  writeDate (Date.ofDayNumber (t.second / secondsPerDay)) ++
    'T' :: (writeClock (t.second % secondsPerDay).toNat t.nano ++ ['Z'])

/-- At least one and at most `width` digits. -/
def number? (width : Nat) (s : List Char) : Option (Nat × List Char) :=
  let ds := (s.take width).takeWhile isDigit
  if ds.isEmpty then none else some (ofDigits ds, s.drop ds.length)

def skip? (c : Char) : List Char → Option (List Char)
  | [] => none
  | d :: s => if d = c then some s else none

/-- Up to four digits, or a sign and any number of them. -/
def year? : List Char → Option (Int × List Char)
  | '+' :: s => (number? s.length s).map fun (n, s) => (n, s)
  | '-' :: s => (number? s.length s).map fun (n, s) => (-n, s)
  | s => (number? 4 s).map fun (n, s) => (n, s)

def date? (s : List Char) : Option (Date × List Char) := do
  let (year, s) ← year? (trimStart s)
  let s ← skip? '-' (trimStart s)
  let (month, s) ← number? 2 (trimStart s)
  let s ← skip? '-' (trimStart s)
  let (day, s) ← number? 2 (trimStart s)
  pure (⟨year, month, day⟩, s)

/-- The nanoseconds of a fraction; digits after the ninth are dropped. -/
def fraction? : List Char → Option (Nat × List Char)
  | '.' :: s => do
    let (n, rest) ← number? 9 s
    let width := s.length - rest.length
    pure (n * Nat.pow 10 (9 - width), rest.dropWhile isDigit)
  | s => some (0, s)

/-- The second of the day and the nanoseconds after it; second 60 is a leap second. -/
def clock? (s : List Char) : Option ((Nat × Nat) × List Char) := do
  let (hour, s) ← number? 2 (trimStart s)
  let s ← skip? ':' (trimStart s)
  let (minute, s) ← number? 2 (trimStart s)
  let s ← skip? ':' (trimStart s)
  let (second, s) ← number? 2 (trimStart s)
  let (nano, s) ← fraction? s
  let start := hour * 3600 + minute * 60
  if 23 < hour ∨ 59 < minute ∨ 60 < second then none
  else if second = 60 then some ((start + 59, 1000000000 + nano), s)
  else some ((start + second, nano), s)

def twoDigits? : List Char → Option (Nat × List Char)
  | a :: b :: s => if isDigit a && isDigit b then some (ofDigits [a, b], s) else none
  | _ => none

def isMinus (c : Char) : Bool := c == '-' || c == '\u2212'

/-- Seconds east of universal time. -/
def offset? (s : List Char) : Option (Int × List Char) :=
  match s with
  | [] => none
  | c :: s' =>
    if (s.take 3).map lowerAscii = ['u', 't', 'c'] then some (0, s.drop 3)
    else if c = 'Z' ∨ c = 'z' then some (0, s')
    else if c = '+' ∨ isMinus c then do
      let (hours, s) ← twoDigits? s'
      let (minutes, s) ← twoDigits? (s.dropWhile fun c => c == ':' || isBlank c)
      let seconds : Int := hours * 3600 + minutes * 60
      if 23 < hours ∨ 59 < minutes then none
      else some (if isMinus c then -seconds else seconds, s)
    else none

/-- The years that have dates. -/
def inCalendar (year : Int) : Bool := -262143 ≤ year && year ≤ 262142

/-- An instant from parts of which the nanoseconds may lie in a leap second. -/
def ofParts? (second : Int) (nano : Nat) : Option Instant :=
  if h : nano < 1000000000 ∨ second % 60 = 59 ∧ nano < 2000000000 then
    some ⟨second, nano, h⟩
  else none

/-- The instant of a date and a time of the day, so many seconds east of universal time. -/
def ofLocal? (date : Date) (clock nano : Nat) (offset : Int) : Option Instant :=
  let second := date.dayNumber * secondsPerDay + clock - offset
  if date.IsValid ∧ inCalendar date.year ∧
      inCalendar (Date.ofDayNumber (second / secondsPerDay)).year then
    ofParts? second nano
  else none

/-- Takes the character between the date and the time. -/
def skipSeparator? : List Char → Option (List Char)
  | 'T' :: s | 't' :: s | ' ' :: s => some s
  | _ => none

def read? (s : List Char) : Option Instant := do
  let (date, s) ← date? s
  let s ← skipSeparator? s
  let ((clock, nano), s) ← clock? s
  let (offset, s) ← offset? (trimStart s)
  if (trimStart s).isEmpty then ofLocal? date clock nano offset else none

end Accounts.Instant
