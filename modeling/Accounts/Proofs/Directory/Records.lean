import Accounts.Proofs.Directory.SoleWrite
import Accounts.Proofs.User.RoundTrip

/-!
# What a record keeps through saves

A save writes the text of its user, which gives the user back (`user?_runAlone_save`). A record
that another program wrote may order its members, escape its strings and give its time of issue in
any way that is read; a save of the user read from it settles the text, and later ones leave it
(`reencode?_encode`).
-/
namespace Accounts

/-- The year of the day of the instant. -/
def Instant.year (t : Instant) : Int := (Date.ofDayNumber (t.second / Instant.secondsPerDay)).year

theorem Instant.isDated_of_year {t : Instant} (hfirst : 0 ≤ t.year) (hlast : t.year ≤ 9999) :
    t.IsDated := by
  have hlow : -262143 ≤ t.year := by omega
  have hhigh : t.year ≤ 262142 := by omega
  have hyear : Instant.inCalendar t.year = true := by
    simp [Instant.inCalendar, hlow, hhigh]
  exact hyear

namespace User

/-- The text that a save of the user read from a record replaces the record with. -/
def reencode? (text : String) : Option String := (decode? text).map encode

theorem reencode?_encode {u : User} (hu : u.IsDated) : reencode? u.encode = some u.encode := by
  have hread : decode? u.encode = some u := decode?_encode hu
  simp [reencode?, hread]

end User

namespace Directory

open Backend

/-- A save alone that succeeds leaves a record from which its user is read. -/
theorem user?_runAlone_save {u : User} (hu : u.IsDated) {t : Tables}
    (hsaved : (runAlone (save u) t).1 = .ok ()) :
    (runAlone (save u) t).2.user? u.id = some u := by
  have hread : User.decode? u.encode = some u := User.decode?_encode hu
  rcases record_runAlone_save u t with ⟨-, hrecord⟩ | ⟨e, hfailed, -⟩
  · rw [Tables.user?_congr hrecord, Tables.user?_withRecord, if_pos rfl]
    simpa using hread
  · rw [hfailed] at hsaved
    cases hsaved

/-- The text of a record loses nothing: a user with a time of issue in the years 0 to 9999 is read
back from what a save writes, and the user read from any text at all from its own text, which is
then the text that every further save writes. -/
theorem record_lossless :
    (∀ u : User, (∀ i, u.resetTokenIssued = some i → 0 ≤ i.year ∧ i.year ≤ 9999) →
      User.decode? u.encode = some u ∧
        ∀ t, (runAlone (save u) t).1 = .ok () → (runAlone (save u) t).2.user? u.id = some u) ∧
    ∀ (text : String) (u : User), User.decode? text = some u →
      User.decode? u.encode = some u ∧ User.reencode? text = some u.encode ∧
        User.reencode? u.encode = some u.encode := by
  constructor
  · intro u hyears
    have hu : u.IsDated := fun i hi =>
      Instant.isDated_of_year (hyears i hi).1 (hyears i hi).2
    exact ⟨User.decode?_encode hu, fun t hsaved => user?_runAlone_save hu hsaved⟩
  · intro text u hread
    have hu : u.IsDated := User.isDated_of_decode? hread
    have hfirst : User.reencode? text = some u.encode := by
      simp [User.reencode?, hread]
    exact ⟨User.decode?_encode hu, hfirst, User.reencode?_encode hu⟩

/-- The last nanosecond of a leap second, in the year 9999. -/
def lastLeap : Instant := ⟨253402300799, 1999999999, Or.inr (by decide)⟩

/-- Quotes, backslashes, control characters and characters beyond the basic plane in every text. -/
def quotable : User where
  id := "\"\\\x00"
  profileName := "\n\t\x7f\u2028😀"
  loginName := "é\\u0041"
  passwordHash := "\x1f/"
  email := "\"@\\"
  emailVerified := true
  resetToken := some "\r\"😀"
  resetTokenIssued := some lastLeap

/-- Members out of order and of no field, blanks, escapes, a time east of Greenwich, and neither
flag nor token. -/
def foreignText : String :=
  " \x7b\"email\" : \"\\u0061\\/\", \"extra\":[1,\x7b\x7d], \"login_name\":\"\\ud83d\\ude00\"," ++
    "\"profile_name\":\"\",\"id\":\"u\",\t\"login_password_hash\":\"h\"," ++
    "\"reset_password_token_issued\":\"2024-01-01t01:30:00.5000+01:30\" \x7d \n"

/-- The user of `foreignText`. -/
def foreign : User where
  id := "u"
  profileName := ""
  loginName := "😀"
  passwordHash := "h"
  email := "a/"
  emailVerified := false
  resetToken := none
  resetTokenIssued := some ⟨1704067200, 500000000, Or.inl (by decide)⟩

theorem record_lossless_quotable :
    lastLeap.year = 9999 ∧ (runAlone (save quotable) Tables.empty).1 = .ok () ∧
      (runAlone (save quotable) Tables.empty).2.user? quotable.id = some quotable ∧
      User.decode? foreignText = some foreign ∧
      User.reencode? foreign.encode = some foreign.encode := by
  have hyear : lastLeap.year = 9999 := by decide +kernel
  have hsaved : (runAlone (save quotable) Tables.empty).1 = .ok () := by decide +kernel
  have hforeign : User.decode? foreignText = some foreign := by decide +kernel
  have hread := (record_lossless.1 quotable fun i hi => by cases hi; omega).2 _ hsaved
  have hsettled := (record_lossless.2 foreignText foreign hforeign).2.2
  exact ⟨hyear, hsaved, hread, hforeign, hsettled⟩

end Directory

end Accounts
