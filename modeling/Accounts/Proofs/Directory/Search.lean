import Accounts.Proofs.Directory.RefusedSave

/-!
# What searches answer

On any tables a search by a value finds the user of the entry, or nothing, or comes upon a record
that is no user (`runAlone_findOwner_answer`). On coherent tables a search finds the one stored user
that it is for; where there is none it fails, and its failure tells whether the record that it is
led to is a user at all (`runAlone_find_answer`).
-/
namespace Accounts

/-- What a search asks for. -/
def SearchField.value : SearchField → String
  | .id v => v
  | .loginName v => v
  | .email v => v
  | .resetToken v => v

namespace Directory

open Backend Program

variable {t : Tables} {f : UniqueField} {key : String} {field : SearchField} {u v : User}

/-- The user is stored and is what the search is for. -/
def Resolves (t : Tables) (field : SearchField) (u : User) : Prop :=
  t.user? u.id = some u ∧ Selects field u

/-- The id of the record that a search is led to. -/
def reads? (t : Tables) : SearchField → Option String
  | .id v => some v
  | .loginName key => t.entry UniqueField.loginName.index key
  | .email key => t.entry UniqueField.email.index key
  | .resetToken key => t.entry UniqueField.resetToken.index key

/-- The record that the search is led to is no user. -/
def LedAstray (t : Tables) (field : SearchField) : Prop :=
  ∃ id, reads? t field = some id ∧ t.Unreadable id

/-- What a search for something answers. -/
inductive FindAnswer (t : Tables) (field : SearchField) : Except DirectoryError User → Prop
  | found {u : User} (h : Resolves t field u) : FindAnswer t field (.ok u)
  | nobody (hnone : ∀ u, ¬ Resolves t field u) (hsound : ¬ LedAstray t field) :
    FindAnswer t field (.error .notFound)
  | astray (h : LedAstray t field) : FindAnswer t field (.error (.corrupt "not a user"))

/-- On coherent tables the entry of a value that a user has names the user. -/
theorem FindAnswer.of_owner (ht : t.Coherent) {r : Except DirectoryError User}
    (hreads : reads? t field = t.entry f.index key)
    (hselects : ∀ u, Selects field u ↔ u.unique? f = some key) (h : OwnerAnswer t f key r) :
    FindAnswer t field r := by
  cases h with
  | @found id u howner hu hkey =>
    refine .found ⟨?_, (hselects u).2 hkey⟩
    rwa [ht.id_eq hu]
  | nobody hlacks =>
    refine .nobody ?_ ?_
    · rintro u ⟨hu, hselected⟩
      have hcarries : t.Carries u.id f key := ⟨u, hu, (hselects u).1 hselected⟩
      exact (hlacks u.id (ht.owned hcarries)).not_carries hcarries
    · rintro ⟨id, hid, hunreadable⟩
      exact hunreadable.not_lacks (hlacks id (hreads.symm.trans hid))
  | unreadable howner hunreadable => exact .astray ⟨_, hreads.trans howner, hunreadable⟩

theorem runAlone_get_answer (ht : t.Coherent) {id : String} (hid : id ≠ "") :
    ∃ r, runAlone (get id) t = (r, t) ∧ FindAnswer t (.id id) r := by
  obtain ⟨r, hload, hr⟩ := runAlone_load_answer t id
  unfold get
  rw [if_neg hid]
  simp only
  rw [runAlone_bind, hload]
  cases hr with
  | absent h =>
    refine ⟨_, rfl, .nobody ?_ ?_⟩
    · rintro u ⟨hu, -, rfl⟩
      simp [Tables.user?, h] at hu
    · rintro ⟨id', ⟨⟩, text, htext, -⟩
      rw [h] at htext
      cases htext
  | unreadable h => exact ⟨_, rfl, .astray ⟨id, rfl, h⟩⟩
  | @found u hu =>
    obtain rfl : u.id = id := ht.id_eq hu
    exact ⟨_, rfl, .found ⟨hu, hid, rfl⟩⟩

theorem runAlone_find_answer (ht : t.Coherent) (hvalue : field.value ≠ "") :
    ∃ r, runAlone (find field) t = (r, t) ∧ FindAnswer t field r := by
  have howner (f : UniqueField) (key : String) (hreads : reads? t field = t.entry f.index key)
      (hselects : ∀ u, Selects field u ↔ u.unique? f = some key) :
      ∃ r, runAlone (findOwner f key) t = (r, t) ∧ FindAnswer t field r := by
    obtain ⟨r, hrun, hr⟩ := runAlone_findOwner_answer t f key
    exact ⟨r, hrun, .of_owner ht hreads hselects hr⟩
  cases field with
  | id id => exact runAlone_get_answer ht hvalue
  | loginName key => exact howner .loginName key rfl fun _ => Iff.rfl
  | email key => exact howner .email key rfl fun _ => Iff.rfl
  | resetToken key => exact howner .resetToken key rfl fun _ => Iff.rfl

/-- A search is for one stored user at most. -/
theorem Resolves.unique (ht : t.Coherent) (hu : Resolves t field u) (hv : Resolves t field v) :
    u = v := by
  have howner {f : UniqueField} {key : String} (hfu : u.unique? f = some key)
      (hfv : v.unique? f = some key) : u.id = v.id := by
    have huid := ht.owned ⟨u, hu.1, hfu⟩
    exact Option.some.inj (huid.symm.trans (ht.owned ⟨v, hv.1, hfv⟩))
  have hid : u.id = v.id := by
    cases field with
    | id id => exact hu.2.2.trans hv.2.2.symm
    | loginName key => exact howner hu.2 hv.2
    | email key => exact howner hu.2 hv.2
    | resetToken key => exact howner hu.2 hv.2
  have hstored := hv.1
  rw [← hid] at hstored
  exact Option.some.inj (hu.1.symm.trans hstored)

/-- A search that is for a stored user is led to it. -/
theorem Resolves.not_ledAstray (ht : t.Coherent) (h : Resolves t field u) :
    ¬ LedAstray t field := by
  rintro ⟨id, hreads, hunreadable⟩
  have hid : id = u.id := by
    have howned {f : UniqueField} {key : String} (hkey : u.unique? f = some key) :
        t.entry f.index key = some u.id := ht.owned ⟨u, h.1, hkey⟩
    cases field with
    | id id' => exact (Option.some.inj hreads).symm.trans h.2.2.symm
    | loginName key => exact Option.some.inj (hreads.symm.trans (howned h.2))
    | email key => exact Option.some.inj (hreads.symm.trans (howned h.2))
    | resetToken key => exact Option.some.inj (hreads.symm.trans (howned h.2))
  have hnone := hunreadable.user?_eq_none
  rw [hid, h.1] at hnone
  cases hnone

/-- On coherent tables a search finds the user that it is for. -/
theorem runAlone_find_of_resolves (ht : t.Coherent) (h : Resolves t field u)
    (hvalue : field.value ≠ "") : runAlone (find field) t = (.ok u, t) := by
  obtain ⟨r, hrun, hr⟩ := runAlone_find_answer ht hvalue
  cases hr with
  | found hv => rw [hrun, h.unique ht hv]
  | nobody hnone _ => exact absurd h (hnone u)
  | astray hastray => exact absurd hastray (h.not_ledAstray ht)

end Directory

end Accounts
