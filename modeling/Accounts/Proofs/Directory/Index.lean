import Accounts.Backend.Tables
import Accounts.User.Encoding

/-!
# Users and indexes in the tables

What the tables of a backend say about users: which user a record holds, which values it has, and
whether the indexes lead from each value back to it. Entries beyond those are leftovers; they may
be there (`Indexed`) or not (`Exact`). Where its values lead to each user, a value has at most one
(`Owned.unique`). Where some records are no users, the others may still be coherent (`Coherent`).
-/
namespace Accounts.Backend

/-- Whether an entry stands under one of these values. -/
def Among (values : List (UniqueField × String)) (index key : String) : Prop :=
  ∃ v ∈ values, v.1.index = index ∧ v.2 = key

instance (values : List (UniqueField × String)) (index key : String) :
    Decidable (Among values index key) :=
  inferInstanceAs (Decidable (∃ v ∈ values, v.1.index = index ∧ v.2 = key))

theorem not_among_nil (index key : String) : ¬ Among [] index key := by
  simp [Among]

theorem among_cons {v : UniqueField × String} {values : List (UniqueField × String)}
    {index key : String} :
    Among (v :: values) index key ↔ v.1.index = index ∧ v.2 = key ∨ Among values index key := by
  simp [Among]

theorem among_singleton {v : UniqueField × String} {index key : String} :
    Among [v] index key ↔ index = v.1.index ∧ key = v.2 := by
  simp [Among, eq_comm]

theorem among_index {values : List (UniqueField × String)} {f : UniqueField} {key : String} :
    Among values f.index key ↔ (f, key) ∈ values := by
  constructor
  · rintro ⟨⟨g, k⟩, hm, hi, rfl⟩
    rwa [← UniqueField.index_injective hi]
  · intro h
    exact ⟨(f, key), h, rfl, rfl⟩

theorem among_uniqueValues {u : User} {f : UniqueField} {key : String} :
    Among u.uniqueValues f.index key ↔ u.unique? f = some key := by
  rw [among_index, User.mem_uniqueValues]

attribute [ext] Tables

namespace Tables

variable {t : Tables}

def user? (t : Tables) (id : String) : Option User := (t.record id).bind User.decode?

/-- The record of `id` is a user with this value. -/
def Carries (t : Tables) (id : String) (f : UniqueField) (key : String) : Prop :=
  ∃ u, t.user? id = some u ∧ u.unique? f = some key

instance (t : Tables) (id : String) (f : UniqueField) (key : String) :
    Decidable (t.Carries id f key) :=
  decidable_of_iff ((t.user? id).any fun u => u.unique? f == some key) (by
    unfold Carries
    cases t.user? id <;> simp)

/-- Each stored user is under its own id. -/
structure Named (t : Tables) : Prop where
  id_eq : ∀ {id : String} {u : User}, t.user? id = some u → u.id = id

/-- Each value of a stored user leads to it. -/
structure Owned (t : Tables) : Prop where
  owned : ∀ {id : String} {f : UniqueField} {key : String}, t.Carries id f key →
    t.entry f.index key = some id

/-- Each record is a user, and each value of a stored user leads to its record. -/
structure Readable (t : Tables) : Prop extends Owned t where
  decodes : ∀ {id text : String}, t.record id = some text → ∃ u, User.decode? text = some u

/-- Each stored user is under its own id and each of its values leads to it. Some records may be no
users. -/
structure Coherent (t : Tables) : Prop extends Named t, Owned t

/-- Each record is a user under its own id, and each value of a stored user leads to it. -/
structure Indexed (t : Tables) : Prop extends Coherent t, Readable t

/-- The indexes are the inverse of the stored users: there is no other entry. -/
structure Exact (t : Tables) : Prop extends Indexed t where
  carried : ∀ {index key owner : String}, t.entry index key = some owner →
    ∃ f : UniqueField, index = f.index ∧ t.Carries owner f key

theorem exact_empty : Exact empty where
  id_eq h := by cases h
  decodes h := by cases h
  owned h := by
    obtain ⟨u, hu, -⟩ := h
    cases hu
  carried h := by cases h

theorem Owned.unique (h : t.Owned) {a b : String} {f : UniqueField} {key : String}
    (ha : t.Carries a f key) (hb : t.Carries b f key) : a = b := by
  have := (h.owned ha).symm.trans (h.owned hb)
  exact Option.some.inj this

/-- Where every record decodes, `user?` tells all that decoding the records tells. -/
theorem Readable.map_decode? (h : t.Readable) (id : String) :
    (t.record id).map User.decode? = (t.user? id).map some := by
  cases hr : t.record id with
  | none => simp [user?, hr]
  | some text =>
    obtain ⟨u, hd⟩ := h.decodes hr
    simp [user?, hr, hd]

/-! ### Changes of the tables -/

@[simp] theorem entry_withRecord (id : String) (value : Option String) :
    (t.withRecord id value).entry = t.entry := rfl

theorem entry_withEntry (index key : String) (owner : Option String) (i k : String) :
    (t.withEntry index key owner).entry i k =
      if i = index ∧ k = key then owner else t.entry i k := rfl

theorem record_withRecord (id : String) (value : Option String) (i : String) :
    (t.withRecord id value).record i = if i = id then value else t.record i := rfl

theorem user?_withRecord (id : String) (value : Option String) (i : String) :
    (t.withRecord id value).user? i =
      if i = id then value.bind User.decode? else t.user? i := by
  unfold user?
  rw [record_withRecord]
  split <;> rfl

theorem user?_congr {t' : Tables} (h : t'.record = t.record) : t'.user? = t.user? := by
  funext id
  unfold user?
  rw [h]

/-- Only the records decide who carries what. -/
theorem carries_congr {t' : Tables} (h : t'.record = t.record) {id : String} {f : UniqueField}
    {key : String} : t'.Carries id f key ↔ t.Carries id f key := by
  unfold Carries
  rw [user?_congr h]

/-- Changing entries that no stored user needs keeps the tables indexed. -/
theorem Indexed.of_entries {t' : Tables} (h : t.Indexed) (hr : t'.record = t.record)
    (he : ∀ {id : String} {f : UniqueField} {key : String}, t.Carries id f key →
      t'.entry f.index key = t.entry f.index key) : t'.Indexed where
  id_eq hu := h.id_eq (user?_congr hr ▸ hu)
  decodes hx := h.decodes (hr ▸ hx)
  owned hc := by
    have hc := (carries_congr hr).1 hc
    rw [he hc, h.owned hc]

/-! ### Owners that lack a value -/

/-- There is no record of the owner, or it is a user without the value. -/
def Lacks (t : Tables) (owner : String) (f : UniqueField) (key : String) : Prop :=
  t.record owner = none ∨ ∃ u, t.user? owner = some u ∧ u.unique? f ≠ some key

/-- There is a record of this id, which is no user. -/
def Unreadable (t : Tables) (id : String) : Prop :=
  ∃ text, t.record id = some text ∧ User.decode? text = none

variable {id owner : String} {f : UniqueField} {key : String}

theorem Lacks.congr {t' : Tables} (hrecord : t'.record = t.record) (h : t'.Lacks owner f key) :
    t.Lacks owner f key := by
  unfold Lacks at h
  rwa [hrecord, user?_congr hrecord] at h

theorem Lacks.not_carries (h : t.Lacks owner f key) : ¬ t.Carries owner f key := by
  rintro ⟨u, hu, hk⟩
  rcases h with hnone | ⟨v, hv, hne⟩
  · unfold user? at hu
    rw [hnone] at hu
    cases hu
  · rw [hu] at hv
    cases hv
    exact hne hk

/-- Whether the record of somebody who has a record that is a user has the value is known. -/
theorem lacks_of_not_carries (hread : ¬ t.Unreadable owner) (hc : ¬ t.Carries owner f key) :
    t.Lacks owner f key := by
  cases hr : t.record owner with
  | none => exact Or.inl hr
  | some text =>
    cases hd : User.decode? text with
    | none => exact absurd ⟨text, hr, hd⟩ hread
    | some u =>
      have hu : t.user? owner = some u := by simp [user?, hr, hd]
      exact Or.inr ⟨u, hu, fun hk => hc ⟨u, hu, hk⟩⟩

theorem Unreadable.user?_eq_none (h : t.Unreadable id) : t.user? id = none := by
  obtain ⟨text, hrecord, hnone⟩ := h
  simp [user?, hrecord, hnone]

theorem Readable.not_unreadable (h : t.Readable) (id : String) : ¬ t.Unreadable id := by
  rintro ⟨text, htext, hnone⟩
  obtain ⟨u, hd⟩ := h.decodes htext
  rw [hnone] at hd
  cases hd

/-- A record that is no user is not known to lack the value. -/
theorem Unreadable.not_lacks (h : t.Unreadable owner) : ¬ t.Lacks owner f key := by
  rintro (hnone | ⟨u, hu, -⟩)
  · obtain ⟨text, hrecord, -⟩ := h
    rw [hnone] at hrecord
    cases hrecord
  · rw [h.user?_eq_none] at hu
    cases hu

end Tables

end Accounts.Backend
