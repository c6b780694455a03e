import Accounts.Directory.Save
import Accounts.Proofs.Directory.Index

/-!
# A directory alone on its backend

Runs in which no call fails and nobody else makes one. On indexed tables a search finds exactly the
stored user that has the value (`runAlone_findOwner`), so what searches answer depends on the stored
users only (`runAlone_find_congr`).
-/
namespace Accounts.Directory

open Accounts.Backend

variable {α β : Type} {t t' : Tables}

def runAlone (a : Action α) (t : Tables) : Except DirectoryError α × Tables :=
  a.run.run (serve Tables.serve) t

theorem runAlone_pure (v : α) : runAlone (pure v) t = (.ok v, t) := rfl

theorem runAlone_ask (r : Request) :
    runAlone (ask r) t = (.ok (Tables.respond r t).1, (Tables.respond r t).2) := rfl

theorem runAlone_bind (a : Action α) (f : α → Action β) :
    runAlone (a >>= f) t =
      match runAlone a t with
      | (.ok v, t) => runAlone (f v) t
      | (.error e, t) => (.error e, t) := by
  unfold runAlone
  rw [Program.run_bind_except]
  rcases a.run.run (serve Tables.serve) t with ⟨_ | _, _⟩ <;> rfl

theorem runAlone_bind_ok {a : Action α} {v : α} (h : runAlone a t = (.ok v, t'))
    (f : α → Action β) : runAlone (a >>= f) t = runAlone (f v) t' := by
  rw [runAlone_bind, h]

theorem runAlone_bind_error {a : Action α} {e : DirectoryError}
    (h : runAlone a t = (.error e, t')) (f : α → Action β) :
    runAlone (a >>= f) t = (.error e, t') := by
  rw [runAlone_bind, h]

theorem runAlone_attempt (a : Action Unit) :
    runAlone (attempt a) t = (.ok (), (runAlone a t).2) :=
  run_attempt _ a t

theorem runAlone_orElse_ok {a : Action α} {v : α} (h : runAlone a t = (.ok v, t'))
    (cleanup : Action Unit) : runAlone (orElse a cleanup) t = (.ok v, t') := by
  have := run_orElse (serve Tables.serve) a cleanup t
  rw [show a.run.run (serve Tables.serve) t = (.ok v, t') from h] at this
  exact this

theorem runAlone_locked (a : Action α) : runAlone (locked a) t = runAlone a t :=
  run_locked Tables.serve a t

/-! ### Looking users up -/

/-- What looking a record up answers. -/
inductive LoadAnswer (t : Tables) (id : String) : Except DirectoryError (Option User) → Prop
  | absent (h : t.record id = none) : LoadAnswer t id (.ok none)
  | found {u : User} (h : t.user? id = some u) : LoadAnswer t id (.ok (some u))
  | unreadable (h : t.Unreadable id) : LoadAnswer t id (.error (.corrupt "not a user"))

theorem runAlone_load_answer (t : Tables) (id : String) :
    ∃ r, runAlone (load id) t = (r, t) ∧ LoadAnswer t id r := by
  unfold load
  rw [runAlone_bind_ok (runAlone_ask _)]
  simp only [Tables.respond]
  cases hrecord : t.record id with
  | none => exact ⟨_, rfl, .absent hrecord⟩
  | some text =>
    simp only
    cases hd : User.decode? text with
    | none => exact ⟨_, rfl, .unreadable ⟨text, hrecord, hd⟩⟩
    | some u => exact ⟨_, rfl, .found (by simp [Tables.user?, hrecord, hd])⟩

theorem runAlone_load (h : t.Indexed) (id : String) :
    runAlone (load id) t = (.ok (t.user? id), t) := by
  obtain ⟨r, hrun, hr⟩ := runAlone_load_answer t id
  rw [hrun]
  cases hr with
  | absent hnone => simp [Tables.user?, hnone]
  | found hu => rw [hu]
  | unreadable hbad => exact absurd hbad (h.not_unreadable id)

theorem runAlone_get (h : t.Indexed) {id : String} (hid : id ≠ "") :
    runAlone (get id) t = ((t.user? id).elim (.error .notFound) .ok, t) := by
  unfold get
  rw [if_neg hid]
  simp only
  rw [runAlone_bind_ok (runAlone_load h id)]
  cases t.user? id <;> rfl

/-- What looking a record up returns, on any tables. -/
theorem runAlone_load_eq_ok_iff {id : String} {u : User} :
    (runAlone (load id) t).1 = .ok (some u) ↔ t.user? id = some u := by
  obtain ⟨r, hrun, hr⟩ := runAlone_load_answer t id
  rw [hrun]
  cases hr with
  | absent hnone => simp [Tables.user?, hnone]
  | found hu => simp [hu]
  | unreadable hbad => simp [hbad.user?_eq_none]

theorem runAlone_get_of_user? {id : String} {u : User} (hid : id ≠ "") (hu : t.user? id = some u) :
    (runAlone (get id) t).1 = .ok u := by
  have hload := runAlone_load_eq_ok_iff.2 hu
  unfold get
  rw [if_neg hid]
  simp only
  rw [runAlone_bind]
  rcases hr : runAlone (load id) t with ⟨r, t'⟩
  rw [hr] at hload
  subst hload
  rfl

/-- What a search by a value answers. -/
inductive OwnerAnswer (t : Tables) (f : UniqueField) (key : String) :
    Except DirectoryError User → Prop
  | found {id : String} {u : User} (howner : t.entry f.index key = some id)
    (hu : t.user? id = some u) (hkey : u.unique? f = some key) : OwnerAnswer t f key (.ok u)
  | nobody (h : ∀ id, t.entry f.index key = some id → t.Lacks id f key) :
    OwnerAnswer t f key (.error .notFound)
  | unreadable {id : String} (howner : t.entry f.index key = some id) (h : t.Unreadable id) :
    OwnerAnswer t f key (.error (.corrupt "not a user"))

theorem runAlone_findOwner_answer (t : Tables) (f : UniqueField) (key : String) :
    ∃ r, runAlone (findOwner f key) t = (r, t) ∧ OwnerAnswer t f key r := by
  unfold findOwner
  rw [runAlone_bind_ok (runAlone_ask _)]
  simp only [Tables.respond]
  cases howner : t.entry f.index key with
  | none =>
    refine ⟨_, rfl, .nobody fun id hid => ?_⟩
    rw [howner] at hid
    cases hid
  | some owner =>
    have hentry (id : String) (hid : t.entry f.index key = some id) : owner = id :=
      Option.some.inj (howner.symm.trans hid)
    obtain ⟨r, hload, hr⟩ := runAlone_load_answer t owner
    simp only
    rw [runAlone_bind, hload]
    cases hr with
    | absent h => exact ⟨_, rfl, .nobody fun id hid => hentry id hid ▸ Or.inl h⟩
    | unreadable h => exact ⟨_, rfl, .unreadable howner h⟩
    | @found u hu =>
      by_cases hkey : u.unique? f = some key
      · refine ⟨.ok u, ?_, .found howner hu hkey⟩
        simp only [if_pos hkey]
        rfl
      · refine ⟨.error .notFound, ?_, .nobody fun id hid => hentry id hid ▸ Or.inr ⟨u, hu, hkey⟩⟩
        simp only [if_neg hkey]
        rfl

/-- A search by a value, on any tables, finds the user of the entry if its record has the value. -/
theorem runAlone_findOwner_eq_ok_iff_entry {f : UniqueField} {key : String} {u : User} :
    (runAlone (findOwner f key) t).1 = .ok u ↔
      ∃ id, t.entry f.index key = some id ∧ t.user? id = some u ∧ u.unique? f = some key := by
  obtain ⟨r, hrun, hr⟩ := runAlone_findOwner_answer t f key
  rw [hrun]
  constructor
  · rintro rfl
    cases hr with
    | found howner hu hkey => exact ⟨_, howner, hu, hkey⟩
  · rintro ⟨id, howner, hu, hkey⟩
    cases hr with
    | found howner' hu' =>
      rw [howner] at howner'
      cases howner'
      rw [hu] at hu'
      cases hu'
      rfl
    | nobody hlacks => exact absurd ⟨u, hu, hkey⟩ (hlacks id howner).not_carries
    | unreadable howner' hbad =>
      rw [howner] at howner'
      cases howner'
      rw [hbad.user?_eq_none] at hu
      cases hu

/-! ### What looking up leaves -/

theorem runAlone_bind_tables {a : Action α} {f : α → Action β} (ha : (runAlone a t).2 = t)
    (hf : ∀ v, (runAlone (f v) t).2 = t) : (runAlone (a >>= f) t).2 = t := by
  rw [runAlone_bind]
  rcases hr : runAlone a t with ⟨e | v, t'⟩
  all_goals
    rw [hr] at ha
    subst ha
  · rfl
  · exact hf v

theorem runAlone_load_tables (id : String) : (runAlone (load id) t).2 = t := by
  obtain ⟨r, hrun, -⟩ := runAlone_load_answer t id
  rw [hrun]

theorem runAlone_get_tables (id : String) : (runAlone (get id) t).2 = t := by
  unfold get
  by_cases hid : id = ""
  · rw [if_pos hid]
    rfl
  · rw [if_neg hid]
    refine runAlone_bind_tables (runAlone_load_tables id) fun x => ?_
    cases x <;> rfl

theorem runAlone_findOwner_tables (f : UniqueField) (key : String) :
    (runAlone (findOwner f key) t).2 = t := by
  obtain ⟨r, hrun, -⟩ := runAlone_findOwner_answer t f key
  rw [hrun]

/-- Looking users up changes nothing. -/
theorem runAlone_find_tables (field : SearchField) : (runAlone (find field) t).2 = t := by
  cases field with
  | id id => exact runAlone_get_tables id
  | loginName key => exact runAlone_findOwner_tables .loginName key
  | email key => exact runAlone_findOwner_tables .email key
  | resetToken key => exact runAlone_findOwner_tables .resetToken key

theorem user?_of_runAlone_get {id : String} {u : User} (h : (runAlone (get id) t).1 = .ok u) :
    t.user? id = some u := by
  unfold get at h
  by_cases hid : id = ""
  · rw [if_pos hid] at h
    cases h
  · rw [if_neg hid] at h
    have hload : (runAlone (load id) t).1 = .ok (some u) := by
      simp only at h
      rw [runAlone_bind] at h
      rcases hr : runAlone (load id) t with ⟨e | _ | v, t'⟩
      all_goals
        rw [hr] at h
        cases h
      rfl
    exact runAlone_load_eq_ok_iff.1 hload

/-- A user that is found is stored, on any tables. -/
theorem exists_user?_of_runAlone_find {field : SearchField} {u : User}
    (h : (runAlone (find field) t).1 = .ok u) : ∃ id, t.user? id = some u := by
  have howner {f : UniqueField} {key : String} (h : (runAlone (findOwner f key) t).1 = .ok u) :
      ∃ id, t.user? id = some u := by
    obtain ⟨id, -, hu, -⟩ := runAlone_findOwner_eq_ok_iff_entry.1 h
    exact ⟨id, hu⟩
  cases field with
  | id id => exact ⟨id, user?_of_runAlone_get h⟩
  | loginName key => exact howner h
  | email key => exact howner h
  | resetToken key => exact howner h

/-! ### Searches on indexed tables -/

/-- A search by a value finds the user that has it. -/
theorem runAlone_findOwner (h : t.Indexed) {f : UniqueField} {key id : String} {u : User}
    (hu : t.user? id = some u) (hk : u.unique? f = some key) :
    runAlone (findOwner f key) t = (.ok u, t) := by
  have he : t.entry f.index key = some id := h.owned ⟨u, hu, hk⟩
  unfold findOwner
  rw [runAlone_bind_ok (runAlone_ask _)]
  simp only [Tables.respond, he]
  rw [runAlone_bind_ok (runAlone_load h id)]
  simp only [hu, hk, if_true]
  rfl

/-- A search by a value that nobody has finds nothing, whatever the indexes say. -/
theorem runAlone_findOwner_of_free (h : t.Indexed) {f : UniqueField} {key : String}
    (hf : ∀ id, ¬ t.Carries id f key) : runAlone (findOwner f key) t = (.error .notFound, t) := by
  unfold findOwner
  rw [runAlone_bind_ok (runAlone_ask _)]
  simp only [Tables.respond]
  cases t.entry f.index key with
  | none => rfl
  | some id =>
    simp only
    rw [runAlone_bind_ok (runAlone_load h id)]
    cases hu : t.user? id with
    | none => rfl
    | some u =>
      have hk : u.unique? f ≠ some key := fun hk => hf id ⟨u, hu, hk⟩
      simp only [if_neg hk]
      rfl

theorem runAlone_findOwner_eq_ok_iff (h : t.Indexed) {f : UniqueField} {key : String} {u : User} :
    (runAlone (findOwner f key) t).1 = .ok u ↔
      t.user? u.id = some u ∧ u.unique? f = some key := by
  constructor
  · intro hr
    by_cases hc : ∃ id, t.Carries id f key
    · obtain ⟨id, v, hv, hk⟩ := hc
      rw [runAlone_findOwner h hv hk] at hr
      cases hr
      exact ⟨h.id_eq hv ▸ hv, hk⟩
    · rw [runAlone_findOwner_of_free h fun id hid => hc ⟨id, hid⟩] at hr
      cases hr
  · rintro ⟨hu, hk⟩
    rw [runAlone_findOwner h hu hk]

/-- Whether a search is one for this user. -/
def Selects : SearchField → User → Prop
  | .id id, u => id ≠ "" ∧ u.id = id
  | .loginName key, u => u.unique? .loginName = some key
  | .email key, u => u.unique? .email = some key
  | .resetToken key, u => u.unique? .resetToken = some key

/-- A search finds a user exactly if it is stored and is what the search is for. -/
theorem runAlone_find_eq_ok_iff (h : t.Indexed) {field : SearchField} {u : User} :
    (runAlone (find field) t).1 = .ok u ↔ t.user? u.id = some u ∧ Selects field u := by
  cases field with
  | id id =>
    simp only [find, Selects]
    by_cases hid : id = ""
    · subst hid
      constructor
      · intro hr
        cases hr
      · rintro ⟨-, hne, -⟩
        exact absurd rfl hne
    · rw [runAlone_get h hid]
      constructor
      · intro hr
        cases hu : t.user? id with
        | none =>
          rw [hu] at hr
          cases hr
        | some v =>
          rw [hu] at hr
          cases hr
          have := h.id_eq hu
          exact ⟨this ▸ hu, hid, this⟩
      · rintro ⟨hu, -, rfl⟩
        rw [hu]
        rfl
  | loginName key => exact runAlone_findOwner_eq_ok_iff h
  | email key => exact runAlone_findOwner_eq_ok_iff h
  | resetToken key => exact runAlone_findOwner_eq_ok_iff h

/-- On indexed tables a search depends on the stored users only. -/
theorem runAlone_find_congr (h : t.Indexed) (h' : t'.Indexed)
    (hu : ∀ id, t'.user? id = t.user? id) (field : SearchField) :
    (runAlone (find field) t').1 = (runAlone (find field) t).1 := by
  have key (f : UniqueField) (k : String) :
      (runAlone (findOwner f k) t').1 = (runAlone (findOwner f k) t).1 := by
    by_cases hc : ∃ id, t.Carries id f k
    · obtain ⟨id, u, hid, hk⟩ := hc
      rw [runAlone_findOwner h hid hk, runAlone_findOwner h' ((hu id).trans hid) hk]
    · have hf (id : String) : ¬ t.Carries id f k := fun hid => hc ⟨id, hid⟩
      have hf' (id : String) : ¬ t'.Carries id f k := by
        rintro ⟨u, hid, hk⟩
        exact hf id ⟨u, (hu id).symm.trans hid, hk⟩
      rw [runAlone_findOwner_of_free h hf, runAlone_findOwner_of_free h' hf']
  cases field with
  | id id =>
    by_cases hid : id = ""
    · subst hid
      rfl
    · simp only [find]
      rw [runAlone_get h hid, runAlone_get h' hid, hu]
  | loginName k => exact key .loginName k
  | email k => exact key .email k
  | resetToken k => exact key .resetToken k

end Accounts.Directory
