import Accounts.Proofs.Directory.Alone
import Accounts.Proofs.User.RoundTrip

/-!
# The outcome of a save

On indexed tables a save that is alone either refuses the user without a call, or fails at the
first value that another user has, or succeeds with exactly the tables `Tables.saved`. It succeeds
on coherent tables, too, where all values can be claimed (`runAlone_save_of_claimable`). The lemmas
follow the phases of a save: each says what its phase makes of the tables.
-/
namespace Accounts.Backend.Tables

variable {t : Tables}

/-- A user other than `id` has the value. -/
def Taken (t : Tables) (id : String) (v : UniqueField × String) : Prop :=
  ∃ other, other ≠ id ∧ t.Carries other v.1 v.2

/-- The user's value of the field is another user's. -/
def Clashes (t : Tables) (u : User) (f : UniqueField) : Prop :=
  ∃ key, u.unique? f = some key ∧ t.Taken u.id (f, key)

/-- Whatever of `t` is gone in `t'` is a leftover under a value of `u` in one of these fields. -/
structure LeftoversGone (t t' : Tables) (u : User) (fields : List UniqueField) : Prop where
  record : t'.record = t.record
  entry : ∀ index key, t'.entry index key = t.entry index key ∨
    t'.entry index key = none ∧ ∃ f ∈ fields, f.index = index ∧ u.unique? f = some key ∧
      ∃ owner, t.entry index key = some owner ∧ ¬ t.Carries owner f key

/-- The entry of the value is the user's own, or names somebody who is known to lack the value. -/
def Claimable (t : Tables) (id : String) (v : UniqueField × String) : Prop :=
  ∀ owner, t.entry v.1.index v.2 = some owner → owner = id ∨ t.Lacks owner v.1 v.2

/-- Without the entries under these values that name another than `id`. -/
def cleared (t : Tables) (id : String) (values : List (UniqueField × String)) : Tables :=
  { t with entry := fun index key =>
      if Among values index key ∧ t.entry index key ≠ some id then none else t.entry index key }

/-- With the entries under these values naming `id`. -/
def claimed (t : Tables) (id : String) (values : List (UniqueField × String)) : Tables :=
  { t with entry := fun index key =>
      if Among values index key then some id else t.entry index key }

/-- Without the entries under these values that name `id`. -/
def released (t : Tables) (id : String) (values : List (UniqueField × String)) : Tables :=
  { t with entry := fun index key =>
      if Among values index key ∧ t.entry index key = some id then none else t.entry index key }

/-- The values that lead to `id` if the tables are indexed. -/
def valuesOf (t : Tables) (id : String) : List (UniqueField × String) :=
  ((t.user? id).map User.uniqueValues).getD []

/-- What a successful save of `u` makes of the tables: its record is `u`, its values lead to it,
and the values that it had before and has no more lead nowhere. -/
def saved (t : Tables) (u : User) : Tables where
  record id := if id = u.id then some u.encode else t.record id
  entry index key :=
    if Among u.uniqueValues index key then some u.id
    else if Among (t.valuesOf u.id) index key then none
    else t.entry index key

theorem taken_cleared {id id' : String} {values : List (UniqueField × String)}
    {v : UniqueField × String} : (t.cleared id values).Taken id' v ↔ t.Taken id' v := Iff.rfl

theorem cleared_nil (id : String) : t.cleared id [] = t := by
  ext <;> simp [cleared, not_among_nil]

theorem cleared_cons (id : String) (v : UniqueField × String)
    (values : List (UniqueField × String)) :
    (t.cleared id [v]).cleared id values = t.cleared id (v :: values) := by
  ext1
  · rfl
  · funext index key
    simp only [cleared, among_cons, not_among_nil, or_false]
    by_cases he : t.entry index key = some id
    · simp [he]
    · by_cases hv : v.1.index = index ∧ v.2 = key <;> simp [he, hv]

/-- On indexed tables the values that nobody else has can be claimed. -/
theorem Indexed.claimable (h : t.Indexed) {id : String} {v : UniqueField × String}
    (hv : ¬ t.Taken id v) : t.Claimable id v := by
  intro owner _
  by_cases hid : owner = id
  · exact Or.inl hid
  · exact Or.inr (lacks_of_not_carries (h.not_unreadable owner) fun hc => hv ⟨owner, hid, hc⟩)

/-- A stored user may keep its values. -/
theorem Coherent.claimable (h : t.Coherent) {id : String} {f : UniqueField} {key : String}
    (hc : t.Carries id f key) : t.Claimable id (f, key) := by
  intro owner howner
  exact Or.inl (Option.some.inj (howner.symm.trans (h.owned hc)))

theorem Claimable.cleared {id : String} {v : UniqueField × String} (h : t.Claimable id v)
    (values : List (UniqueField × String)) : (t.cleared id values).Claimable id v := by
  intro owner howner
  simp only [Tables.cleared] at howner
  split at howner
  · cases howner
  · exact h owner howner

theorem Indexed.cleared (h : t.Indexed) {id : String} {values : List (UniqueField × String)}
    (hv : ∀ v ∈ values, ¬ t.Taken id v) : (t.cleared id values).Indexed := by
  refine h.of_entries rfl fun {owner f key} hc => ?_
  have he := h.owned hc
  apply if_neg
  rintro ⟨ha, hne⟩
  refine hv (f, key) (among_index.1 ha) ⟨owner, ?_, hc⟩
  rintro rfl
  exact hne he

/-- Clearing one value takes its entry away unless it names `id`. -/
theorem cleared_singleton (id : String) (v : UniqueField × String) :
    t.cleared id [v] =
      if t.entry v.1.index v.2 = some id then t else t.withEntry v.1.index v.2 none := by
  ext1
  · split <;> rfl
  · funext index key
    simp only [cleared, among_singleton]
    by_cases hv : index = v.1.index ∧ key = v.2
    · obtain ⟨rfl, rfl⟩ := hv
      by_cases he : t.entry v.1.index v.2 = some id <;> simp [he, entry_withEntry]
    · simp only [hv, false_and, if_false]
      split
      · rfl
      · rw [entry_withEntry, if_neg hv]

theorem claimed_nil (id : String) : t.claimed id [] = t := by
  ext <;> simp [claimed, not_among_nil]

theorem claimed_cons (id : String) (v : UniqueField × String)
    (values : List (UniqueField × String)) :
    (t.claimed id [v]).claimed id values = t.claimed id (v :: values) := by
  ext1
  · rfl
  · funext index key
    simp only [claimed, among_cons, not_among_nil, or_false]
    by_cases hv : v.1.index = index ∧ v.2 = key <;> simp [hv]

theorem claimed_singleton (id : String) (v : UniqueField × String) :
    t.claimed id [v] = t.withEntry v.1.index v.2 (some id) := by
  ext1
  · rfl
  · funext index key
    simp only [claimed, among_singleton, entry_withEntry]

theorem withEntry_of_eq {index key : String} {owner : Option String}
    (he : t.entry index key = owner) : t.withEntry index key owner = t := by
  ext1
  · rfl
  · funext i k
    rw [entry_withEntry]
    split
    · next hk => rw [hk.1, hk.2, he]
    · rfl

theorem released_nil (id : String) : t.released id [] = t := by
  ext <;> simp [released, not_among_nil]

theorem released_cons (id : String) (v : UniqueField × String)
    (values : List (UniqueField × String)) :
    (t.released id [v]).released id values = t.released id (v :: values) := by
  ext1
  · rfl
  · funext index key
    simp only [released, among_cons, not_among_nil, or_false]
    by_cases he : t.entry index key = some id
    · by_cases hv : v.1.index = index ∧ v.2 = key <;> simp [he, hv]
    · simp [he]

/-- Releasing one value takes its entry away if it names `id`. -/
theorem released_singleton (id : String) (v : UniqueField × String) :
    t.released id [v] =
      if t.entry v.1.index v.2 = some id then t.withEntry v.1.index v.2 none else t := by
  ext1
  · split <;> rfl
  · funext index key
    simp only [released, among_singleton]
    by_cases hv : index = v.1.index ∧ key = v.2
    · obtain ⟨rfl, rfl⟩ := hv
      by_cases he : t.entry v.1.index v.2 = some id <;> simp [he, entry_withEntry]
    · simp only [hv, false_and, if_false]
      split
      · rw [entry_withEntry, if_neg hv]
      · rfl

theorem among_valuesOf {id : String} {f : UniqueField} {key : String} :
    Among (t.valuesOf id) f.index key ↔ t.Carries id f key := by
  unfold valuesOf Carries
  rw [among_index]
  cases t.user? id <;> simp [User.mem_uniqueValues]

/-- The phases of a save that meets no other user, put together. -/
theorem released_claimed_cleared (h : t.Coherent) (u : User) :
    (((t.cleared u.id u.uniqueValues).claimed u.id u.uniqueValues).withRecord u.id
      (some u.encode)).released u.id
        ((t.valuesOf u.id).filter fun v => v ∉ u.uniqueValues) = t.saved u := by
  ext1
  · rfl
  · funext index key
    simp only [released, claimed, cleared, saved, entry_withRecord]
    by_cases hu : Among u.uniqueValues index key
    · have hstale : ¬ Among ((t.valuesOf u.id).filter fun v => v ∉ u.uniqueValues) index key := by
        rintro ⟨⟨f, k⟩, hm, rfl, rfl⟩
        exact of_decide_eq_true (List.mem_filter.1 hm).2 (among_index.1 hu)
      simp only [hu, hstale, false_and, if_true, if_false]
    · by_cases ho : Among (t.valuesOf u.id) index key
      · obtain ⟨⟨f, k⟩, hm, rfl, rfl⟩ := ho
        have ho : Among (t.valuesOf u.id) f.index k := ⟨(f, k), hm, rfl, rfl⟩
        have he : t.entry f.index k = some u.id := h.owned (among_valuesOf.1 ho)
        have hstale : Among ((t.valuesOf u.id).filter fun v => v ∉ u.uniqueValues) f.index k :=
          ⟨(f, k), List.mem_filter.2 ⟨hm, decide_eq_true fun hv => hu (among_index.2 hv)⟩, rfl, rfl⟩
        simp only [hu, ho, he, hstale, false_and, true_and, if_true, if_false]
      · have hstale : ¬ Among ((t.valuesOf u.id).filter fun v => v ∉ u.uniqueValues) index key := by
          rintro ⟨v, hm, hv⟩
          exact ho ⟨v, (List.mem_filter.1 hm).1, hv⟩
        simp only [hu, ho, hstale, false_and, if_false]

theorem user?_saved {u : User} (hu : u.IsDated) (id : String) :
    (t.saved u).user? id = if id = u.id then some u else t.user? id := by
  have hr : (t.saved u).record id = if id = u.id then some u.encode else t.record id := rfl
  unfold user?
  rw [hr]
  by_cases hid : id = u.id
  · rw [if_pos hid, if_pos hid, Option.bind_some, User.decode?_encode hu]
  · rw [if_neg hid, if_neg hid]

/-- A user saved with the unique values that it has keeps all entries as they are. -/
theorem saved_eq_withRecord (h : t.Coherent) {u v : User} (hu : t.user? v.id = some u)
    (hsame : v.uniqueValues = u.uniqueValues) :
    t.saved v = t.withRecord v.id (some v.encode) := by
  ext1
  · rfl
  · funext index key
    have hvalues : t.valuesOf v.id = v.uniqueValues := by simp [valuesOf, hu, hsame]
    simp only [saved, hvalues, entry_withRecord]
    split
    · next hamong =>
      obtain ⟨⟨f, k⟩, hm, rfl, rfl⟩ := hamong
      rw [hsame] at hm
      exact (h.owned ⟨u, hu, User.mem_uniqueValues.1 hm⟩).symm
    · rfl

end Accounts.Backend.Tables

namespace Accounts

/-- Something that every user needs is empty. -/
def User.IsIncomplete (u : User) : Prop :=
  u.id = "" ∨ u.email = "" ∨ u.loginName = "" ∨ u.resetToken = some ""

instance (u : User) : Decidable u.IsIncomplete := by
  unfold User.IsIncomplete
  infer_instance

namespace Directory

open Backend

variable {t : Tables}

/-! ### Checking that values are free -/

theorem runAlone_holds (h : t.Indexed) (f : UniqueField) (key owner : String) :
    runAlone (holds f key owner) t = (.ok (decide (t.Carries owner f key)), t) := by
  unfold holds
  rw [runAlone_bind_ok (runAlone_load h owner), runAlone_pure]
  congr 2
  rw [Bool.eq_iff_iff, decide_eq_true_iff]
  unfold Tables.Carries
  cases t.user? owner <;> simp

theorem runAlone_isTaken_of_taken (h : t.Indexed) {f : UniqueField} {key id : String}
    (ht : t.Taken id (f, key)) : runAlone (isTaken f key id) t = (.ok true, t) := by
  obtain ⟨other, hne, hc⟩ := ht
  have he : t.entry f.index key = some other := h.owned hc
  unfold isTaken
  rw [runAlone_bind_ok (runAlone_ask _)]
  simp only [Tables.respond, he, if_neg hne]
  rw [runAlone_bind_ok (runAlone_holds h f key other)]
  simp only [hc, decide_true, if_true]
  rfl

theorem runAlone_holds_of_lacks {f : UniqueField} {key owner : String}
    (h : t.Lacks owner f key) : runAlone (holds f key owner) t = (.ok false, t) := by
  obtain ⟨r, hrun, hr⟩ := runAlone_load_answer t owner
  unfold holds
  rw [runAlone_bind, hrun]
  cases hr with
  | absent => rfl
  | @found u hu =>
    have hne : u.unique? f ≠ some key := fun hk => h.not_carries ⟨u, hu, hk⟩
    simp [runAlone_pure, hne]
  | unreadable hbad => exact absurd h hbad.not_lacks

theorem runAlone_isTaken_of_claimable {f : UniqueField} {key id : String}
    (h : t.Claimable id (f, key)) :
    runAlone (isTaken f key id) t = (.ok false, t.cleared id [(f, key)]) := by
  unfold isTaken
  rw [runAlone_bind_ok (runAlone_ask _), Tables.cleared_singleton]
  simp only [Tables.respond]
  cases he : t.entry f.index key with
  | none =>
    rw [if_neg (by simp), Tables.withEntry_of_eq he]
    rfl
  | some owner =>
    by_cases hid : owner = id
    · simp only [hid, if_true]
      rfl
    · have hlacks : t.Lacks owner f key := (h owner he).resolve_left hid
      simp only [if_neg hid]
      rw [runAlone_bind_ok (runAlone_holds_of_lacks hlacks),
        if_neg (fun e => hid (Option.some.inj e))]
      simp only [Bool.false_eq_true, if_false]
      rw [runAlone_bind_ok (runAlone_ask _)]
      simp only [Tables.respond, he, if_true]
      rfl

/-- The check goes through the values that can be claimed. -/
theorem runAlone_checkFree_append {id : String} {before : List (UniqueField × String)}
    (hb : ∀ v ∈ before, t.Claimable id v) (after : List (UniqueField × String)) :
    runAlone (checkFree id (before ++ after)) t =
      runAlone (checkFree id after) (t.cleared id before) := by
  induction before generalizing t with
  | nil => rw [Tables.cleared_nil, List.nil_append]
  | cons v before ih =>
    have hv : t.Claimable id (v.1, v.2) := hb v (by simp)
    have hrest : ∀ w ∈ before, (t.cleared id [v]).Claimable id w := fun w hw =>
      (hb w (List.mem_cons_of_mem v hw)).cleared [v]
    rw [List.cons_append, checkFree, runAlone_bind_ok (runAlone_isTaken_of_claimable hv)]
    have hnext := ih hrest
    rw [Tables.cleared_cons] at hnext
    exact hnext

theorem runAlone_checkFree {id : String} {values : List (UniqueField × String)}
    (hv : ∀ v ∈ values, t.Claimable id v) :
    runAlone (checkFree id values) t = (.ok (), t.cleared id values) := by
  have := runAlone_checkFree_append hv []
  rwa [List.append_nil] at this

theorem runAlone_checkFree_of_taken (h : t.Indexed) {id : String}
    {before after : List (UniqueField × String)} {v : UniqueField × String}
    (hb : ∀ w ∈ before, ¬ t.Taken id w) (hv : t.Taken id v) :
    runAlone (checkFree id (before ++ v :: after)) t =
      (.error (.taken v.1), t.cleared id before) := by
  rw [runAlone_checkFree_append fun w hw => h.claimable (hb w hw), checkFree]
  rw [runAlone_bind_ok (runAlone_isTaken_of_taken (h.cleared hb) (Tables.taken_cleared.2 hv))]
  rfl

/-! ### Claiming, writing, releasing -/

theorem runAlone_claim {f : UniqueField} {key id : String}
    (he : t.entry f.index key = none ∨ t.entry f.index key = some id) :
    runAlone (claim f key id) t = (.ok true, t.claimed id [(f, key)]) := by
  unfold claim
  rw [runAlone_bind_ok (runAlone_ask _), Tables.claimed_singleton]
  rcases he with he | he
  · simp only [Tables.respond, he, if_true]
    rfl
  · rw [Tables.withEntry_of_eq he]
    simp only [Tables.respond, he, beq_self_eq_true, if_true]
    rfl

/-- Claiming values whose entries are free or already there acquires those that are new. -/
theorem runAlone_claimAll {id : String} {old values acquired : List (UniqueField × String)}
    (hv : ∀ v ∈ values, t.entry v.1.index v.2 = none ∨ t.entry v.1.index v.2 = some id) :
    runAlone (claimAll id old values acquired) t =
      (.ok (acquired ++ values.filter fun v => v ∉ old), t.claimed id values) := by
  induction values generalizing t acquired with
  | nil => simp only [List.filter_nil, List.append_nil, Tables.claimed_nil]; rfl
  | cons v values ih =>
    have hrest : ∀ w ∈ values, (t.claimed id [v]).entry w.1.index w.2 = none ∨
        (t.claimed id [v]).entry w.1.index w.2 = some id := by
      intro w hw
      simp only [Tables.claimed]
      split
      · exact Or.inr rfl
      · exact hv w (List.mem_cons_of_mem v hw)
    rw [claimAll, runAlone_bind_ok (runAlone_orElse_ok (runAlone_claim (hv v (by simp))) _),
      if_pos rfl, ih hrest, Tables.claimed_cons]
    by_cases ho : v ∈ old <;> simp [ho]

theorem runAlone_releaseAll (id : String) (values : List (UniqueField × String)) :
    runAlone (releaseAll id values) t = (.ok (), t.released id values) := by
  induction values generalizing t with
  | nil => rw [Tables.released_nil]; rfl
  | cons v values ih =>
    rw [releaseAll, runAlone_bind_ok (runAlone_attempt _), runAlone_ask]
    simp only [Tables.respond]
    rw [← Tables.released_singleton, ih, Tables.released_cons]

theorem runAlone_lostClaim {id : String} {values : List (UniqueField × String)}
    (hv : ∀ v ∈ values, t.entry v.1.index v.2 = some id) :
    runAlone (lostClaim id values) t = (.ok none, t) := by
  induction values with
  | nil => rfl
  | cons v values ih =>
    rw [lostClaim, runAlone_bind_ok (runAlone_ask _)]
    simp only [Tables.respond, hv v (by simp), if_true]
    exact ih fun w hw => hv w (List.mem_cons_of_mem v hw)

/-! ### The whole save -/

theorem validate_eq_ok_iff {u : User} : validate u = .ok () ↔ ¬ u.IsIncomplete := by
  unfold validate User.IsIncomplete
  split
  · simp_all
  · split
    · simp_all
    · split
      · simp_all
      · split <;> simp_all

theorem validate_eq_error {u : User} (h : u.IsIncomplete) :
    ∃ reason, validate u = .error (.invalidUser reason) := by
  unfold validate
  split
  · exact ⟨_, rfl⟩
  · split
    · exact ⟨_, rfl⟩
    · split
      · exact ⟨_, rfl⟩
      · split
        · exact ⟨_, rfl⟩
        · unfold User.IsIncomplete at h
          simp_all

/-- A save refuses a user without any call exactly if something is empty. -/
theorem run_save_eq_done_iff {u : User} :
    (∃ reason, (save u).run = .done (.error (.invalidUser reason))) ↔ u.IsIncomplete := by
  constructor
  · rintro ⟨reason, hr⟩
    by_contra hu
    have hv := validate_eq_ok_iff.2 hu
    unfold save at hr
    rw [hv] at hr
    cases hr
  · intro hu
    obtain ⟨reason, hv⟩ := validate_eq_error hu
    refine ⟨reason, ?_⟩
    unfold save
    rw [hv]
    rfl

theorem runAlone_save_of_incomplete {u : User} (hu : u.IsIncomplete) :
    (runAlone (save u) t).2 = t := by
  obtain ⟨reason, hr⟩ := run_save_eq_done_iff.2 hu
  unfold runAlone
  rw [hr]
  rfl

theorem runAlone_save_of_complete {u : User} (hu : ¬ u.IsIncomplete) :
    runAlone (save u) t = runAlone (saveLocked u) t := by
  unfold save
  rw [validate_eq_ok_iff.2 hu]
  exact runAlone_locked _

theorem runAlone_saveLocked_of_taken (h : t.Indexed) {u : User}
    {before after : List (UniqueField × String)} {v : UniqueField × String}
    (hu : u.uniqueValues = before ++ v :: after) (hb : ∀ w ∈ before, ¬ t.Taken u.id w)
    (hv : t.Taken u.id v) :
    runAlone (saveLocked u) t = (.error (.taken v.1), t.cleared u.id before) := by
  unfold saveLocked
  rw [hu]
  exact runAlone_bind_error (runAlone_checkFree_of_taken h hb hv) _

/-- A save that has found its values free, on whatever tables, goes through. -/
theorem runAlone_saveLocked_of_free {u : User} {t₁ : Tables} {old : Option User}
    (hfree : runAlone (checkFree u.id u.uniqueValues) t = (.ok (), t₁))
    (hentry : ∀ v ∈ u.uniqueValues,
      t₁.entry v.1.index v.2 = none ∨ t₁.entry v.1.index v.2 = some u.id)
    (hload : runAlone (load u.id) t₁ = (.ok old, t₁)) :
    runAlone (saveLocked u) t =
      (.ok (), ((t₁.claimed u.id u.uniqueValues).withRecord u.id (some u.encode)).released u.id
        (((old.map User.uniqueValues).getD []).filter fun v => v ∉ u.uniqueValues)) := by
  have howned : ∀ v ∈ u.uniqueValues,
      ((t₁.claimed u.id u.uniqueValues).withRecord u.id (some u.encode)).entry v.1.index v.2 =
        some u.id := fun v hm => if_pos ⟨v, hm, rfl, rfl⟩
  have hwrite : runAlone (ask (.setRecord u.id u.encode)) (t₁.claimed u.id u.uniqueValues) =
      (.ok (), (t₁.claimed u.id u.uniqueValues).withRecord u.id (some u.encode)) := rfl
  unfold saveLocked
  rw [runAlone_bind_ok hfree, runAlone_bind_ok hload]
  simp only
  rw [runAlone_bind_ok (runAlone_claimAll hentry),
    runAlone_bind_ok (runAlone_orElse_ok hwrite _),
    runAlone_bind_ok (runAlone_orElse_ok (runAlone_lostClaim howned) _)]
  simp only
  exact runAlone_releaseAll u.id _

theorem runAlone_saveLocked (h : t.Coherent) {u : User} (hread : ¬ t.Unreadable u.id)
    (hv : ∀ v ∈ u.uniqueValues, t.Claimable u.id v) :
    runAlone (saveLocked u) t = (.ok (), t.saved u) := by
  have hentry : ∀ v ∈ u.uniqueValues,
      (t.cleared u.id u.uniqueValues).entry v.1.index v.2 = none ∨
        (t.cleared u.id u.uniqueValues).entry v.1.index v.2 = some u.id := by
    intro v hm
    have ha : Among u.uniqueValues v.1.index v.2 := ⟨v, hm, rfl, rfl⟩
    simp only [Tables.cleared, ha, true_and]
    split
    · exact Or.inl rfl
    · next he => exact Or.inr (not_not.1 he)
  have hload : runAlone (load u.id) (t.cleared u.id u.uniqueValues) =
      (.ok (t.user? u.id), t.cleared u.id u.uniqueValues) := by
    obtain ⟨r, hrun, hr⟩ := runAlone_load_answer (t.cleared u.id u.uniqueValues) u.id
    rw [hrun]
    cases hr with
    | absent hnone =>
      have hnone : t.record u.id = none := hnone
      simp [Tables.user?, hnone]
    | found hu => exact congrArg (fun o => (Except.ok o, _)) hu.symm
    | unreadable hbad => exact absurd hbad hread
  rw [runAlone_saveLocked_of_free (runAlone_checkFree hv) hentry hload]
  exact congrArg (Prod.mk _) (Tables.released_claimed_cleared h u)

/-- A save alone of a complete user whose values can be claimed goes through. -/
theorem runAlone_save_of_claimable (h : t.Coherent) {u : User} (hu : ¬ u.IsIncomplete)
    (hread : ¬ t.Unreadable u.id) (hv : ∀ v ∈ u.uniqueValues, t.Claimable u.id v) :
    runAlone (save u) t = (.ok (), t.saved u) := by
  rw [runAlone_save_of_complete hu]
  exact runAlone_saveLocked h hread hv

/-- The values up to the first field that clashes, that field, and the rest. -/
theorem uniqueValues_of_clash {u : User} {before after : List UniqueField} {f : UniqueField}
    {key : String} (hall : UniqueField.all = before ++ f :: after) (hk : u.unique? f = some key) :
    ∃ earlier later, u.uniqueValues = earlier ++ (f, key) :: later ∧
      ∀ g k, (g, k) ∈ earlier ↔ g ∈ before ∧ u.unique? g = some k := by
  refine ⟨before.filterMap fun g => (u.unique? g).map fun k => (g, k),
    after.filterMap fun g => (u.unique? g).map fun k => (g, k), ?_, ?_⟩
  · unfold User.uniqueValues
    rw [hall, List.filterMap_append, List.filterMap_cons, hk]
    rfl
  · intro g k
    simp

theorem leftoversGone_cleared {u : User} {fields : List UniqueField}
    {values : List (UniqueField × String)}
    (hvalues : ∀ g k, (g, k) ∈ values ↔ g ∈ fields ∧ u.unique? g = some k)
    (hv : ∀ v ∈ values, ¬ t.Taken u.id v) :
    t.LeftoversGone (t.cleared u.id values) u fields where
  record := rfl
  entry index key := by
    simp only [Tables.cleared]
    split
    · next hgone =>
      obtain ⟨⟨⟨f, k⟩, hm, rfl, rfl⟩, hne⟩ := hgone
      obtain ⟨hf, hk⟩ := (hvalues f k).1 hm
      cases he : t.entry f.index k with
      | none => exact Or.inl rfl
      | some owner =>
        refine Or.inr ⟨rfl, f, hf, rfl, hk, owner, rfl, fun hc => hv (f, k) hm ⟨owner, ?_, hc⟩⟩
        rintro rfl
        exact hne he
    · exact Or.inl rfl

/-- A save of a complete user fails with the first field that clashes. -/
theorem runAlone_save_of_clash (h : t.Indexed) {u : User} (hu : ¬ u.IsIncomplete)
    {before after : List UniqueField} {f : UniqueField}
    (hall : UniqueField.all = before ++ f :: after) (hf : t.Clashes u f)
    (hbefore : ∀ g ∈ before, ¬ t.Clashes u g) :
    ∃ t', runAlone (save u) t = (.error (.taken f), t') ∧ t.LeftoversGone t' u before := by
  obtain ⟨key, hk, htaken⟩ := hf
  obtain ⟨earlier, later, hvalues, hearlier⟩ := uniqueValues_of_clash hall hk
  have hfree : ∀ v ∈ earlier, ¬ t.Taken u.id v := by
    rintro ⟨g, k⟩ hm ht
    obtain ⟨hg, hgk⟩ := (hearlier g k).1 hm
    exact hbefore g hg ⟨k, hgk, ht⟩
  refine ⟨t.cleared u.id earlier, ?_, leftoversGone_cleared hearlier hfree⟩
  rw [runAlone_save_of_complete hu]
  exact runAlone_saveLocked_of_taken h hvalues hfree htaken

theorem runAlone_save_of_free (h : t.Indexed) {u : User} (hu : ¬ u.IsIncomplete)
    (hfree : ∀ f, ¬ t.Clashes u f) : runAlone (save u) t = (.ok (), t.saved u) := by
  refine runAlone_save_of_claimable h.toCoherent hu (h.not_unreadable u.id) ?_
  rintro ⟨f, key⟩ hm
  exact h.claimable fun ht => hfree f ⟨key, User.mem_uniqueValues.1 hm, ht⟩

/-- No field clashes, or one is the first that does. -/
theorem exists_first_clash (t : Tables) (u : User) :
    (∀ f, ¬ t.Clashes u f) ∨ ∃ before f after, UniqueField.all = before ++ f :: after ∧
      t.Clashes u f ∧ ∀ g ∈ before, ¬ t.Clashes u g := by
  classical
  cases hfind : UniqueField.all.find? fun f => decide (t.Clashes u f) with
  | none =>
    left
    intro f
    have := List.find?_eq_none.1 hfind f (UniqueField.mem_all f)
    simpa using this
  | some f =>
    right
    obtain ⟨hf, before, after, hall, hbefore⟩ := List.find?_eq_some_iff_append.1 hfind
    refine ⟨before, f, after, hall, of_decide_eq_true hf, fun g hg => ?_⟩
    simpa using hbefore g hg

/-- What becomes of the others: their records stay, and their values still lead to them. -/
def KeepsOthers (t t' : Tables) (id : String) : Prop :=
  ∀ other, other ≠ id → t'.record other = t.record other ∧
    ∀ f key, t.Carries other f key → t'.entry f.index key = some other

theorem keepsOthers_of_leftoversGone (h : t.Indexed) {t' : Tables} {u : User}
    {fields : List UniqueField} (hgone : t.LeftoversGone t' u fields) : KeepsOthers t t' u.id := by
  intro other _
  refine ⟨congrFun hgone.record other, fun f key hc => ?_⟩
  have he := h.owned hc
  rcases hgone.entry f.index key with hsame | ⟨-, g, -, hi, -, owner, hw, hno⟩
  · exact hsame.trans he
  · cases UniqueField.index_injective hi
    rw [he] at hw
    cases hw
    exact absurd hc hno

theorem keepsOthers_saved (h : t.Indexed) {u : User} (hfree : ∀ f, ¬ t.Clashes u f) :
    KeepsOthers t (t.saved u) u.id := by
  intro other hne
  refine ⟨if_neg hne, fun f key hc => ?_⟩
  have hvalue : ¬ Among u.uniqueValues f.index key := fun hm =>
    hfree f ⟨key, among_uniqueValues.1 hm, other, hne, hc⟩
  have hold : ¬ Among (t.valuesOf u.id) f.index key := fun hm =>
    hne (h.unique hc (Tables.among_valuesOf.1 hm))
  simp only [Tables.saved, if_neg hvalue, if_neg hold]
  exact h.owned hc

theorem keepsOthers_save (h : t.Indexed) (u : User) :
    KeepsOthers t (runAlone (save u) t).2 u.id := by
  by_cases hu : u.IsIncomplete
  · rw [runAlone_save_of_incomplete hu]
    exact fun other _ => ⟨rfl, fun f key hc => h.owned hc⟩
  · rcases exists_first_clash t u with hfree | ⟨before, f, after, hall, hf, hbefore⟩
    · rw [runAlone_save_of_free h hu hfree]
      exact keepsOthers_saved h hfree
    · obtain ⟨t', hrun, hgone⟩ := runAlone_save_of_clash h hu hall hf hbefore
      rw [hrun]
      exact keepsOthers_of_leftoversGone h hgone

theorem indexed_saved (h : t.Indexed) {u : User} (hu : u.IsDated)
    (hfree : ∀ f, ¬ t.Clashes u f) : (t.saved u).Indexed where
  id_eq {id v} hv := by
    rw [Tables.user?_saved hu] at hv
    split at hv
    · next hid =>
      cases hv
      exact hid.symm
    · exact h.id_eq hv
  decodes {id text} hr := by
    simp only [Tables.saved] at hr
    split at hr
    · cases hr
      exact ⟨u, User.decode?_encode hu⟩
    · exact h.decodes hr
  owned {id f key} hc := by
    by_cases hid : id = u.id
    · obtain ⟨v, hv, hk⟩ := hc
      rw [Tables.user?_saved hu, if_pos hid] at hv
      cases hv
      rw [hid]
      exact if_pos (among_uniqueValues.2 hk)
    · refine (keepsOthers_saved h hfree id hid).2 f key ?_
      obtain ⟨v, hv, hk⟩ := hc
      rw [Tables.user?_saved hu, if_neg hid] at hv
      exact ⟨v, hv, hk⟩

/-- What a save does that is alone and meets no failure, on any indexed tables. -/
theorem save_outcome (h : t.Indexed) (u : User) :
    ((∃ reason, (save u).run = .done (.error (.invalidUser reason))) ↔ u.IsIncomplete) ∧
    (¬ u.IsIncomplete →
      (∀ before f after, UniqueField.all = before ++ f :: after → t.Clashes u f →
        (∀ g ∈ before, ¬ t.Clashes u g) →
        ∃ t', runAlone (save u) t = (.error (.taken f), t') ∧ t.LeftoversGone t' u before) ∧
      ((∀ f, ¬ t.Clashes u f) → runAlone (save u) t = (.ok (), t.saved u))) ∧
    (u.IsDated → (t.saved u).user? u.id = some u) ∧
    KeepsOthers t (runAlone (save u) t).2 u.id := by
  refine ⟨run_save_eq_done_iff, fun hu => ⟨fun before f after hall hf hbefore => ?_, ?_⟩,
    fun hdated => ?_, keepsOthers_save h u⟩
  · exact runAlone_save_of_clash h hu hall hf hbefore
  · exact runAlone_save_of_free h hu
  · rw [Tables.user?_saved hdated, if_pos rfl]

def alice : User := .create "a" "Alice" "alice@example.com" "alice" "hash"

def bob : User := .create "b" "Bob" "bob@example.com" "bob" "hash"

/-- Alice is stored, and an interrupted save of somebody else has left Bob's login name. -/
def aliceAndLeftover : Tables :=
  (Tables.empty.saved alice).withEntry "login_name" "bob" (some "c")

theorem isDated_of_unissued {u : User} (h : u.resetTokenIssued = none) : u.IsDated := by
  intro t ht
  rw [h] at ht
  cases ht

theorem isDated_create {id profileName email loginName passwordHash : String} :
    (User.create id profileName email loginName passwordHash).IsDated := isDated_of_unissued rfl

theorem carries_aliceAndLeftover {id : String} {f : UniqueField} {key : String} :
    aliceAndLeftover.Carries id f key ↔ id = "a" ∧ alice.unique? f = some key := by
  have hu : aliceAndLeftover.user? id = if id = "a" then some alice else none :=
    Tables.user?_saved isDated_create id
  unfold Tables.Carries
  rw [hu]
  split <;> simp_all

/-- The tables of the first user who is saved. -/
theorem indexed_saved_empty {u : User} (hu : u.IsDated) : (Tables.empty.saved u).Indexed := by
  have hempty : ∀ f, ¬ Tables.empty.Clashes u f := by
    rintro f ⟨key, -, other, -, v, hv, -⟩
    cases hv
  exact indexed_saved Tables.exact_empty.toIndexed hu hempty

theorem indexed_aliceAndLeftover : aliceAndLeftover.Indexed := by
  refine (indexed_saved_empty isDated_create).of_entries rfl ?_
  intro id f key hc
  obtain ⟨-, hk⟩ := carries_aliceAndLeftover.1 hc
  refine if_neg ?_
  rintro ⟨hi, rfl⟩
  cases f with
  | email => exact absurd hi (by decide)
  | loginName => exact absurd hk (by decide)
  | resetToken => exact absurd hi (by decide)

/-- The leftover does not block Bob; Alice's values do. -/
theorem save_outcome_aliceAndLeftover :
    runAlone (save bob) aliceAndLeftover = (.ok (), aliceAndLeftover.saved bob) ∧
      (runAlone (save { bob with loginName := "alice" }) aliceAndLeftover).1 =
        .error (.taken .loginName) := by
  have hbob : ∀ f, ¬ aliceAndLeftover.Clashes bob f := by
    rintro f ⟨key, hk, other, -, hc⟩
    obtain ⟨-, ha⟩ := carries_aliceAndLeftover.1 hc
    cases f with
    | email =>
      have hsame : alice.unique? .email = bob.unique? .email := ha.trans hk.symm
      exact absurd hsame (by decide)
    | loginName =>
      have hsame : alice.unique? .loginName = bob.unique? .loginName := ha.trans hk.symm
      exact absurd hsame (by decide)
    | resetToken => cases hk
  refine ⟨((save_outcome indexed_aliceAndLeftover bob).2.1 (by decide)).2 hbob, ?_⟩
  have hclash : aliceAndLeftover.Clashes { bob with loginName := "alice" } .loginName :=
    ⟨"alice", rfl, "a", by decide, carries_aliceAndLeftover.2 ⟨rfl, rfl⟩⟩
  have hemail : ∀ g ∈ [UniqueField.email],
      ¬ aliceAndLeftover.Clashes { bob with loginName := "alice" } g := by
    rintro g hg ⟨key, hk, other, -, hc⟩
    obtain ⟨-, ha⟩ := carries_aliceAndLeftover.1 hc
    cases List.mem_singleton.1 hg
    have hsame : alice.unique? .email = bob.unique? .email := ha.trans hk.symm
    exact absurd hsame (by decide)
  have houtcome := (save_outcome indexed_aliceAndLeftover { bob with loginName := "alice" }).2.1
  obtain ⟨t', hrun, -⟩ := (houtcome (by decide)).1 [.email] .loginName [.resetToken] rfl hclash
    hemail
  rw [hrun]

/-! ### Exact indexes stay exact -/

theorem exact_saved (h : t.Exact) {u : User} (hu : u.IsDated) (hfree : ∀ f, ¬ t.Clashes u f) :
    (t.saved u).Exact where
  toIndexed := indexed_saved h.toIndexed hu hfree
  carried {index key owner} he := by
    simp only [Tables.saved] at he
    split at he
    · next hvalue =>
      cases he
      obtain ⟨⟨f, k⟩, hm, rfl, rfl⟩ := hvalue
      refine ⟨f, rfl, u, ?_, User.mem_uniqueValues.1 hm⟩
      rw [Tables.user?_saved hu, if_pos rfl]
    · next hvalue =>
      split at he
      · cases he
      · next hold =>
        obtain ⟨f, rfl, hc⟩ := h.carried he
        have hne : owner ≠ u.id := by
          rintro rfl
          exact hold (Tables.among_valuesOf.2 hc)
        obtain ⟨v, hv, hk⟩ := hc
        refine ⟨f, rfl, v, ?_, hk⟩
        rw [Tables.user?_saved hu, if_neg hne, hv]

/-- Where there are no leftovers, a save that fails changes nothing. -/
theorem eq_of_leftoversGone (h : t.Exact) {t' : Tables} {u : User} {fields : List UniqueField}
    (hgone : t.LeftoversGone t' u fields) : t' = t := by
  ext1
  · exact hgone.record
  · funext index key
    rcases hgone.entry index key with hsame | ⟨-, f, -, hi, -, owner, he, hno⟩
    · exact hsame
    · obtain ⟨g, hg, hc⟩ := h.carried he
      cases UniqueField.index_injective (hi.trans hg)
      exact absurd hc hno

/-- A save on exact tables succeeds, or fails and changes nothing. -/
theorem runAlone_save_of_exact (h : t.Exact) (u : User) :
    (¬ u.IsIncomplete ∧ (∀ f, ¬ t.Clashes u f) ∧ runAlone (save u) t = (.ok (), t.saved u)) ∨
      ∃ e, runAlone (save u) t = (.error e, t) ∧
        (u.IsIncomplete ∨ ∃ f, e = .taken f ∧ t.Clashes u f) := by
  by_cases hi : u.IsIncomplete
  · obtain ⟨reason, hdone⟩ := run_save_eq_done_iff.2 hi
    refine Or.inr ⟨.invalidUser reason, ?_, Or.inl hi⟩
    unfold runAlone
    rw [hdone]
    rfl
  · rcases exists_first_clash t u with hfree | ⟨before, f, after, hall, hf, hbefore⟩
    · exact Or.inl ⟨hi, hfree, runAlone_save_of_free h.toIndexed hi hfree⟩
    · obtain ⟨t', hrun, hgone⟩ := runAlone_save_of_clash h.toIndexed hi hall hf hbefore
      rw [eq_of_leftoversGone h hgone] at hrun
      exact Or.inr ⟨_, hrun, Or.inr ⟨f, rfl, hf⟩⟩

theorem exact_save (h : t.Exact) {u : User} (hu : u.IsDated) :
    (runAlone (save u) t).2.Exact := by
  rcases runAlone_save_of_exact h u with ⟨-, hfree, hrun⟩ | ⟨e, hrun, -⟩
  · rw [hrun]
    exact exact_saved h hu hfree
  · rw [hrun]
    exact h

end Directory

end Accounts
