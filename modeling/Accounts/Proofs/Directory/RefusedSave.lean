import Accounts.Proofs.Directory.Visitors

/-!
# What a refused save leaves

On any tables a save alone can fail only before it claims anything: its user is incomplete, a value
is taken, or a record that it has to read is no user. Until then it has done nothing but remove
entries whose owner is known not to have the value (`pruned_of_runAlone_save`), and those no search
goes by (`runAlone_find_of_pruned`). On coherent tables every save, refused or not, leaves coherent
tables (`coherent_runAlone_save`).
-/
namespace Accounts.Backend.Tables

/-- Whatever of `t` is gone in `t'` is an entry whose owner lacks the value. -/
structure Pruned (t t' : Tables) : Prop where
  record : t'.record = t.record
  entry : ∀ f key, t'.entry (UniqueField.index f) key = t.entry f.index key ∨
    t'.entry f.index key = none ∧ ∃ owner, t.entry f.index key = some owner ∧ t.Lacks owner f key

variable {t t' t'' : Tables} {id owner : String} {f : UniqueField} {key : String}

namespace Pruned

theorem refl (t : Tables) : t.Pruned t := ⟨rfl, fun _ _ => Or.inl rfl⟩

theorem trans (h : t.Pruned t') (h' : t'.Pruned t'') : t.Pruned t'' where
  record := h'.record.trans h.record
  entry f key := by
    rcases h'.entry f key with hsame | ⟨hgone, owner, howner, hlacks⟩
    · rw [hsame]
      exact h.entry f key
    · refine Or.inr ⟨hgone, ?_⟩
      rcases h.entry f key with hsame | ⟨hgone', hlost⟩
      · exact ⟨owner, hsame.symm.trans howner, hlacks.congr h.record⟩
      · exact hlost

/-- An entry whose owner lacks the value is removed. -/
theorem withEntry (howner : t.entry f.index key = some owner)
    (hlacks : t.Lacks owner f key) : t.Pruned (t.withEntry f.index key none) where
  record := rfl
  entry g k := by
    rw [entry_withEntry]
    split
    · next hk =>
      obtain ⟨hindex, rfl⟩ := hk
      obtain rfl := UniqueField.index_injective hindex
      exact Or.inr ⟨rfl, owner, howner, hlacks⟩
    · exact Or.inl rfl

/-- The entries that lead to users with the values are there. -/
theorem entry_of_carries (h : t.Pruned t') (he : t.entry f.index key = some id)
    (hc : t.Carries id f key) : t'.entry f.index key = some id := by
  rcases h.entry f key with hsame | ⟨-, owner, howner, hlacks⟩
  · exact hsame.trans he
  · rw [he] at howner
    cases howner
    exact absurd hc hlacks.not_carries

theorem coherent (h : t.Pruned t') (ht : t.Coherent) : t'.Coherent where
  id_eq {id u} hu := ht.id_eq (user?_congr h.record ▸ hu)
  owned {id f key} hc := by
    have hcarries : t.Carries id f key := (carries_congr h.record).1 hc
    exact h.entry_of_carries (ht.owned hcarries) hcarries

end Pruned

end Accounts.Backend.Tables

namespace Accounts.Directory

open Backend Program Tables

variable {t t' : Tables} {u : User} {id owner : String} {f : UniqueField} {key : String}

/-! ### Searches -/

/-- Looking a record up depends on the records only. -/
theorem runAlone_load_congr (hrecord : t'.record = t.record) (id : String) :
    (runAlone (load id) t').1 = (runAlone (load id) t).1 := by
  unfold load
  rw [runAlone_bind_ok (runAlone_ask _), runAlone_bind_ok (runAlone_ask _)]
  simp only [Tables.respond, hrecord]
  cases t.record id with
  | none => rfl
  | some text =>
    simp only
    cases User.decode? text <;> rfl

theorem runAlone_eq {α : Type} {a : Action α} (h : (runAlone a t).2 = t) :
    runAlone a t = ((runAlone a t).1, t) := Prod.ext rfl h

theorem runAlone_get_congr (hrecord : t'.record = t.record) (id : String) :
    (runAlone (get id) t').1 = (runAlone (get id) t).1 := by
  unfold get
  by_cases hid : id = ""
  · rw [if_pos hid]
    rfl
  · rw [if_neg hid]
    simp only
    rw [runAlone_bind, runAlone_bind, runAlone_eq (runAlone_load_tables (t := t) id),
      runAlone_eq (runAlone_load_tables (t := t') id), runAlone_load_congr hrecord]
    rcases (runAlone (load id) t).1 with e | _ | u <;> rfl

/-- A search that comes upon an owner without the value finds nothing. -/
theorem runAlone_findOwner_of_lacks (howner : t.entry f.index key = some owner)
    (hlacks : t.Lacks owner f key) : (runAlone (findOwner f key) t).1 = .error .notFound := by
  obtain ⟨r, hrun, hr⟩ := runAlone_findOwner_answer t f key
  rw [hrun]
  cases hr with
  | nobody => rfl
  | @found id u howner' hu hkey =>
    rw [howner] at howner'
    cases howner'
    exact absurd ⟨u, hu, hkey⟩ hlacks.not_carries
  | unreadable howner' hbad =>
    rw [howner] at howner'
    cases howner'
    exact absurd hlacks hbad.not_lacks

theorem runAlone_findOwner_congr (hrecord : t'.record = t.record)
    (hentry : t'.entry f.index key = t.entry f.index key) :
    (runAlone (findOwner f key) t').1 = (runAlone (findOwner f key) t).1 := by
  unfold findOwner
  rw [runAlone_bind_ok (runAlone_ask _), runAlone_bind_ok (runAlone_ask _)]
  simp only [Tables.respond, hentry]
  cases t.entry f.index key with
  | none => rfl
  | some owner =>
    simp only
    rw [runAlone_bind, runAlone_bind, runAlone_eq (runAlone_load_tables (t := t) owner),
      runAlone_eq (runAlone_load_tables (t := t') owner), runAlone_load_congr hrecord]
    rcases (runAlone (load owner) t).1 with e | _ | u
    · rfl
    · rfl
    · simp only
      split <;> rfl

/-- No search goes by an entry that has been removed. -/
theorem runAlone_findOwner_of_pruned (h : t.Pruned t') (f : UniqueField) (key : String) :
    (runAlone (findOwner f key) t').1 = (runAlone (findOwner f key) t).1 := by
  rcases h.entry f key with hsame | ⟨hgone, owner, howner, hlacks⟩
  · exact runAlone_findOwner_congr h.record hsame
  · rw [runAlone_findOwner_of_lacks howner hlacks]
    unfold findOwner
    rw [runAlone_bind_ok (runAlone_ask _)]
    simp only [Tables.respond, hgone]
    rfl

/-- A search answers the same, a failure included, when such entries are gone. -/
theorem runAlone_find_of_pruned (h : t.Pruned t') (field : SearchField) :
    (runAlone (find field) t').1 = (runAlone (find field) t).1 := by
  cases field with
  | id id => exact runAlone_get_congr h.record id
  | loginName key => exact runAlone_findOwner_of_pruned h .loginName key
  | email key => exact runAlone_findOwner_of_pruned h .email key
  | resetToken key => exact runAlone_findOwner_of_pruned h .resetToken key

/-! ### The save -/

theorem runAlone_holds_tables : (runAlone (holds f key owner) t).2 = t :=
  runAlone_bind_tables (runAlone_load_tables owner) fun _ => rfl

theorem lacks_of_runAlone_holds (h : (runAlone (holds f key owner) t).1 = .ok false) :
    t.Lacks owner f key := by
  unfold holds at h
  obtain ⟨r, hload, hr⟩ := runAlone_load_answer t owner
  rw [runAlone_bind, hload] at h
  cases hr with
  | absent hnone => exact Or.inl hnone
  | @found u hu =>
    have hno : (u.unique? f == some key) = false := Except.ok.inj h
    exact Or.inr ⟨u, hu, ne_of_beq_false hno⟩
  | unreadable hu => cases h

/-- The entry is nobody's or the user's own. -/
def Free (t : Tables) (id : String) (v : UniqueField × String) : Prop :=
  t.entry v.1.index v.2 = none ∨ t.entry v.1.index v.2 = some id

theorem Free.of_pruned {v : UniqueField × String} (h : Free t id v) (hpruned : t.Pruned t') :
    Free t' id v := by
  rcases hpruned.entry v.1 v.2 with hsame | ⟨hgone, -⟩
  · unfold Free
    rwa [hsame]
  · exact Or.inl hgone

theorem pruned_of_runAlone_isTaken (f : UniqueField) (key id : String) (t : Tables) :
    t.Pruned (runAlone (isTaken f key id) t).2 ∧ ((runAlone (isTaken f key id) t).1 = .ok false →
      Free (runAlone (isTaken f key id) t).2 id (f, key)) := by
  unfold isTaken
  rw [runAlone_bind_ok (runAlone_ask _)]
  simp only [Tables.respond]
  cases howner : t.entry f.index key with
  | none => exact ⟨Pruned.refl t, fun _ => Or.inl howner⟩
  | some owner =>
    simp only
    by_cases hid : owner = id
    · subst hid
      rw [if_pos rfl]
      exact ⟨Pruned.refl t, fun _ => Or.inr howner⟩
    · rw [if_neg hid, runAlone_bind, runAlone_eq runAlone_holds_tables]
      cases hholds : (runAlone (holds f key owner) t).1 with
      | error e => exact ⟨Pruned.refl t, fun h => by cases h⟩
      | ok held =>
        cases held with
        | true => exact ⟨Pruned.refl t, fun h => by cases h⟩
        | false =>
          have hgone : runAlone (ask (.releaseEntry f.index key owner)) t =
              (.ok (), t.withEntry f.index key none) := by
            rw [runAlone_ask]
            simp only [Tables.respond, howner, if_true]
          simp only [Bool.false_eq_true, if_false]
          rw [runAlone_bind_ok hgone]
          exact ⟨Pruned.withEntry howner (lacks_of_runAlone_holds hholds),
            fun _ => Or.inl (if_pos ⟨rfl, rfl⟩)⟩

theorem pruned_of_runAlone_checkFree (id : String) (values : List (UniqueField × String))
    (t : Tables) :
    t.Pruned (runAlone (checkFree id values) t).2 ∧
      ((runAlone (checkFree id values) t).1 = .ok () →
        ∀ v ∈ values, Free (runAlone (checkFree id values) t).2 id v) := by
  induction values generalizing t with
  | nil => exact ⟨Pruned.refl t, fun _ v hv => by cases hv⟩
  | cons v values ih =>
    obtain ⟨hpruned, hfree⟩ := pruned_of_runAlone_isTaken v.1 v.2 id t
    rw [checkFree, runAlone_bind]
    rcases htaken : runAlone (isTaken v.1 v.2 id) t with ⟨e | taken, t₁⟩
    · rw [htaken] at hpruned
      exact ⟨hpruned, fun h => by cases h⟩
    rw [htaken] at hpruned hfree
    cases taken with
    | true => exact ⟨hpruned, fun h => by cases h⟩
    | false =>
      obtain ⟨hrest, hvalues⟩ := ih t₁
      refine ⟨hpruned.trans hrest, fun hok => ?_⟩
      exact List.forall_mem_cons.2 ⟨(hfree rfl).of_pruned hrest, hvalues hok⟩

/-- A save alone that fails, on whatever tables, has only removed entries that no search goes by. -/
theorem pruned_of_runAlone_save {e : DirectoryError} (h : (runAlone (save u) t).1 = .error e) :
    t.Pruned (runAlone (save u) t).2 := by
  by_cases hu : u.IsIncomplete
  · rw [runAlone_save_of_incomplete hu]
    exact Pruned.refl t
  rw [runAlone_save_of_complete hu] at h ⊢
  obtain ⟨hpruned, hfree⟩ := pruned_of_runAlone_checkFree u.id u.uniqueValues t
  rcases hcheck : runAlone (checkFree u.id u.uniqueValues) t with ⟨e' | _, t₁⟩
  · rw [hcheck] at hpruned
    have hstop : runAlone (saveLocked u) t = (.error e', t₁) := runAlone_bind_error hcheck _
    rwa [hstop]
  rw [hcheck] at hpruned hfree
  cases hload : (runAlone (load u.id) t₁).1 with
  | error e' =>
    have hread : runAlone (load u.id) t₁ = (.error e', t₁) :=
      (runAlone_eq (runAlone_load_tables u.id)).trans (by rw [hload])
    have hstop : runAlone (saveLocked u) t = (.error e', t₁) := by
      unfold saveLocked
      rw [runAlone_bind_ok hcheck, runAlone_bind_error hread]
    rwa [hstop]
  | ok old =>
    -- then nothing is left that could fail
    have hread : runAlone (load u.id) t₁ = (.ok old, t₁) :=
      (runAlone_eq (runAlone_load_tables u.id)).trans (by rw [hload])
    rw [runAlone_saveLocked_of_free hcheck (hfree rfl) hread] at h
    cases h

/-- A save alone keeps coherent tables coherent, whether or not it succeeds. -/
theorem coherent_runAlone_save (ht : t.Coherent) (hu : u.IsDated) :
    (runAlone (save u) t).2.Coherent := by
  cases hsave : (runAlone (save u) t).1 with
  | error e => exact (pruned_of_runAlone_save hsave).coherent ht
  | ok _ =>
    obtain ⟨w, hleaves⟩ :=
      runAlone_of_wp (wp_save_leaves ⟨fun _ _ => False, fun _ _ => False⟩ t hu)
    rw [hsave] at hleaves
    have hstands : Standing t u (some u) u.uniqueValues true ⟨(runAlone (save u) t).2, w⟩ := hleaves
    refine ⟨named_runAlone_save hu ht.toNamed, ⟨fun {id f key} hc => ?_⟩⟩
    by_cases hid : id = u.id
    · subst hid
      obtain ⟨v, hv, hk⟩ := hc
      cases hstands.own.symm.trans hv
      exact hstands.owns (f, key) (User.mem_uniqueValues.2 hk)
    · have hbefore : t.Carries id f key := (hstands.carries hid).1 hc
      exact hstands.kept hid ⟨hbefore, ht.owned hbefore⟩

end Accounts.Directory
