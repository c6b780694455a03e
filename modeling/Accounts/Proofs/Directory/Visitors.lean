import Accounts.Proofs.Directory.Alone
import Accounts.Proofs.Directory.Faults
import Accounts.Proofs.Directory.SaveOutcome

/-!
# A save among whole saves of others

Between any two calls of a save of a stored user, other directories make whole saves of other users.
If the save fails, the old record is back. Its values lead to it as well, except for those that a
visitor has usurped: while the new record stood, a value that only the old one has looked like a
leftover (`failed_save_keeps_iff`).
-/
namespace Accounts.Directory

open Backend Program

/-- The tables, how many calls the save has made, and the visits so far: the user that was saved and
the tables that were found. -/
structure Busy where
  tables : Tables
  calls : Nat
  visits : List (Tables × User)

namespace Busy

def visit (s : Busy) (c : User) : Busy :=
  { s with tables := (runAlone (save c) s.tables).2, visits := (s.tables, c) :: s.visits }

def host (s : Busy) (visitors : List User) : Busy := visitors.foldl visit s

/-- Before its n-th call these users are saved through other directories. -/
def serve (visitors : Nat → List User) : Handler Backend.interface Busy := fun r s =>
  let s := s.host (visitors s.calls)
  (.ok (Tables.respond r s.tables).1,
    { s with tables := (Tables.respond r s.tables).2, calls := s.calls + 1 })

end Busy

/-- The save of `u` among these visitors; the last of them come after its last call. -/
def saveAmong (visitors : Nat → List User) (u : User) (t : Tables) :
    Except DirectoryError Unit × Busy :=
  let (r, s) := (save u).run.run (serve (Busy.serve visitors)) ⟨t, 0, []⟩
  (r, s.host (visitors s.calls))

/-- A visitor that came while the record of `u` stood took the value from it. -/
def Usurped (u : User) (visits : List (Tables × User)) (f : UniqueField) (key : String) : Prop :=
  ∃ v ∈ visits, v.1.user? u.id = some u ∧ v.1.entry f.index key = some u.id ∧
    (runAlone (save v.2) v.1).2.entry f.index key ≠ some u.id

/-- Users other than that of `id`. -/
def Strangers (id : String) (visitors : List User) : Prop := ∀ c ∈ visitors, c.id ≠ id ∧ c.IsDated

/-- No call fails; strangers come before it. -/
def among (id : String) : Calls interface Busy
  | .backend r, Q, s => ∀ visitors, Strangers id visitors → ∀ n,
    Q (.ok (Tables.respond r (s.host visitors).tables).1)
      ⟨(Tables.respond r (s.host visitors).tables).2, n, (s.host visitors).visits⟩
  | .lock, Q, s => Q () s
  | .unlock, Q, s => Q () s

instance (id : String) : (among id).Monotone := by
  refine ⟨fun {c Q R s} hQR h => ?_⟩
  cases c with
  | backend r => exact fun visitors hvisitors n => hQR _ _ (h visitors hvisitors n)
  | lock => exact hQR _ _ h
  | unlock => exact hQR _ _ h

variable {old u own c : User} {s : Busy} {t : Tables}

/-! ### Visits -/

/-- While one of the two records stands, the entries of the old values tell which are usurped. -/
structure Watch (old u own : User) (s : Busy) : Prop where
  named : s.tables.Named
  stands : s.tables.user? u.id = some own
  either : own = old ∨ own = u
  leads : ∀ v ∈ old.uniqueValues,
    s.tables.entry v.1.index v.2 = some u.id ↔ ¬ Usurped u s.visits v.1 v.2

theorem named_runAlone_save (hc : c.IsDated) (h : t.Named) :
    (runAlone (save c) t).2.Named := by
  refine ⟨fun {id v} hv => ?_⟩
  obtain ⟨w, hleaves⟩ := runAlone_of_wp (wp_save_leaves ⟨fun _ _ => False, fun _ _ => False⟩ t hc)
  obtain ⟨own, owned, hown, hs⟩ := hleaves.standing
  by_cases hid : id = c.id
  · subst hid
    rcases hown with rfl | rfl
    · have := hs.own.symm.trans hv
      cases this
      rfl
    · exact h.id_eq (hs.own.symm.trans hv)
  · have hsame : (runAlone (save c) t).2.user? id = t.user? id := by
      unfold Tables.user?
      rw [hs.others id hid]
    exact h.id_eq (hsame ▸ hv)

namespace Watch

theorem visit (h : Watch old u own s) (hc : c.id ≠ u.id) (hdated : c.IsDated) :
    Watch old u own (s.visit c) := by
  obtain ⟨hrecord, hkept, hfresh⟩ := runAlone_save_others hdated s.tables hc.symm
  have huser : (s.visit c).tables.user? u.id = s.tables.user? u.id :=
    congrArg (fun x => Option.bind x User.decode?) hrecord
  refine ⟨named_runAlone_save hdated h.named, huser.trans h.stands, h.either, ?_⟩
  rintro ⟨f, key⟩ hv
  have hsplit : Usurped u (s.visit c).visits f key ↔
      (s.tables.user? u.id = some u ∧ s.tables.entry f.index key = some u.id ∧
        (s.visit c).tables.entry f.index key ≠ some u.id) ∨ Usurped u s.visits f key := by
    simp only [Usurped, Busy.visit, List.mem_cons, exists_eq_or_imp]
  rw [hsplit]
  by_cases he : s.tables.entry f.index key = some u.id
  · have hbefore : ¬ Usurped u s.visits f key := (h.leads (f, key) hv).1 he
    rcases h.either with rfl | rfl
    · -- the old record has the value, so no visitor takes it
      have hlead : s.tables.Leads u.id f key := ⟨⟨own, h.stands, User.mem_uniqueValues.1 hv⟩, he⟩
      have hafter : (s.visit c).tables.entry f.index key = some u.id := hkept f key hlead
      simp [hafter, hbefore]
    · simp [h.stands, he, hbefore]
  · have hbefore : Usurped u s.visits f key := by
      by_contra hno
      exact he ((h.leads (f, key) hv).2 hno)
    have hafter : (s.visit c).tables.entry f.index key ≠ some u.id :=
      fun hentry => he (hfresh f.index key hentry)
    simp [hafter, hbefore]

theorem host (h : Watch old u own s) {visitors : List User} (hvisitors : Strangers u.id visitors) :
    Watch old u own (s.host visitors) := by
  induction visitors generalizing s with
  | nil => exact h
  | cons c visitors ih =>
    obtain ⟨⟨hid, hdated⟩, hrest⟩ := List.forall_mem_cons.1 hvisitors
    exact ih (h.visit hid hdated) hrest

/-- A change of entries that does not touch those of the user under the old values. -/
theorem of_entries (h : Watch old u own s) {n : Nat} {t : Tables}
    (hrecord : t.record = s.tables.record)
    (he : ∀ v ∈ old.uniqueValues,
      t.entry v.1.index v.2 = some u.id ↔ s.tables.entry v.1.index v.2 = some u.id) :
    Watch old u own ⟨t, n, s.visits⟩ := by
  have huser := Tables.user?_congr hrecord
  refine ⟨⟨fun {id v} hv => h.named.id_eq (huser ▸ hv)⟩, ?_, h.either, fun v hv => ?_⟩
  · exact (congrFun huser u.id).trans h.stands
  · exact (he v hv).trans (h.leads v hv)

/-- Its other record takes the place of the user's record. -/
theorem write (h : Watch old u own s) {v : User} {n : Nat} (hv : v = old ∨ v = u)
    (hid : v.id = u.id) (hdated : v.IsDated) :
    Watch old u v ⟨s.tables.withRecord u.id (some v.encode), n, s.visits⟩ := by
  have huser (i : String) : (s.tables.withRecord u.id (some v.encode)).user? i =
      if i = u.id then some v else s.tables.user? i := by
    rw [Tables.user?_withRecord, Option.bind_some, User.decode?_encode hdated]
  refine ⟨⟨fun {i w} hw => ?_⟩, ?_, hv, h.leads⟩
  · simp only [huser] at hw
    split at hw
    · next hi =>
      cases hw
      rw [hi, hid]
    · exact h.named.id_eq hw
  · simp only [huser, if_true]

theorem old_id (h : Watch old u own s) (hold : own = old) : old.id = u.id :=
  h.named.id_eq (hold ▸ h.stands)

/-! ### Calls -/

theorem ask (h : Watch old u own s) {r : Request} {Q : Except DirectoryError r.Value → Busy → Prop}
    (hQ : ∀ s' n, Watch old u own s' →
      Q (.ok (Tables.respond r s'.tables).1) ⟨(Tables.respond r s'.tables).2, n, s'.visits⟩) :
    (ask r).run.wp (among u.id) Q s := by
  rw [wp_ask]
  exact fun visitors hvisitors n => hQ _ n (h.host hvisitors)

theorem releaseEntry (h : Watch old u own s) {index key owner : String} {n : Nat}
    (hv : ∀ v ∈ old.uniqueValues, owner = u.id → ¬ (v.1.index = index ∧ v.2 = key)) :
    Watch old u own ⟨(Tables.respond (.releaseEntry index key owner) s.tables).2, n, s.visits⟩ := by
  simp only [Tables.respond]
  split
  · next he =>
    refine h.of_entries rfl fun v hmem => ?_
    rw [Tables.entry_withEntry]
    split
    · next hk =>
      refine iff_of_false (by simp) fun hu => ?_
      rw [hk.1, hk.2, he] at hu
      exact hv v hmem (Option.some.inj hu) hk
    · rfl
  · exact h.of_entries rfl fun v _ => Iff.rfl

theorem releaseAll (h : Watch old u own s) {values : List (UniqueField × String)}
    (hvalues : ∀ v ∈ values, v ∉ old.uniqueValues) :
    (releaseAll u.id values).run.wp (among u.id)
      (fun r s' => r = .ok () ∧ Watch old u own s') s := by
  refine wp_releaseAll h fun v hv s hs => hs.ask fun s' n hs' => hs'.releaseEntry ?_
  rintro w hw - ⟨hi, hk⟩
  have hwv : w = v := Prod.ext (UniqueField.index_injective hi) hk
  exact hvalues v hv (hwv ▸ hw)

end Watch

/-! ### The save -/

/-- Before the write: the old record stands and all its values lead to it. -/
structure Untouched (old u : User) (s : Busy) : Prop extends Watch old u old s where
  owns : ∀ v ∈ old.uniqueValues, s.tables.entry v.1.index v.2 = some u.id

theorem Untouched.host (h : Untouched old u s) {visitors : List User}
    (hvisitors : Strangers u.id visitors) : Untouched old u (s.host visitors) := by
  induction visitors generalizing s with
  | nil => exact h
  | cons c visitors ih =>
    obtain ⟨⟨hid, hdated⟩, hrest⟩ := List.forall_mem_cons.1 hvisitors
    refine ih ⟨h.toWatch.visit hid hdated, fun v hv => ?_⟩ hrest
    exact (runAlone_save_others hdated s.tables hid.symm).2.1 v.1 v.2
      ⟨⟨old, h.stands, User.mem_uniqueValues.1 hv⟩, h.owns v hv⟩

theorem Untouched.of_watch (h : Untouched old u s) {s' : Busy} (hw : Watch old u old s')
    (hvisits : s'.visits = s.visits) : Untouched old u s' where
  toWatch := hw
  owns v hv := (hw.leads v hv).2 (hvisits ▸ (h.leads v hv).1 (h.owns v hv))

theorem Untouched.ask (h : Untouched old u s) {r : Request}
    {Q : Except DirectoryError r.Value → Busy → Prop}
    (hQ : ∀ s' n, Untouched old u s' →
      Q (.ok (Tables.respond r s'.tables).1) ⟨(Tables.respond r s'.tables).2, n, s'.visits⟩) :
    (ask r).run.wp (among u.id) Q s := by
  rw [wp_ask]
  exact fun visitors hvisitors n => hQ _ n (h.host hvisitors)

theorem Untouched.claimEntry (h : Untouched old u s) (f : UniqueField) (key : String) {n : Nat} :
    Untouched old u ⟨(Tables.respond (.claimEntry f.index key u.id) s.tables).2, n, s.visits⟩ ∧
      ((Tables.respond (.claimEntry f.index key u.id) s.tables).1 = true →
        (Tables.respond (.claimEntry f.index key u.id) s.tables).2.entry f.index key =
          some u.id) := by
  simp only [Tables.respond]
  cases he : s.tables.entry f.index key with
  | some owner =>
    refine ⟨h.of_watch (h.of_entries rfl fun v _ => Iff.rfl) rfl, fun hr => ?_⟩
    rw [beq_iff_eq] at hr
    exact hr ▸ he
  | none =>
    refine ⟨h.of_watch (h.of_entries rfl fun v hv => ?_) rfl, fun _ => ?_⟩
    · rw [Tables.entry_withEntry]
      split
      · exact iff_of_true rfl (h.owns v hv)
      · rfl
    · rw [Tables.entry_withEntry, if_pos ⟨rfl, rfl⟩]

theorem Untouched.keeps :
    Keeps Busy.tables (among u.id) u.id old.uniqueValues fun _ => Untouched old u where
  subset h _ := h
  cons h _ := h
  record i h := h.ask fun s' n hs' =>
    ⟨hs'.of_watch (hs'.of_entries rfl fun _ _ => Iff.rfl) rfl, fun _ hx => Except.ok.inj hx⟩
  owner index key h := h.ask fun s' n hs' =>
    ⟨hs'.of_watch (hs'.of_entries rfl fun _ _ => Iff.rfl) rfl, fun _ hx => Except.ok.inj hx⟩
  leftover h hid _ := h.ask fun s' n hs' =>
    hs'.of_watch (hs'.releaseEntry fun _ _ howner => absurd howner hid) rfl
  claimEntry f key h := h.ask fun s' n hs' =>
    ⟨(hs'.claimEntry f key).1, fun hr => (hs'.claimEntry f key (n := n)).2 (Except.ok.inj hr)⟩
  releaseEntry {_ _ v} h _ hkept := h.ask fun s' n hs' => by
    refine hs'.of_watch (hs'.releaseEntry ?_) rfl
    rintro w hw - ⟨hi, hk⟩
    exact hkept ((Prod.ext (UniqueField.index_injective hi) hk : w = v) ▸ hw)

theorem Watch.rollBack (h : Watch old u own s) (hid : old.id = u.id) (hdated : old.IsDated)
    {acquired : List (UniqueField × String)} (hacquired : ∀ v ∈ acquired, v ∉ old.uniqueValues) :
    (rollBack u.id (some old) acquired).run.wp (among u.id)
      (fun r s' => r = .ok () ∧ Watch old u old s') s := by
  unfold Directory.rollBack
  rw [wp_bind_except, wp_attempt]
  refine h.ask fun s' n hs' => ?_
  exact (hs'.write (Or.inl rfl) hid hdated).releaseAll hacquired

theorem wp_saveLocked_among (h : Untouched old u s) (hdated : u.IsDated) :
    (saveLocked u).run.wp (among u.id) (post (fun _ _ => True) (Watch old u old)) s := by
  have hid : old.id = u.id := h.named.id_eq h.stands
  have hold : old.IsDated := by
    obtain ⟨text, -, hd⟩ := Option.bind_eq_some_iff.1 h.stands
    exact User.isDated_of_decode? hd
  have hfail (e : DirectoryError) (s' : Busy) (hs' : Untouched old u s') :
      post (fun (_ : Unit) _ => True) (Watch old u old) (.error e) s' := hs'.toWatch
  unfold saveLocked
  refine wp_seq (Untouched.keeps.checkFree [] h u.uniqueValues) ?_ hfail
  intro _ s₁ h₁
  refine wp_seq (Untouched.keeps.load [] h₁ u.id) ?_ (fun e s' hs' => hfail e s' hs'.1)
  rintro x s₂ ⟨h₂, hload⟩
  obtain rfl : x = some old := (hload x rfl).symm.trans h₂.stands
  change (claimAll u.id old.uniqueValues u.uniqueValues [] >>= _).run.wp _ _ _
  refine wp_seq (Untouched.keeps.claimAll h₂ (List.nil_subset []) (List.nil_subset _)
    (List.Subset.refl _) (fun v hv => by cases hv)) ?_ hfail
  rintro acquired s₃ ⟨h₃, hacquired⟩
  refine wp_seq (R := post (fun _ => Watch old u u) fun _ => False) ?_ ?_ (fun _ _ hs' => hs'.elim)
  · refine wp_orElse (R := post (fun _ => Watch old u u) fun _ => False) ?_ (fun _ _ hs' => hs')
      (fun _ _ hs' => hs'.elim)
    exact h₃.ask fun s' n hs' => hs'.write (Or.inr rfl) rfl hdated
  intro _ s₄ h₄
  refine wp_seq (R := post (fun _ => Watch old u u) (Watch old u old)) ?_ ?_ (fun _ _ hs' => hs')
  · have howner (index key : String) (s : Busy) (hs : Watch old u u s) :
        (ask (.owner index key)).run.wp (among u.id) (fun r s' => Watch old u u s' ∧
          ∀ x, r = .ok x → s'.tables.entry index key = x) s :=
      hs.ask fun s' n hs' =>
        ⟨hs'.of_entries rfl fun _ _ => Iff.rfl, fun _ hx => Except.ok.inj hx⟩
    refine wp_orElse (wp_lostClaim h₄ howner) ?_ ?_
    · exact fun _ _ hs' => hs'.1
    · rintro e s' ⟨hs', -⟩
      exact wp_mono (fun _ _ hr => hr.2) (hs'.rollBack hid hold hacquired)
  intro x s₅ h₅
  cases x with
  | some f =>
    refine wp_seq (h₅.rollBack hid hold hacquired) ?_ (fun _ _ hr => hr.2)
    exact fun _ _ hr => hr.2
  | none =>
    refine wp_mono ?_ (wp_releaseAll (A := fun _ => True) trivial fun v _ s' _ => ?_)
    · rintro r s' ⟨rfl, -⟩
      trivial
    · rw [wp_ask]
      exact fun visitors _ n => trivial

/-- A failed save leaves the old record, with its values except for the usurped ones. -/
theorem wp_save_among (h : Untouched old u s) (hdated : u.IsDated) :
    (save u).run.wp (among u.id) (post (fun _ _ => True) (Watch old u old)) s := by
  unfold save
  cases hvalid : validate u with
  | error e => exact h.toWatch
  | ok _ =>
    change (locked (saveLocked u)).run.wp (among u.id) (post (fun _ _ => True) (Watch old u old)) s
    rw [wp_locked]
    exact wp_saveLocked_among h hdated

theorem among_serve {visitors : Nat → List User} {id : String}
    (hvisitors : ∀ n, Strangers id (visitors n)) (c : Call) (Q : c.Reply → Busy → Prop) (s : Busy)
    (h : among id c Q s) :
    Q (serve (Busy.serve visitors) c s).1 (serve (Busy.serve visitors) c s).2 := by
  cases c with
  | backend r => exact h (visitors s.calls) (hvisitors s.calls) _
  | lock => exact h
  | unlock => exact h

theorem watch_saveAmong (ht : t.Coherent) (hold : t.user? u.id = some old) (hdated : u.IsDated)
    {visitors : Nat → List User} (hvisitors : ∀ n, Strangers u.id (visitors n))
    {e : DirectoryError} (hfailed : (saveAmong visitors u t).1 = .error e) :
    Watch old u old (saveAmong visitors u t).2 := by
  have hstart : Untouched old u ⟨t, 0, []⟩ := by
    have howns (v : UniqueField × String) (hv : v ∈ old.uniqueValues) :
        t.entry v.1.index v.2 = some u.id := ht.owned ⟨old, hold, User.mem_uniqueValues.1 hv⟩
    refine ⟨⟨ht.toNamed, hold, Or.inl rfl, fun v hv => iff_of_true (howns v hv) ?_⟩, howns⟩
    rintro ⟨w, hw, -⟩
    cases hw
  have hend := wp_run_self (among_serve hvisitors) (wp_save_among hstart hdated)
  unfold saveAmong at hfailed ⊢
  rw [show ((save u).run.run (serve (Busy.serve visitors)) ⟨t, 0, []⟩).1 = .error e from hfailed]
    at hend
  exact Watch.host hend (hvisitors _)

/-- After a failed save the user is as it was before: `get` answers the same, and the old record is
found by each of its values, exactly if none of them was usurped. -/
theorem failed_save_keeps_iff (ht : t.Coherent) (hold : t.user? u.id = some old)
    (hdated : u.IsDated) {visitors : Nat → List User}
    (hvisitors : ∀ n, Strangers u.id (visitors n)) {e : DirectoryError}
    (hfailed : (saveAmong visitors u t).1 = .error e) :
    (runAlone (get u.id) (saveAmong visitors u t).2.tables).1 = (runAlone (get u.id) t).1 ∧
      ((∀ field, Selects field old →
          (runAlone (find field) (saveAmong visitors u t).2.tables).1 = .ok old) ↔
        ∀ f key, old.unique? f = some key →
          ¬ Usurped u (saveAmong visitors u t).2.visits f key) := by
  have hw := watch_saveAmong ht hold hdated hvisitors hfailed
  have hfound {f : UniqueField} {key : String} (hk : old.unique? f = some key) :
      (runAlone (findOwner f key) (saveAmong visitors u t).2.tables).1 = .ok old ↔
        ¬ Usurped u (saveAmong visitors u t).2.visits f key := by
    rw [← hw.leads (f, key) (User.mem_uniqueValues.2 hk), runAlone_findOwner_eq_ok_iff_entry]
    constructor
    · rintro ⟨id, he, hid, -⟩
      rw [he, ← hw.named.id_eq hid, hw.old_id rfl]
    · exact fun he => ⟨u.id, he, hw.stands, hk⟩
  constructor
  · by_cases hid : u.id = ""
    · rw [hid]
      rfl
    · rw [runAlone_get_of_user? hid hw.stands, runAlone_get_of_user? hid hold]
  constructor
  · intro hall f key hk
    refine (hfound hk).1 ?_
    cases f with
    | email => exact hall (.email key) hk
    | loginName => exact hall (.loginName key) hk
    | resetToken => exact hall (.resetToken key) hk
  · intro hnone field hfield
    cases field with
    | id id =>
      obtain ⟨hne, rfl⟩ := hfield
      have hid : old.id = u.id := hw.old_id rfl
      rw [hid] at hne ⊢
      exact runAlone_get_of_user? hne hw.stands
    | loginName key => exact (hfound hfield).2 (hnone _ _ hfield)
    | email key => exact (hfound hfield).2 (hnone _ _ hfield)
    | resetToken key => exact (hfound hfield).2 (hnone _ _ hfield)

/-! ### A value lost for good -/

/-- Alice with a new email address. -/
def moved : User := .create "a" "Alice" "alice@example.org" "alice" "hash"

/-- Just before her new record is written somebody takes the new address, just after it the old. -/
def usurpers : Nat → List User
  | 5 => [.create "b" "Bob" "alice@example.org" "bob" "hash"]
  | 6 => [.create "c" "Carol" "alice@example.com" "carol" "hash"]
  | _ => []

theorem strangers_usurpers (n : Nat) : Strangers moved.id (usurpers n) := by
  unfold usurpers
  split
  · simp [Strangers, moved, User.create, User.IsDated]
  · simp [Strangers, moved, User.create, User.IsDated]
  · simp [Strangers]

theorem saveAmong_usurpers :
    (saveAmong usurpers moved aliceAndLeftover).1 = .error (.taken .email) ∧
      (saveAmong usurpers moved aliceAndLeftover).2.tables.entry "emails" "alice@example.com" =
        some "c" := by
  decide +kernel

theorem user?_aliceAndLeftover : aliceAndLeftover.user? moved.id = some alice := by
  have hu (id : String) : aliceAndLeftover.user? id = if id = "a" then some alice else none :=
    Tables.user?_saved isDated_create id
  rw [hu, if_pos (by decide)]

theorem not_find_usurpers :
    (runAlone (find (.email "alice@example.com"))
      (saveAmong usurpers moved aliceAndLeftover).2.tables).1 ≠ .ok alice := by
  intro hfind
  have hw := watch_saveAmong indexed_aliceAndLeftover.toCoherent user?_aliceAndLeftover
    isDated_create strangers_usurpers saveAmong_usurpers.1
  obtain ⟨id, he, hid, -⟩ := runAlone_findOwner_eq_ok_iff_entry.1 hfind
  simp only [UniqueField.index, saveAmong_usurpers.2, Option.some.injEq] at he
  have hid : alice.id = id := hw.named.id_eq hid
  rw [← he] at hid
  exact absurd hid (by decide)

/-- Alice is no longer found by her address, so one of her values was usurped. -/
theorem failed_save_keeps_iff_usurpers :
    ∃ f key, alice.unique? f = some key ∧
      Usurped moved (saveAmong usurpers moved aliceAndLeftover).2.visits f key := by
  by_contra hnone
  push Not at hnone
  have hkept := failed_save_keeps_iff indexed_aliceAndLeftover.toCoherent user?_aliceAndLeftover
    isDated_create strangers_usurpers saveAmong_usurpers.1
  exact not_find_usurpers (hkept.2.2 hnone (.email "alice@example.com") rfl)

/-- Two whole saves around the write of a save that then fails: its user has lost its address. -/
theorem lost_address :
    aliceAndLeftover.Coherent ∧ aliceAndLeftover.user? moved.id = some alice ∧
      (∀ n, Strangers moved.id (usurpers n)) ∧
      (saveAmong usurpers moved aliceAndLeftover).1 = .error (.taken .email) ∧
      Selects (.email "alice@example.com") alice ∧
      (runAlone (find (.email "alice@example.com"))
        (saveAmong usurpers moved aliceAndLeftover).2.tables).1 ≠ .ok alice :=
  ⟨indexed_aliceAndLeftover.toCoherent, user?_aliceAndLeftover, strangers_usurpers,
    saveAmong_usurpers.1, rfl, not_find_usurpers⟩

end Accounts.Directory
