import Accounts.Proofs.Directory.Hazards
import Accounts.Proofs.Directory.Phases
import Accounts.Proofs.Program.Simulation

/-!
# A save on any tables while calls fail

`faulty F` lets the calls of a save fail as `F` says, with or without their effect, on tables of
which nothing is assumed. A save keeps the records of the others and every entry that leads to one
of them who has its value, and gives nobody else an entry (`Standing`). In the end its record is
the new one with all its values leading to it, or the old one with those that led to it before, or,
if a write of the record can tear, the new one without the values that were new (`Leaves`).
-/
namespace Accounts.Backend.Tables

/-- The value leads to the stored user that has it. -/
def Leads (t : Tables) (id : String) (f : UniqueField) (key : String) : Prop :=
  t.Carries id f key ∧ t.entry f.index key = some id

theorem carries_of_record {t : Tables} {u : User} {f : UniqueField} {key : String}
    (h : t.record u.id = some u.encode) (hu : u.IsDated) (hk : u.unique? f = some key) :
    t.Carries u.id f key := by
  refine ⟨u, ?_, hk⟩
  unfold user?
  rw [h, Option.bind_some, User.decode?_encode hu]

/-- No value of `u` leads to another user that has it. -/
def Vacant (t : Tables) (u : User) : Prop :=
  ∀ {id : String} {f : UniqueField} {key : String}, id ≠ u.id → t.Leads id f key →
    u.unique? f ≠ some key

/-- The values of the stored user that lead to it. -/
def leadingTo (t : Tables) (id : String) : List (UniqueField × String) :=
  (t.valuesOf id).filter fun v => t.entry v.1.index v.2 = some id

theorem mem_valuesOf {t : Tables} {id : String} {f : UniqueField} {key : String} :
    (f, key) ∈ t.valuesOf id ↔ t.Carries id f key :=
  among_index.symm.trans among_valuesOf

-- Named, so that membership of a value is decided by one term wherever it is unfolded.
instance : LawfulBEq (UniqueField × String) := inferInstance

/-- The values that the user of `u.id` had before, of which a save of `u` makes sure that they lead
to it. -/
def secured (t : Tables) (u : User) : List (UniqueField × String) :=
  (u.uniqueValues ++ t.leadingTo u.id).filter fun v => v ∈ t.valuesOf u.id

theorem leadingTo_subset_secured (t : Tables) (u : User) : t.leadingTo u.id ⊆ t.secured u := by
  intro v hv
  exact List.mem_filter.2
    ⟨List.mem_append_right _ hv, decide_eq_true (List.mem_of_mem_filter hv)⟩

theorem mem_leadingTo {t : Tables} {id : String} {f : UniqueField} {key : String} :
    (f, key) ∈ t.leadingTo id ↔ t.Leads id f key := by
  simp [leadingTo, mem_valuesOf, Leads]

/-- Each value of a stored user leads to it. Records may be no users, and entries leftovers. -/
def AllLead (t : Tables) : Prop :=
  ∀ (id : String) (f : UniqueField) (key : String), t.Carries id f key →
    t.entry f.index key = some id

theorem AllLead.uniqueValues_subset {t : Tables} (h : t.AllLead) {id : String} {v : User}
    (hv : t.user? id = some v) : v.uniqueValues ⊆ t.leadingTo id := by
  rintro ⟨f, key⟩ hk
  have hc : t.Carries id f key := ⟨v, hv, User.mem_uniqueValues.1 hk⟩
  exact mem_leadingTo.2 ⟨hc, h id f key hc⟩

end Accounts.Backend.Tables

namespace Accounts.Directory

open Backend Program

/-- Which calls can fail, given whether the record has been written: without an effect, or with. -/
structure Faults where
  refused : Bool → Request → Prop
  lost : Bool → Request → Prop

/-- The write of the record can fail although it took effect, or putting the old one back can fail
without an effect. -/
def Faults.Tearing (F : Faults) : Prop :=
  (∃ id text, F.lost false (.setRecord id text)) ∨
    (∃ id text, F.refused true (.setRecord id text)) ∨
    ∃ id, F.refused true (.deleteRecord id)

def faulty (F : Faults) : Calls interface Scene
  | .backend r, Q, s =>
    Q (.ok (Tables.respond r s.tables).1) (s.after r (Tables.respond r s.tables).2) ∧
      (F.refused s.written r → ∀ e, Q (.error e) (s.after r s.tables)) ∧
      (F.lost s.written r → ∀ e, Q (.error e) (s.after r (Tables.respond r s.tables).2))
  | .lock, Q, s => Q () s
  | .unlock, Q, s => Q () s

instance (F : Faults) : (faulty F).Monotone := by
  refine ⟨fun {c Q R s} hQR h => ?_⟩
  cases c with
  | backend r =>
    obtain ⟨hdone, hrefused, hlost⟩ := h
    exact ⟨hQR _ _ hdone, fun hr e => hQR _ _ (hrefused hr e), fun hr e => hQR _ _ (hlost hr e)⟩
  | lock => exact hQR _ _ h
  | unlock => exact hQR _ _ h

/-- The record of `u.id` holds `own`, these values lead to it, and the others have lost nothing
that they had in `b`. -/
structure Standing (b : Tables) (u : User) (own : Option User)
    (owned : List (UniqueField × String)) (written : Bool) (s : Scene) : Prop where
  others : ∀ id, id ≠ u.id → s.tables.record id = b.record id
  kept : ∀ {id f key}, id ≠ u.id → b.Leads id f key → s.tables.entry f.index key = some id
  fresh : ∀ {id index key}, id ≠ u.id → s.tables.entry index key = some id →
    b.entry index key = some id
  own : s.tables.user? u.id = own
  owns : ∀ v ∈ owned, s.tables.entry v.1.index v.2 = some u.id
  written : s.written = written

variable {F : Faults} {b : Tables} {u : User} {own : Option User}
  {owned : List (UniqueField × String)} {w : Bool} {s : Scene}

namespace Standing

theorem of_subset (h : Standing b u own owned w s) {owned' : List (UniqueField × String)}
    (hsub : owned' ⊆ owned) : Standing b u own owned' w s :=
  ⟨h.others, h.kept, h.fresh, h.own, fun v hv => h.owns v (hsub hv), h.written⟩

theorem cons (h : Standing b u own owned w s) {v : UniqueField × String}
    (hv : s.tables.entry v.1.index v.2 = some u.id) : Standing b u own (v :: owned) w s :=
  ⟨h.others, h.kept, h.fresh, h.own, List.forall_mem_cons.2 ⟨hv, h.owns⟩, h.written⟩

/-- Another user still has the values that it had. -/
theorem carries (h : Standing b u own owned w s) {id : String} (hid : id ≠ u.id) {f : UniqueField}
    {key : String} : s.tables.Carries id f key ↔ b.Carries id f key := by
  unfold Tables.Carries Tables.user?
  rw [h.others id hid]

theorem leads (h : Standing b u own owned w s) {id : String} (hid : id ≠ u.id) {f : UniqueField}
    {key : String} (hb : b.Leads id f key) : s.tables.Leads id f key :=
  ⟨(h.carries hid).2 hb.1, h.kept hid hb⟩

/-- Where all values of `u` lead to it, none leads to anybody else. -/
theorem vacant (h : Standing b u own owned w s) (hvalues : u.uniqueValues ⊆ owned) :
    b.Vacant u := by
  intro id f key hid hb hk
  have hown : s.tables.entry f.index key = some u.id :=
    h.owns (f, key) (hvalues (User.mem_uniqueValues.2 hk))
  rw [h.kept hid hb] at hown
  exact hid (Option.some.inj hown)

/-- A change of one entry: one of `u` at most is set, and none of another user's is taken. -/
theorem of_withEntry (h : Standing b u own owned w s) {index key : String}
    {owner : Option String} (howner : owner = none ∨ owner = some u.id)
    (hkept : ∀ {id f}, id ≠ u.id → b.Leads id f key → f.index ≠ index)
    (howns : ∀ v ∈ owned, v.1.index = index → v.2 = key → owner = some u.id) :
    Standing b u own owned w ⟨s.tables.withEntry index key owner, w⟩ where
  others := h.others
  kept {id f k} hid hb := by
    rw [Tables.entry_withEntry, if_neg, h.kept hid hb]
    rintro ⟨hi, rfl⟩
    exact hkept hid hb hi
  fresh {id i k} hid he := by
    rw [Tables.entry_withEntry] at he
    split at he
    · rcases howner with rfl | rfl
      · cases he
      · exact absurd (Option.some.inj he).symm hid
    · exact h.fresh hid he
  own := by
    have huser : (s.tables.withEntry index key owner).user? = s.tables.user? :=
      Tables.user?_congr rfl
    exact (congrFun huser u.id).trans h.own
  owns v hv := by
    rw [Tables.entry_withEntry]
    split
    · next hk => exact howns v hv hk.1 hk.2
    · exact h.owns v hv
  written := rfl

theorem same (h : Standing b u own owned w s) : Standing b u own owned w ⟨s.tables, w⟩ :=
  ⟨h.others, h.kept, h.fresh, h.own, h.owns, rfl⟩

/-! ### Calls -/

/-- A call on entries or a look at a record. -/
theorem ask (h : Standing b u own owned w s) {r : Request} (hr : isWrite r = false)
    {Q : Except DirectoryError r.Value → Scene → Prop}
    (hstanding : Standing b u own owned w ⟨(Tables.respond r s.tables).2, w⟩)
    (hok : Q (.ok (Tables.respond r s.tables).1) ⟨(Tables.respond r s.tables).2, w⟩)
    (herror : ∀ e s', Standing b u own owned w s' → Q (.error e) s') :
    (ask r).run.wp (faulty F) Q s := by
  have hafter (t : Tables) : s.after r t = ⟨t, w⟩ := by
    unfold Scene.after
    rw [hr, Bool.or_false, h.written]
  rw [wp_ask]
  refine ⟨?_, fun _ e => ?_, fun _ e => ?_⟩
  · rw [hafter]
    exact hok
  · rw [hafter]
    exact herror _ _ h.same
  · rw [hafter]
    exact herror _ _ hstanding

theorem claimEntry (h : Standing b u own owned w s) (f : UniqueField) (key : String) :
    Standing b u own owned w ⟨(Tables.respond (.claimEntry f.index key u.id) s.tables).2, w⟩ ∧
      ((Tables.respond (.claimEntry f.index key u.id) s.tables).1 = true →
        (Tables.respond (.claimEntry f.index key u.id) s.tables).2.entry f.index key =
          some u.id) := by
  simp only [Tables.respond]
  cases he : s.tables.entry f.index key with
  | some owner =>
    refine ⟨h.same, fun hr => ?_⟩
    rw [beq_iff_eq] at hr
    rw [← hr]
    exact he
  | none =>
    refine ⟨h.of_withEntry (Or.inr rfl) ?_ (fun _ _ _ _ => rfl), fun _ => ?_⟩
    · intro id g hid hb hi
      have := h.kept hid hb
      rw [hi, he] at this
      cases this
    · rw [Tables.entry_withEntry, if_pos ⟨rfl, rfl⟩]

theorem releaseEntry (h : Standing b u own owned w s) {f : UniqueField} {key owner : String}
    (howner : ∀ {id}, id ≠ u.id → b.Leads id f key → id ≠ owner)
    (howns : owner = u.id → (f, key) ∉ owned) :
    Standing b u own owned w
      ⟨(Tables.respond (.releaseEntry f.index key owner) s.tables).2, w⟩ := by
  simp only [Tables.respond]
  split
  · next he =>
    refine h.of_withEntry (Or.inl rfl) ?_ ?_
    · intro id g hid hb hi
      cases UniqueField.index_injective hi
      have := h.kept hid hb
      rw [he] at this
      exact howner hid hb (Option.some.inj this).symm
    · rintro ⟨g, k⟩ hv hi rfl
      cases UniqueField.index_injective hi
      have := h.owns (g, k) hv
      rw [he] at this
      exact absurd hv (howns (Option.some.inj this))
  · exact h.same

theorem keeps : Keeps Scene.tables (faulty F) u.id []
    (fun owned s => Standing b u own owned w s) where
  subset h hsub := h.of_subset hsub
  cons h hv := h.cons hv
  record i h := by
    refine h.ask rfl h.same ⟨h.same, fun x hx => ?_⟩ fun e s' hs' => ⟨hs', fun x hx => by cases hx⟩
    cases hx
    rfl
  owner index key h := by
    refine h.ask rfl h.same ⟨h.same, fun x hx => ?_⟩ fun e s' hs' => ⟨hs', fun x hx => by cases hx⟩
    cases hx
    rfl
  leftover h hne hno := by
    refine (fun hs => h.ask rfl hs hs fun e s' hs' => hs') (h.releaseEntry ?_ fun e => absurd e hne)
    rintro id hid hb rfl
    exact hno ((h.carries hid).2 hb.1)
  claimEntry f key h := by
    obtain ⟨hs, he⟩ := h.claimEntry f key
    refine h.ask rfl hs ⟨hs, fun hr => he ?_⟩ fun e s' hs' => ⟨hs', fun hr => by cases hr⟩
    exact Except.ok.inj hr
  releaseEntry h hv _ := by
    have hs := h.releaseEntry (fun hid _ => hid) fun _ => hv
    exact h.ask rfl hs hs fun e s' hs' => hs'

/-! ### Writing the record and putting it back -/

theorem of_withRecord (h : Standing b u own owned w s) (text : Option String) :
    Standing b u (text.bind User.decode?) owned true ⟨s.tables.withRecord u.id text, true⟩ where
  others id hid := by
    rw [Tables.record_withRecord, if_neg hid]
    exact h.others id hid
  kept hid hb := h.kept hid hb
  fresh hid he := h.fresh hid he
  own := by rw [Tables.user?_withRecord, if_pos rfl]
  owns v hv := h.owns v hv
  written := rfl

theorem of_withUser (h : Standing b u own owned w s) {x : Option User}
    (hx : ∀ y, x = some y → y.IsDated) :
    Standing b u x owned true ⟨s.tables.withRecord u.id (x.map User.encode), true⟩ := by
  have hown : (x.map User.encode).bind User.decode? = x := by
    cases x with
    | none => rfl
    | some y => rw [Option.map_some, Option.bind_some, User.decode?_encode (hx y rfl)]
  have hwritten := h.of_withRecord (x.map User.encode)
  rwa [hown] at hwritten

/-- The write succeeds, or fails without an effect, or tears. -/
theorem write (h : Standing b u own owned false s) (hu : u.IsDated) :
    (Directory.ask (.setRecord u.id u.encode)).run.wp (faulty F)
      (post (fun _ => Standing b u (some u) owned true) (fun s' => Standing b u own owned true s' ∨
        F.Tearing ∧ Standing b u (some u) owned true s')) s := by
  have hafter (t : Tables) : s.after (.setRecord u.id u.encode) t = ⟨t, true⟩ := by
    unfold Scene.after
    rw [h.written]
    rfl
  have hnext : Standing b u (some u) owned true ⟨s.tables.withRecord u.id (some u.encode), true⟩ :=
    h.of_withUser (x := some u) fun y hy => by cases hy; exact hu
  rw [wp_ask]
  refine ⟨?_, fun _ e => ?_, fun hlost e => ?_⟩
  · rw [hafter]
    exact hnext
  · rw [hafter]
    exact Or.inl ⟨h.others, h.kept, h.fresh, h.own, h.owns, rfl⟩
  · rw [hafter]
    rw [h.written] at hlost
    exact Or.inr ⟨Or.inl ⟨_, _, hlost⟩, hnext⟩

/-- The call that puts the old record back does so, unless it is refused. -/
theorem putBack (h : Standing b u (some u) owned true s) {old : Option User}
    (hold : ∀ x, old = some x → x.IsDated) {r : Request}
    (heffect : (Tables.respond r s.tables).2 = s.tables.withRecord u.id (old.map User.encode))
    (htear : F.refused true r → F.Tearing) :
    (Directory.ask r).run.wp (faulty F) (fun _ s' => Standing b u old owned true s' ∨
      F.Tearing ∧ Standing b u (some u) owned true s') s := by
  have hafter (t : Tables) : s.after r t = ⟨t, true⟩ := by
    unfold Scene.after
    rw [h.written, Bool.true_or]
  have hback := h.of_withUser hold
  rw [wp_ask]
  refine ⟨?_, fun hrefused e => ?_, fun _ e => ?_⟩
  · rw [hafter, heffect]
    exact Or.inl hback
  · rw [h.written] at hrefused
    rw [hafter]
    exact Or.inr ⟨htear hrefused, h.same⟩
  · rw [hafter, heffect]
    exact Or.inl hback

/-- The old record is back and the acquired values are given up, unless putting it back has failed
without an effect. -/
theorem rollBack (h : Standing b u (some u) owned true s) {old : Option User}
    {acquired : List (UniqueField × String)} (hacquired : ∀ v ∈ acquired, v ∉ owned)
    (hold : ∀ x, old = some x → x.IsDated) :
    (rollBack u.id old acquired).run.wp (faulty F) (fun r s' => r = .ok () ∧
      (Standing b u old owned true s' ∨ F.Tearing ∧ Standing b u (some u) owned true s')) s := by
  have hrelease {x : Option User} {s' : Scene} (hs' : Standing b u x owned true s') :
      (Directory.releaseAll u.id acquired).run.wp (faulty F)
        (fun r s'' => r = .ok () ∧ Standing b u x owned true s'') s' :=
    keeps.releaseAll hs' fun v hv => ⟨hacquired v hv, List.not_mem_nil⟩
  have hnext {s' : Scene} (hs' : Standing b u old owned true s' ∨
      F.Tearing ∧ Standing b u (some u) owned true s') :
      (Directory.releaseAll u.id acquired).run.wp (faulty F) (fun r s'' => r = .ok () ∧
        (Standing b u old owned true s'' ∨
          F.Tearing ∧ Standing b u (some u) owned true s'')) s' := by
    obtain hback | ⟨htear, htorn⟩ := hs'
    · exact wp_mono (fun _ _ hr => ⟨hr.1, Or.inl hr.2⟩) (hrelease hback)
    · exact wp_mono (fun _ _ hr => ⟨hr.1, Or.inr ⟨htear, hr.2⟩⟩) (hrelease htorn)
  unfold Directory.rollBack
  rw [wp_bind_except, wp_attempt]
  cases old with
  | none =>
    exact wp_mono (fun _ _ => hnext)
      (h.putBack hold rfl fun hrefused => Or.inr (Or.inr ⟨_, hrefused⟩))
  | some x =>
    exact wp_mono (fun _ _ => hnext)
      (h.putBack hold rfl fun hrefused => Or.inr (Or.inl ⟨_, _, hrefused⟩))

end Standing

/-! ### The whole save -/

/-- What a failed save of `u` that began on `b` leaves: what was there before, or a torn write. -/
def Remains (F : Faults) (b : Tables) (u : User) (s : Scene) : Prop :=
  (∃ w, Standing b u (b.user? u.id) (b.leadingTo u.id) w s) ∨
    F.Tearing ∧ b.Vacant u ∧ Standing b u (some u) (b.secured u) true s

/-- A save that succeeds leaves its record and all its values. -/
def Leaves (F : Faults) (b : Tables) (u : User) : Except DirectoryError Unit → Scene → Prop :=
  post (fun _ => Standing b u (some u) u.uniqueValues true) (Remains F b u)

theorem Standing.start (b : Tables) (u : User) :
    Standing b u (b.user? u.id) (b.leadingTo u.id) false ⟨b, false⟩ where
  others _ _ := rfl
  kept _ hb := hb.2
  fresh _ he := he
  own := rfl
  owns := by
    rintro ⟨f, key⟩ hv
    exact (Tables.mem_leadingTo.1 hv).2
  written := rfl

section Acquired

variable {acquired : List (UniqueField × String)}

theorem not_mem_secured (hacquired : ∀ v ∈ acquired, v ∉ b.valuesOf u.id) :
    ∀ v ∈ acquired, v ∉ b.secured u :=
  fun v hv hm => hacquired v hv (of_decide_eq_true (List.mem_filter.1 hm).2)

/-- The write of a save that has claimed all its values. -/
theorem Standing.write_or_release
    (h : Standing b u (b.user? u.id) (u.uniqueValues ++ b.leadingTo u.id) false s)
    (hu : u.IsDated) (hacquired : ∀ v ∈ acquired, v ∉ b.valuesOf u.id) :
    (orElse (Directory.ask (.setRecord u.id u.encode)) (Directory.releaseAll u.id acquired)).run.wp
      (faulty F) (post (fun _ => Standing b u (some u) (u.uniqueValues ++ b.leadingTo u.id) true)
        (Remains F b u)) s := by
  have hvacant : b.Vacant u := h.vacant (List.subset_append_left _ _)
  have hrelease {own : Option User} {s' : Scene}
      (hs' : Standing b u own (u.uniqueValues ++ b.leadingTo u.id) true s') :
      (Directory.releaseAll u.id acquired).run.wp (faulty F)
        (fun r s'' => r = .ok () ∧ Standing b u own (b.secured u) true s'') s' :=
    keeps.releaseAll (hs'.of_subset (List.filter_subset_self _)) fun v hv =>
      ⟨not_mem_secured hacquired v hv, List.not_mem_nil⟩
  refine wp_orElse (h.write hu) (fun _ _ hs' => hs') ?_
  rintro e s' (hs' | ⟨htear, hs'⟩)
  · exact wp_mono (fun _ _ hr => Or.inl ⟨_, hr.2.of_subset (b.leadingTo_subset_secured u)⟩)
      (hrelease hs')
  · exact wp_mono (fun _ _ hr => Or.inr ⟨htear, hvacant, hr.2⟩) (hrelease hs')

/-- The re-check after the write, which finds no claim lost. -/
theorem Standing.confirm
    (h : Standing b u (some u) (u.uniqueValues ++ b.leadingTo u.id) true s)
    (hacquired : ∀ v ∈ acquired, v ∉ b.valuesOf u.id)
    (hdated : ∀ x, b.user? u.id = some x → x.IsDated) :
    (orElse (Directory.lostClaim u.id u.uniqueValues)
      (Directory.rollBack u.id (b.user? u.id) acquired)).run.wp (faulty F)
      (post (fun x s' => x = none ∧
        Standing b u (some u) (u.uniqueValues ++ b.leadingTo u.id) true s') (Remains F b u)) s := by
  refine wp_orElse (wp_lostClaim h fun index key _ hs => keeps.owner index key hs) ?_ ?_
  · rintro x s' ⟨hs', hx⟩
    cases x with
    | none => exact ⟨rfl, hs'⟩
    | some f =>
      obtain ⟨s'', h'', v, hv, hlost⟩ := hx f rfl
      exact absurd (h''.owns v (List.mem_append_left _ hv)) hlost
  · rintro e s' ⟨hs', -⟩
    have hvacant : b.Vacant u := hs'.vacant (List.subset_append_left _ _)
    refine wp_mono ?_ ((hs'.of_subset (List.filter_subset_self _)).rollBack
      (not_mem_secured hacquired) hdated)
    rintro r s'' ⟨-, hback | ⟨htear, htorn⟩⟩
    · exact Or.inl ⟨_, hback.of_subset (b.leadingTo_subset_secured u)⟩
    · exact Or.inr ⟨htear, hvacant, htorn⟩

end Acquired

theorem wp_saveLocked_leaves (F : Faults) (b : Tables) (hu : u.IsDated) :
    (saveLocked u).run.wp (faulty F) (Leaves F b u) ⟨b, false⟩ := by
  have hfail {w : Bool} (e : DirectoryError) (s' : Scene)
      (hs' : Standing b u (b.user? u.id) (b.leadingTo u.id) w s') :
      Leaves F b u (.error e) s' := Or.inl ⟨w, hs'⟩
  unfold saveLocked
  refine wp_seq (Standing.keeps.checkFree _ (Standing.start b u) u.uniqueValues) ?_ hfail
  intro _ s₁ h₁
  refine wp_seq (Standing.keeps.load _ h₁ u.id) ?_ (fun e s' hs' => hfail e s' hs'.1)
  rintro old s₂ ⟨h₂, hload⟩
  obtain rfl : old = b.user? u.id := (hload old rfl).symm.trans h₂.own
  have hdated : ∀ x, b.user? u.id = some x → x.IsDated := by
    intro x hx
    obtain ⟨text, -, hd⟩ := Option.bind_eq_some_iff.1 hx
    exact User.isDated_of_decode? hd
  change (claimAll u.id (b.valuesOf u.id) u.uniqueValues [] >>= _).run.wp _ _ _
  refine wp_seq (Standing.keeps.claimAll h₂ (List.Subset.refl _) (List.filter_subset_self _)
    (List.nil_subset _) (fun v hv => by cases hv)) ?_ hfail
  rintro acquired s₃ ⟨h₃, hacquired⟩
  refine wp_seq (h₃.write_or_release hu hacquired) ?_ (fun _ _ hs' => hs')
  intro _ s₄ h₄
  refine wp_seq (h₄.confirm hacquired hdated) ?_ (fun _ _ hs' => hs')
  rintro _ s₅ ⟨rfl, h₅⟩
  refine wp_mono ?_ (Standing.keeps.releaseAll (h₅.of_subset (List.subset_append_left _ _))
    fun v hv => ⟨of_decide_eq_true (List.mem_filter.1 hv).2, List.not_mem_nil⟩)
  rintro r s₆ ⟨rfl, h₆⟩
  exact h₆

/-- How a save ends on any tables, whichever of its calls fail. -/
theorem wp_save_leaves (F : Faults) (b : Tables) (hu : u.IsDated) :
    (save u).run.wp (faulty F) (Leaves F b u) ⟨b, false⟩ := by
  unfold save
  cases hvalid : validate u with
  | error e => exact Or.inl ⟨_, Standing.start b u⟩
  | ok _ =>
    change (locked (saveLocked u)).run.wp (faulty F) (Leaves F b u) ⟨b, false⟩
    rw [wp_locked]
    exact wp_saveLocked_leaves F b hu

/-- Whatever the end, the others have lost nothing. -/
theorem Leaves.standing {r : Except DirectoryError Unit} (h : Leaves F b u r s) :
    ∃ own owned, (own = some u ∨ own = b.user? u.id) ∧ Standing b u own owned s.written s := by
  cases r with
  | ok _ =>
    have h : Standing b u (some u) u.uniqueValues true s := h
    exact ⟨_, _, Or.inl rfl, h.written ▸ h⟩
  | error e =>
    rcases h with ⟨_, h⟩ | ⟨-, -, h⟩
    · exact ⟨_, _, Or.inr rfl, h.written ▸ h⟩
    · exact ⟨_, _, Or.inl rfl, h.written ▸ h⟩

/-! ### No failure at all -/

/-- The directory alone, with a note of whether the record has been written. -/
def sceneServe : Handler interface Scene
  | .backend r, s =>
    (.ok (Tables.respond r s.tables).1, s.after r (Tables.respond r s.tables).2)
  | .lock, s => ((), s)
  | .unlock, s => ((), s)

theorem related_sceneServe :
    Related (fun _ => True) (fun s t => s.tables = t) sceneServe (serve Tables.serve) := by
  rintro c s _ - rfl
  cases c with
  | backend r => exact ⟨rfl, rfl⟩
  | lock => exact ⟨rfl, rfl⟩
  | unlock => exact ⟨rfl, rfl⟩

/-- What a program ends in whichever calls fail, it ends in alone. -/
theorem runAlone_of_wp {α : Type} {a : Action α} {Q : Except DirectoryError α → Scene → Prop}
    {t : Tables} (h : a.run.wp (faulty F) Q ⟨t, w⟩) :
    ∃ w', Q (runAlone a t).1 ⟨(runAlone a t).2, w'⟩ := by
  have hserve (c : Call) (Q : c.Reply → Scene → Prop) (s : Scene) (hc : faulty F c Q s) :
      Q (sceneServe c s).1 (sceneServe c s).2 := by
    cases c with
    | backend r => exact hc.1
    | lock => exact hc
    | unlock => exact hc
  have hscene := wp_run_self hserve h
  obtain ⟨hresult, htables⟩ := run_related related_sceneServe (only_true a.run)
    (rfl : (⟨t, w⟩ : Scene).tables = t)
  exact ⟨_, by unfold runAlone; rw [← hresult, ← htables]; exact hscene⟩

/-- Another user's save takes nothing that leads to the user of `id` and gives that user nothing. -/
theorem runAlone_save_others (hu : u.IsDated) (t : Tables) {id : String} (hid : id ≠ u.id) :
    (runAlone (save u) t).2.record id = t.record id ∧
      (∀ f key, t.Leads id f key → (runAlone (save u) t).2.entry f.index key = some id) ∧
      ∀ index key, (runAlone (save u) t).2.entry index key = some id →
        t.entry index key = some id := by
  obtain ⟨w, hleaves⟩ := runAlone_of_wp (wp_save_leaves ⟨fun _ _ => False, fun _ _ => False⟩ t hu)
  obtain ⟨own, owned, -, h⟩ := hleaves.standing
  exact ⟨h.others id hid, fun f key hl => h.kept hid hl, fun index key he => h.fresh hid he⟩

end Accounts.Directory
