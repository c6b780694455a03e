import Accounts.Proofs.Directory.SaveOutcome
import Accounts.Proofs.Program.Precondition

/-!
# A save among failures

`hazards V` lets everything happen to a save that happens to a single process. Before each call
records of ids in `V` may vanish. The call may fail, or take effect and fail all the same, except
that putting a record back does not fail. After each call the tables have to be indexed. The state
of a save is a `Stage`: which record its id has, which entries are known to lead there, and that
everybody else is as before. `wp_save` says that the tables stay indexed at each call, and how they
are in the end.
-/
namespace Accounts.Backend.Tables

/-- The same entries; records of ids in `V` may have vanished. -/
structure Faded (V : String → Prop) (t t' : Tables) : Prop where
  entry : t'.entry = t.entry
  record : ∀ id, t'.record id = t.record id ∨ V id ∧ t'.record id = none

variable {V : String → Prop} {t t' t'' : Tables}

theorem Faded.refl (V : String → Prop) (t : Tables) : Faded V t t := ⟨rfl, fun _ => Or.inl rfl⟩

theorem Faded.trans (h : Faded V t t') (h' : Faded V t' t'') : Faded V t t'' where
  entry := h'.entry.trans h.entry
  record id := by
    rcases h'.record id with hsame | hgone
    · rw [hsame]
      exact h.record id
    · exact Or.inr hgone

theorem Faded.user? (h : Faded V t t') (id : String) :
    t'.user? id = t.user? id ∨ V id ∧ t'.user? id = none := by
  unfold Tables.user?
  rcases h.record id with hsame | ⟨hv, hgone⟩
  · exact Or.inl (by rw [hsame])
  · exact Or.inr ⟨hv, by rw [hgone, Option.bind_none]⟩

theorem Faded.carries (h : Faded V t t') {id : String} {f : UniqueField} {key : String}
    (hc : t'.Carries id f key) : t.Carries id f key := by
  obtain ⟨u, hu, hk⟩ := hc
  rcases h.user? id with hsame | ⟨-, hgone⟩
  · exact ⟨u, hsame ▸ hu, hk⟩
  · rw [hgone] at hu
    cases hu

theorem Faded.indexed (h : Faded V t t') (ht : t.Indexed) : t'.Indexed where
  id_eq {id u} hu := by
    rcases h.user? id with hsame | ⟨-, hgone⟩
    · exact ht.id_eq (hsame ▸ hu)
    · rw [hgone] at hu
      cases hu
  decodes {id text} hr := by
    rcases h.record id with hsame | ⟨-, hgone⟩
    · exact ht.decodes (hsame ▸ hr)
    · rw [hgone] at hr
      cases hr
  owned hc := by
    rw [h.entry]
    exact ht.owned (h.carries hc)

end Accounts.Backend.Tables

namespace Accounts.Directory

open Backend Program

/-- The tables during a save, and whether it has made its attempt to write the record. -/
structure Scene where
  tables : Tables
  written : Bool

def isWrite : Request → Bool
  | .setRecord _ _ => true
  | _ => false

def Scene.after (s : Scene) (r : Request) (t : Tables) : Scene := ⟨t, s.written || isWrite r⟩

/-- Whether the call may fail without an effect. Records are put back after the first write. -/
def mayFail (written : Bool) : Request → Bool
  | .setRecord _ _ => !written
  | .deleteRecord _ => false
  | _ => true

/-- Whether the call may fail although it took effect. -/
def mayLoseReply : Request → Bool
  | .setRecord _ _ => false
  | .deleteRecord _ => false
  | _ => true

/-- All that a call on `t` may lead to. -/
structure Answers (s : Scene) (r : Request) (t : Tables)
    (Q : Except BackendError r.Value → Scene → Prop) : Prop where
  indexed : (Tables.respond r t).2.Indexed
  done : Q (.ok (Tables.respond r t).1) (s.after r (Tables.respond r t).2)
  refused : mayFail s.written r = true → ∀ e, Q (.error e) (s.after r t)
  lost : mayLoseReply r = true → ∀ e, Q (.error e) (s.after r (Tables.respond r t).2)

def hazards (V : String → Prop) : Calls interface Scene
  | .backend r, Q, s => ∀ t, Tables.Faded V s.tables t → Answers s r t Q
  | .lock, Q, s => ∀ t, Tables.Faded V s.tables t → Q () ⟨t, s.written⟩
  | .unlock, Q, s => ∀ t, Tables.Faded V s.tables t → Q () ⟨t, s.written⟩

instance (V : String → Prop) : (hazards V).Monotone := by
  refine ⟨fun {c Q R s} hQR h => ?_⟩
  cases c with
  | backend r =>
    intro t ht
    obtain ⟨hindexed, hdone, hrefused, hlost⟩ := h t ht
    exact ⟨hindexed, hQR _ _ hdone, fun hr e => hQR _ _ (hrefused hr e),
      fun hr e => hQR _ _ (hlost hr e)⟩
  | lock => exact fun t ht => hQR _ _ (h t ht)
  | unlock => exact fun t ht => hQR _ _ (h t ht)

/-! ### The stages of a save -/

/-- The record of `u.id` holds `own`, these values lead to it, and the other records are those of
`b`; records of ids in `V` may have vanished. -/
structure Stage (V : String → Prop) (b : Tables) (u : User) (own : Option User)
    (owned : List (UniqueField × String)) (written : Bool) (s : Scene) : Prop where
  indexed : s.tables.Indexed
  others : ∀ id, id ≠ u.id → s.tables.record id = b.record id ∨ V id ∧ s.tables.record id = none
  own : s.tables.user? u.id = own ∨ V u.id ∧ s.tables.user? u.id = none
  owns : ∀ v ∈ owned, s.tables.entry v.1.index v.2 = some u.id
  written : s.written = written

variable {V : String → Prop} {b : Tables} {u : User} {own : Option User}
  {owned : List (UniqueField × String)} {w : Bool} {s : Scene}

namespace Stage

theorem faded (h : Stage V b u own owned w s) {t : Tables} (ht : Tables.Faded V s.tables t) :
    Stage V b u own owned w ⟨t, w⟩ where
  indexed := ht.indexed h.indexed
  others id hid := by
    rcases ht.record id with hsame | hgone
    · rw [hsame]
      exact h.others id hid
    · exact Or.inr hgone
  own := by
    rcases ht.user? u.id with hsame | hgone
    · rw [hsame]
      exact h.own
    · exact Or.inr hgone
  owns v hv := by
    rw [ht.entry]
    exact h.owns v hv
  written := rfl

theorem of_subset (h : Stage V b u own owned w s) {owned' : List (UniqueField × String)}
    (hsub : owned' ⊆ owned) : Stage V b u own owned' w s :=
  ⟨h.indexed, h.others, h.own, fun v hv => h.owns v (hsub hv), h.written⟩

theorem forget (h : Stage V b u own owned w s) : Stage V b u own [] w s :=
  h.of_subset (List.nil_subset owned)

theorem cons (h : Stage V b u own owned w s) {v : UniqueField × String}
    (hv : s.tables.entry v.1.index v.2 = some u.id) : Stage V b u own (v :: owned) w s :=
  ⟨h.indexed, h.others, h.own, List.forall_mem_cons.2 ⟨hv, h.owns⟩, h.written⟩

/-- A change of entries that neither a stored user nor an owned value needs. -/
theorem of_entries (h : Stage V b u own owned w s) {t : Tables}
    (hr : t.record = s.tables.record)
    (hindexed : ∀ {id : String} {f : UniqueField} {key : String}, s.tables.Carries id f key →
      t.entry f.index key = s.tables.entry f.index key)
    (howns : ∀ v ∈ owned, t.entry v.1.index v.2 = some u.id) :
    Stage V b u own owned w ⟨t, w⟩ where
  indexed := h.indexed.of_entries hr hindexed
  others id hid := by
    rw [hr]
    exact h.others id hid
  own := by
    rw [Tables.user?_congr hr]
    exact h.own
  owns := howns
  written := rfl

/-! ### Calls -/

/-- A call on entries that the stage survives. -/
theorem ask (h : Stage V b u own owned w s) {r : Request} (hr : mayLoseReply r = true)
    {Q : Except DirectoryError r.Value → Scene → Prop}
    (hstage : ∀ t, Tables.Faded V s.tables t →
      Stage V b u own owned w ⟨(Tables.respond r t).2, w⟩)
    (hok : ∀ t, Stage V b u own owned w ⟨(Tables.respond r t).2, w⟩ →
      Q (.ok (Tables.respond r t).1) ⟨(Tables.respond r t).2, w⟩)
    (herror : ∀ e s', Stage V b u own owned w s' → Q (.error e) s') :
    (ask r).run.wp (hazards V) Q s := by
  have hafter (t : Tables) : s.after r t = ⟨t, w⟩ := by
    have hw : isWrite r = false := by
      cases r with
      | setRecord id value => cases hr
      | _ => rfl
    unfold Scene.after
    rw [hw, Bool.or_false, h.written]
  rw [wp_ask]
  intro t ht
  refine ⟨(hstage t ht).indexed, ?_, fun _ e => ?_, fun _ e => ?_⟩
  · rw [hafter]
    exact hok t (hstage t ht)
  · rw [hafter]
    exact herror _ _ (h.faded ht)
  · rw [hafter]
    exact herror _ _ (hstage t ht)

theorem load (h : Stage V b u own owned w s) (id : String) :
    (load id).run.wp (hazards V)
      (fun r s' => Stage V b u own owned w s' ∧ ∀ x, r = .ok x → s'.tables.user? id = x) s := by
  have hask : (Directory.ask (.record id)).run.wp (hazards V)
      (fun r s' => Stage V b u own owned w s' ∧ ∀ x, r = .ok x → s'.tables.record id = x) s := by
    refine h.ask rfl (fun t ht => h.faded ht) (fun t ht => ⟨ht, fun x hx => ?_⟩)
      (fun e s' hs' => ⟨hs', fun x hx => by cases hx⟩)
    cases hx
    rfl
  unfold Directory.load
  refine wp_seq hask ?_ ?_
  · rintro x s' ⟨hs', hx⟩
    have hx := hx x rfl
    cases x with
    | none =>
      refine ⟨hs', fun y hy => ?_⟩
      cases hy
      unfold Tables.user?
      rw [hx, Option.bind_none]
    | some text =>
      obtain ⟨v, hv⟩ := hs'.indexed.decodes hx
      simp only [hv]
      refine ⟨hs', fun y hy => ?_⟩
      cases hy
      unfold Tables.user?
      rw [hx, Option.bind_some, hv]
  · rintro e s' ⟨hs', -⟩
    exact ⟨hs', fun x hx => by cases hx⟩

theorem holds (h : Stage V b u own owned w s) (f : UniqueField) (key owner : String) :
    (holds f key owner).run.wp (hazards V)
      (fun r s' => Stage V b u own owned w s' ∧
        (r = .ok false → ¬ s'.tables.Carries owner f key)) s := by
  unfold Directory.holds
  refine wp_seq (h.load owner) ?_ ?_
  · rintro x s' ⟨hs', hx⟩
    refine ⟨hs', fun hr hc => ?_⟩
    obtain ⟨v, hv, hk⟩ := hc
    rw [hx x rfl] at hv
    subst hv
    simp only [Option.any_some, hk, beq_self_eq_true] at hr
    cases hr
  · rintro e s' ⟨hs', -⟩
    exact ⟨hs', fun hr => by cases hr⟩

theorem owner (h : Stage V b u own owned w s) (index key : String) :
    (Directory.ask (.owner index key)).run.wp (hazards V)
      (fun r s' => Stage V b u own owned w s' ∧ ∀ x, r = .ok x → s'.tables.entry index key = x)
      s := by
  refine h.ask rfl (fun t ht => h.faded ht) (fun t hs' => ⟨hs', fun x hx => ?_⟩)
    (fun e s' hs' => ⟨hs', fun x hx => by cases hx⟩)
  cases hx
  rfl

/-- Releasing an entry that its owner does not need, in favour of `u`. -/
theorem release_leftover (h : Stage V b u own owned w s) {f : UniqueField} {key owner : String}
    (hne : owner ≠ u.id) (hno : ¬ s.tables.Carries owner f key) :
    (Directory.ask (.releaseEntry f.index key owner)).run.wp (hazards V)
      (fun _ s' => Stage V b u own owned w s') s := by
  refine h.ask rfl (fun t ht => ?_) (fun t hs' => hs') (fun e s' hs' => hs')
  have hs := h.faded ht
  simp only [Tables.respond]
  split
  · next he =>
    have hkeep (i k id : String) (hi : t.entry i k = some id) (hid : id ≠ owner) :
        (t.withEntry f.index key none).entry i k = t.entry i k := by
      rw [Tables.entry_withEntry, if_neg]
      rintro ⟨rfl, rfl⟩
      rw [he] at hi
      exact hid (Option.some.inj hi).symm
    refine hs.of_entries rfl (fun {id g k} hc => ?_) (fun v hv => ?_)
    · by_cases hid : id = owner
      · rw [Tables.entry_withEntry, if_neg]
        rintro ⟨hi, rfl⟩
        cases UniqueField.index_injective hi
        exact hno (ht.carries (hid ▸ hc))
      · exact hkeep _ _ id (hs.indexed.owned hc) hid
    · rw [hkeep _ _ u.id (hs.owns v hv) hne.symm]
      exact hs.owns v hv
  · exact hs

theorem isTaken (h : Stage V b u own owned w s) (f : UniqueField) (key : String) :
    (isTaken f key u.id).run.wp (hazards V) (fun _ s' => Stage V b u own owned w s') s := by
  unfold Directory.isTaken
  refine wp_seq (h.owner f.index key) ?_ (fun e s' hs' => hs'.1)
  rintro x s' ⟨hs', -⟩
  cases x with
  | none => exact hs'
  | some owner =>
    by_cases hid : owner = u.id
    · simp only [if_pos hid]
      exact hs'
    · simp only [if_neg hid]
      refine wp_seq (hs'.holds f key owner) ?_ (fun e s'' hs'' => hs''.1)
      rintro held s'' ⟨hs'', hno⟩
      cases held with
      | true => exact hs''
      | false =>
        exact wp_seq (hs''.release_leftover hid (hno rfl)) (fun _ _ hs => hs) (fun _ _ hs => hs)

theorem checkFree (h : Stage V b u own owned w s) (values : List (UniqueField × String)) :
    (checkFree u.id values).run.wp (hazards V) (fun _ s' => Stage V b u own owned w s') s := by
  induction values generalizing s with
  | nil => exact h
  | cons v values ih =>
    rw [Directory.checkFree]
    refine wp_seq (h.isTaken v.1 v.2) ?_ (fun e s' hs' => hs')
    intro taken s' hs'
    cases taken with
    | true => exact hs'
    | false => exact ih hs'

theorem claimEntry (h : Stage V b u own owned w s) (f : UniqueField) (key : String) :
    (Directory.ask (.claimEntry f.index key u.id)).run.wp (hazards V)
      (fun r s' => Stage V b u own owned w s' ∧
        (r = .ok true → s'.tables.entry f.index key = some u.id)) s := by
  have hstage (t : Tables) (ht : Tables.Faded V s.tables t) :
      Stage V b u own owned w ⟨(Tables.respond (.claimEntry f.index key u.id) t).2, w⟩ := by
    have hs := h.faded ht
    simp only [Tables.respond]
    cases he : t.entry f.index key with
    | some owner => exact hs
    | none =>
      have hkeep (i k id : String) (hi : t.entry i k = some id) :
          (t.withEntry f.index key (some u.id)).entry i k = t.entry i k := by
        rw [Tables.entry_withEntry, if_neg]
        rintro ⟨rfl, rfl⟩
        rw [he] at hi
        cases hi
      refine hs.of_entries rfl (fun hc => hkeep _ _ _ (hs.indexed.owned hc)) (fun v hv => ?_)
      rw [hkeep _ _ _ (hs.owns v hv)]
      exact hs.owns v hv
  refine h.ask rfl hstage (fun t hs' => ⟨hs', ?_⟩) (fun e s' hs' => ⟨hs', fun hr => by cases hr⟩)
  simp only [Tables.respond]
  cases he : t.entry f.index key with
  | some owner =>
    intro hr
    simp only [Except.ok.injEq, beq_iff_eq] at hr
    rw [← hr, he]
  | none =>
    intro _
    rw [Tables.entry_withEntry, if_pos ⟨rfl, rfl⟩]

theorem claim (h : Stage V b u own owned w s) (f : UniqueField) (key : String) :
    (claim f key u.id).run.wp (hazards V)
      (fun r s' => Stage V b u own owned w s' ∧
        (r = .ok true → s'.tables.entry f.index key = some u.id)) s := by
  unfold Directory.claim
  refine wp_seq (h.claimEntry f key) ?_ (fun e s' hs' => ⟨hs'.1, fun hr => by cases hr⟩)
  rintro claimed s' ⟨hs', he⟩
  cases claimed with
  | true => exact ⟨hs', fun _ => he rfl⟩
  | false =>
    refine wp_seq (hs'.isTaken f key) ?_ (fun e s'' hs'' => ⟨hs'', fun hr => by cases hr⟩)
    intro taken s'' hs''
    cases taken with
    | true => exact ⟨hs'', fun hr => by cases hr⟩
    | false => exact hs''.claimEntry f key

end Stage

/-! ### Giving values up -/

/-- The user, if there is one, has none of these values. -/
def Lacks (own : Option User) (values : List (UniqueField × String)) : Prop :=
  ∀ x, own = some x → ∀ v ∈ values, x.unique? v.1 ≠ some v.2

namespace Stage

theorem releaseEntry (h : Stage V b u own [] w s) {v : UniqueField × String}
    (hv : Lacks own [v]) :
    (Directory.ask (.releaseEntry v.1.index v.2 u.id)).run.wp (hazards V)
      (fun _ s' => Stage V b u own [] w s') s := by
  refine h.ask rfl (fun t ht => ?_) (fun t hs' => hs') (fun e s' hs' => hs')
  have hs := h.faded ht
  have hno : ¬ t.Carries u.id v.1 v.2 := by
    rintro ⟨x, hx, hk⟩
    rcases hs.own with hown | ⟨-, hgone⟩
    · exact hv x (hown.symm.trans hx) v (List.mem_singleton_self v) hk
    · rw [hgone] at hx
      cases hx
  simp only [Tables.respond]
  split
  · next he =>
    refine hs.of_entries rfl (fun {id g k} hc => ?_) (fun v hv => by cases hv)
    rw [Tables.entry_withEntry, if_neg]
    rintro ⟨hi, rfl⟩
    cases UniqueField.index_injective hi
    have := (hs.indexed.owned hc).symm.trans he
    cases this
    exact hno hc
  · exact hs

theorem releaseAll (h : Stage V b u own [] w s) {values : List (UniqueField × String)}
    (hv : Lacks own values) {Q : Except DirectoryError Unit → Scene → Prop}
    (hQ : ∀ s', Stage V b u own [] w s' → Q (.ok ()) s') :
    (releaseAll u.id values).run.wp (hazards V) Q s := by
  induction values generalizing s with
  | nil => exact hQ s h
  | cons v values ih =>
    have hone : Lacks own [v] := fun x hx y hy => hv x hx y (by simp_all)
    have hrest : Lacks own values := fun x hx y hy => hv x hx y (List.mem_cons_of_mem v hy)
    rw [Directory.releaseAll, wp_bind_except, wp_attempt]
    exact wp_mono (fun _ s' hs' => ih hs' hrest) (h.releaseEntry hone)

/-- Claims all values, or fails and has given up what it had acquired. -/
theorem claimAll (h : Stage V b u own owned w s) {old values acquired : List (UniqueField × String)}
    (hold : ∀ x, own = some x → ∀ v, x.unique? v.1 = some v.2 → v ∈ old)
    (hacquired : Lacks own acquired) :
    (claimAll u.id old values acquired).run.wp (hazards V)
      (post (fun acquired s' => Stage V b u own (values ++ owned) w s' ∧ Lacks own acquired)
        (Stage V b u own [] w)) s := by
  induction values generalizing s owned acquired with
  | nil => exact ⟨h, hacquired⟩
  | cons v values ih =>
    rw [Directory.claimAll]
    refine wp_seq (R := post (fun claimed s' => Stage V b u own owned w s' ∧
        (claimed = true → s'.tables.entry v.1.index v.2 = some u.id)) (Stage V b u own [] w))
      ?_ ?_ (fun e s' hs' => hs')
    · refine wp_orElse (h.claim v.1 v.2) ?_ ?_
      · rintro claimed s' ⟨hs', he⟩
        exact ⟨hs', fun hc => he (by rw [hc])⟩
      · rintro e s' ⟨hs', -⟩
        exact hs'.forget.releaseAll hacquired fun _ hs'' => hs''
    · rintro claimed s' ⟨hs', he⟩
      cases claimed with
      | false =>
        simp only [Bool.false_eq_true, if_false]
        rw [wp_bind_except]
        exact hs'.forget.releaseAll hacquired fun _ hs'' => hs''
      | true =>
        simp only [if_true]
        have hnext : Lacks own (if v ∈ old then acquired else acquired ++ [v]) := by
          split
          · exact hacquired
          · next hnew =>
            intro x hx y hy
            rcases List.mem_append.1 hy with hy | hy
            · exact hacquired x hx y hy
            · cases List.mem_singleton.1 hy
              exact fun hk => hnew (hold x hx v hk)
        refine wp_mono (fun r s'' hs'' => ?_) (ih (hs'.cons (he rfl)) hnext)
        cases r with
        | error e => exact hs''
        | ok acquired =>
          refine ⟨hs''.1.of_subset ?_, hs''.2⟩
          intro y hy
          simp only [List.cons_append, List.mem_cons, List.mem_append] at hy ⊢
          tauto

/-! ### Writing the record and putting it back -/

/-- A record that nobody has, or one of a user all of whose values lead to its id. -/
theorem of_withRecord (h : Stage V b u own owned w s) {x : Option User}
    (hx : ∀ y, x = some y → y.id = u.id ∧ y.IsDated ∧ y.uniqueValues ⊆ owned) :
    Stage V b u x owned true ⟨s.tables.withRecord u.id (x.map User.encode), true⟩ := by
  have huser (id : String) : (s.tables.withRecord u.id (x.map User.encode)).user? id =
      if id = u.id then x else s.tables.user? id := by
    rw [Tables.user?_withRecord]
    cases x with
    | none => rfl
    | some y => rw [Option.map_some, Option.bind_some, User.decode?_encode (hx y rfl).2.1]
  have hindexed : (s.tables.withRecord u.id (x.map User.encode)).Indexed := by
    refine { id_eq {id y} hy := ?_, owned {id f key} hc := ?_, decodes {id text} hr := ?_ }
    · rw [huser] at hy
      split at hy
      · next hid => exact (hx y hy).1.trans hid.symm
      · exact h.indexed.id_eq hy
    · obtain ⟨y, hy, hk⟩ := hc
      rw [huser] at hy
      split at hy
      · next hid =>
        rw [hid]
        exact h.owns (f, key) ((hx y hy).2.2 (User.mem_uniqueValues.2 hk))
      · exact h.indexed.owned ⟨y, hy, hk⟩
    · rw [Tables.record_withRecord] at hr
      split at hr
      · obtain ⟨y, rfl, rfl⟩ := Option.map_eq_some_iff.1 hr
        exact ⟨y, User.decode?_encode (hx y rfl).2.1⟩
      · exact h.indexed.decodes hr
  refine ⟨hindexed, fun id hne => ?_, ?_, h.owns, rfl⟩
  · rw [Tables.record_withRecord, if_neg hne]
    exact h.others id hne
  · left
    rw [huser, if_pos rfl]

theorem write (h : Stage V b u own owned false s) (hu : u.IsDated)
    (hvalues : u.uniqueValues ⊆ owned) :
    (Directory.ask (.setRecord u.id u.encode)).run.wp (hazards V)
      (post (fun _ => Stage V b u (some u) owned true) (Stage V b u own owned true)) s := by
  rw [wp_ask]
  intro t ht
  have hs := h.faded ht
  have hafter (t' : Tables) : s.after (.setRecord u.id u.encode) t' = ⟨t', true⟩ := by
    unfold Scene.after
    rw [h.written]
    rfl
  have hnext : Stage V b u (some u) owned true ⟨t.withRecord u.id (some u.encode), true⟩ := by
    apply hs.of_withRecord
    intro y hy
    cases hy
    exact ⟨rfl, hu, hvalues⟩
  refine ⟨hnext.indexed, ?_, fun _ e => ?_, (fun hr => by cases hr)⟩
  · rw [hafter]
    exact hnext
  · rw [hafter]
    exact ⟨hs.indexed, hs.others, hs.own, hs.owns, rfl⟩

/-- Nobody takes a claim away. -/
theorem lostClaim (h : Stage V b u own owned w s) {values : List (UniqueField × String)}
    (hvalues : values ⊆ owned) :
    (lostClaim u.id values).run.wp (hazards V)
      (fun r s' => Stage V b u own owned w s' ∧ ∀ f, r ≠ .ok (some f)) s := by
  induction values generalizing s with
  | nil => exact ⟨h, fun f hr => by cases hr⟩
  | cons v values ih =>
    obtain ⟨hv, hrest⟩ := List.cons_subset.1 hvalues
    rw [Directory.lostClaim]
    refine wp_seq (h.owner v.1.index v.2) ?_ (fun e s' hs' => ⟨hs'.1, fun f hr => by cases hr⟩)
    rintro x s' ⟨hs', hx⟩
    have he : x = some u.id := (hx x rfl).symm.trans (hs'.owns v hv)
    simp only [if_pos he]
    exact ih hs' hrest

theorem rollBack (h : Stage V b u (some u) owned true s) {old : Option User}
    {acquired : List (UniqueField × String)} (hacquired : Lacks old acquired)
    (hold : ∀ x, old = some x → x.id = u.id ∧ x.IsDated ∧ x.uniqueValues ⊆ owned) :
    (rollBack u.id old acquired).run.wp (hazards V)
      (fun _ s' => Stage V b u old [] true s') s := by
  have hafter (r : Request) (t : Tables) : s.after r t = ⟨t, true⟩ := by
    unfold Scene.after
    rw [h.written, Bool.true_or]
  have hnext {t : Tables} (ht : Tables.Faded V s.tables t) := (h.faded ht).of_withRecord hold
  have hdone {t : Tables} (ht : Tables.Faded V s.tables t) :
      (Directory.releaseAll u.id acquired).run.wp (hazards V)
        (fun _ s' => Stage V b u old [] true s')
        ⟨t.withRecord u.id (old.map User.encode), true⟩ :=
    (hnext ht).forget.releaseAll hacquired fun _ hs => hs
  unfold Directory.rollBack
  rw [wp_bind_except, wp_attempt]
  cases old with
  | none =>
    rw [wp_ask]
    intro t ht
    refine ⟨(hnext ht).indexed, ?_, (fun hr => by cases hr), (fun hr => by cases hr)⟩
    rw [hafter]
    exact hdone ht
  | some x =>
    rw [wp_ask]
    intro t ht
    refine ⟨(hnext ht).indexed, ?_, fun hr => ?_, (fun hr => by cases hr)⟩
    · rw [hafter]
      exact hdone ht
    · rw [h.written] at hr
      cases hr

end Stage

/-! ### The whole save -/

/-- How a save ends that began on `b`: the record of `u.id` holds `u`, or what it held before. -/
def Ends (V : String → Prop) (b : Tables) (u : User) :
    Except DirectoryError Unit → Scene → Prop :=
  post (fun _ => Stage V b u (some u) [] true)
    (fun s => ∃ own w, (own = b.user? u.id ∨ V u.id) ∧ Stage V b u own [] w s)

theorem Stage.start (hb : b.Indexed) (u : User) :
    Stage V b u (b.user? u.id) [] false ⟨b, false⟩ :=
  ⟨hb, fun _ _ => Or.inl rfl, Or.inl rfl, (fun v hv => by cases hv), rfl⟩

/-- What is known of the record that a save has loaded. -/
theorem Stage.loaded (h : Stage V b u own owned w s) {x : Option User}
    (hx : s.tables.user? u.id = x) :
    (x = own ∨ V u.id) ∧ (∀ y, x = some y → y.id = u.id ∧ y.IsDated) ∧
      Stage V b u x ((x.map User.uniqueValues).getD []) w s := by
  refine ⟨?_, ?_, h.indexed, h.others, Or.inl hx, ?_, h.written⟩
  · rcases h.own with hown | ⟨hv, -⟩
    · exact Or.inl (hx.symm.trans hown)
    · exact Or.inr hv
  · rintro y rfl
    obtain ⟨text, -, hd⟩ := Option.bind_eq_some_iff.1 hx
    exact ⟨h.indexed.id_eq hx, User.isDated_of_decode? hd⟩
  · intro v hv
    cases x with
    | none => cases hv
    | some y => exact h.indexed.owned ⟨y, hx, User.mem_uniqueValues.1 hv⟩

theorem wp_saveLocked (hu : u.IsDated)
    (h : Stage V b u (b.user? u.id) [] false s) :
    (saveLocked u).run.wp (hazards V) (Ends V b u) s := by
  unfold saveLocked
  have hfail {own : Option User} {w : Bool} (hown : own = b.user? u.id ∨ V u.id)
      (e : DirectoryError) (s' : Scene) (hs' : Stage V b u own [] w s') :
      Ends V b u (.error e) s' := ⟨own, w, hown, hs'⟩
  refine wp_seq (h.checkFree u.uniqueValues) ?_ (hfail (Or.inl rfl))
  intro _ s₁ h₁
  refine wp_seq (h₁.load u.id) ?_ (fun e s' hs' => hfail (Or.inl rfl) e s' hs'.1)
  rintro old s₂ ⟨h₂, hload⟩
  obtain ⟨hown, hold, h₂⟩ := h₂.loaded (hload old rfl)
  have hvalues : ∀ x, old = some x → ∀ v, x.unique? v.1 = some v.2 →
      v ∈ (old.map User.uniqueValues).getD [] := by
    rintro x rfl v hv
    exact User.mem_uniqueValues.2 hv
  refine wp_seq (h₂.claimAll hvalues (fun x _ v hv => by cases hv)) ?_ (hfail hown)
  rintro acquired s₃ ⟨h₃, hacquired⟩
  have hwrite : (orElse (ask (.setRecord u.id u.encode)) (releaseAll u.id acquired)).run.wp
      (hazards V) (post
        (fun _ => Stage V b u (some u) (u.uniqueValues ++ (old.map User.uniqueValues).getD []) true)
        (Stage V b u old [] true)) s₃ :=
    wp_orElse (h₃.write hu (List.subset_append_left _ _))
      (fun _ _ hs' => hs') (fun e s' hs' => hs'.forget.releaseAll hacquired fun _ hs => hs)
  refine wp_seq hwrite ?_ (hfail hown)
  intro _ s₄ h₄
  have hback : ∀ x, old = some x → x.id = u.id ∧ x.IsDated ∧
      x.uniqueValues ⊆ u.uniqueValues ++ (old.map User.uniqueValues).getD [] := by
    intro x hx
    obtain ⟨hid, hd⟩ := hold x hx
    subst hx
    exact ⟨hid, hd, List.subset_append_right _ _⟩
  have hconfirm : (orElse (lostClaim u.id u.uniqueValues) (rollBack u.id old acquired)).run.wp
      (hazards V) (post (fun x s' => Stage V b u (some u) [] true s' ∧ x = none)
        (Stage V b u old [] true)) s₄ := by
    refine wp_orElse (h₄.lostClaim (List.subset_append_left _ _)) ?_
      (fun e s' hs' => hs'.1.rollBack hacquired hback)
    rintro x s' ⟨hs', hx⟩
    cases x with
    | none => exact ⟨hs'.forget, rfl⟩
    | some f => exact absurd rfl (hx f)
  refine wp_seq hconfirm ?_ (hfail hown)
  rintro _ s₅ ⟨h₅, rfl⟩
  refine h₅.releaseAll ?_ fun _ hs => hs
  rintro x hx v hv hk
  cases hx
  exact of_decide_eq_true (List.mem_filter.1 hv).2 (User.mem_uniqueValues.2 hk)

/-- At every call of a save the tables stay indexed, and in the end the save has happened or not. -/
theorem wp_save (V : String → Prop) (hb : b.Indexed) (hu : u.IsDated) :
    (save u).run.wp (hazards V) (Ends V b u) ⟨b, false⟩ := by
  have hstart := Stage.start (V := V) hb u
  unfold save
  cases hvalid : validate u with
  | error e => exact ⟨_, _, Or.inl rfl, hstart⟩
  | ok _ =>
    change (locked (saveLocked u)).run.wp (hazards V) (Ends V b u) ⟨b, false⟩
    rw [wp_locked]
    intro t ht
    refine wp_mono (fun r s' hs' => ?_) (wp_saveLocked hu (hstart.faded ht))
    intro t' ht'
    cases r with
    | ok _ => exact hs'.written ▸ hs'.faded ht'
    | error e =>
      obtain ⟨own, w, hown, hs'⟩ := hs'
      exact ⟨own, w, hown, hs'.written ▸ hs'.faded ht'⟩

end Accounts.Directory
