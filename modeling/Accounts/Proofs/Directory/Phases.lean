import Accounts.Directory.Save
import Accounts.Proofs.Directory.Index
import Accounts.Proofs.Program.Precondition

/-!
# The phases of a save under an assertion

A save looks values up, claims them and releases them, whatever else goes on around it. `Keeps`
collects what single calls have to do to an assertion about the state and the values known to lead
to the user; then each phase keeps the assertion.
-/
namespace Accounts.Directory

open Backend Program

variable {σ : Type}

section

variable {Φ : Calls interface σ} [Φ.Monotone] {id : String} {A : σ → Prop}
  {values : List (UniqueField × String)} {s : σ}

/-- What no single release can break, releasing all these values does not. -/
theorem wp_releaseAll (h : A s) (hstep : ∀ v ∈ values, ∀ s, A s →
      (ask (.releaseEntry v.1.index v.2 id)).run.wp Φ (fun _ s' => A s') s) :
    (releaseAll id values).run.wp Φ (fun r s' => r = .ok () ∧ A s') s := by
  induction values generalizing s with
  | nil => exact ⟨rfl, h⟩
  | cons v values ih =>
    obtain ⟨hv, hrest⟩ := List.forall_mem_cons.1 hstep
    rw [releaseAll, wp_bind_except, wp_attempt]
    exact wp_mono (fun _ s' hs' => ih hs' hrest) (hv s h)

/-- A claim that is lost was seen to be so in a state with the assertion. -/
theorem wp_lostClaim {tables : σ → Tables} (h : A s) (hstep : ∀ index key s, A s →
      (ask (.owner index key)).run.wp Φ
        (fun r s' => A s' ∧ ∀ x, r = .ok x → (tables s').entry index key = x) s) :
    (lostClaim id values).run.wp Φ (fun r s' => A s' ∧ ∀ f, r = .ok (some f) →
      ∃ s'', A s'' ∧ ∃ v ∈ values, (tables s'').entry v.1.index v.2 ≠ some id) s := by
  induction values generalizing s with
  | nil => exact ⟨h, fun f hr => by cases hr⟩
  | cons v values ih =>
    rw [lostClaim]
    refine wp_seq (hstep v.1.index v.2 s h) ?_
      (fun e s' hs' => ⟨hs'.1, fun f hr => by cases hr⟩)
    rintro x s' ⟨hs', hx⟩
    by_cases he : x = some id
    · simp only [if_pos he]
      refine wp_mono (fun r s'' hr => ⟨hr.1, fun f hf => ?_⟩) (ih hs')
      obtain ⟨s₁, h₁, w, hw, hlost⟩ := hr.2 f hf
      exact ⟨s₁, h₁, w, List.mem_cons_of_mem v hw, hlost⟩
    · simp only [if_neg he]
      refine ⟨hs', fun f _ => ⟨s', hs', v, List.mem_cons_self, ?_⟩⟩
      rw [hx x rfl]
      exact he

end

/-- What the calls of a save for `id` do to an assertion `A` on the values that are owned. Values in
`kept` are not released. -/
structure Keeps (tables : σ → Tables) (Φ : Calls interface σ) (id : String)
    (kept : List (UniqueField × String)) (A : List (UniqueField × String) → σ → Prop) : Prop where
  subset : ∀ {owned owned' s}, A owned s → owned' ⊆ owned → A owned' s
  cons : ∀ {owned s v}, A owned s → (tables s).entry v.1.index v.2 = some id → A (v :: owned) s
  record : ∀ {owned s} (i : String), A owned s → (ask (.record i)).run.wp Φ
    (fun r s' => A owned s' ∧ ∀ x, r = .ok x → (tables s').record i = x) s
  owner : ∀ {owned s} (index key : String), A owned s → (ask (.owner index key)).run.wp Φ
    (fun r s' => A owned s' ∧ ∀ x, r = .ok x → (tables s').entry index key = x) s
  leftover : ∀ {owned s} {f : UniqueField} {key owner : String}, A owned s → owner ≠ id →
    ¬ (tables s).Carries owner f key →
    (ask (.releaseEntry f.index key owner)).run.wp Φ (fun _ s' => A owned s') s
  claimEntry : ∀ {owned s} (f : UniqueField) (key : String), A owned s →
    (ask (.claimEntry f.index key id)).run.wp Φ
      (fun r s' => A owned s' ∧ (r = .ok true → (tables s').entry f.index key = some id)) s
  releaseEntry : ∀ {owned s} {v : UniqueField × String}, A owned s → v ∉ owned → v ∉ kept →
    (ask (.releaseEntry v.1.index v.2 id)).run.wp Φ (fun _ s' => A owned s') s

namespace Keeps

variable {tables : σ → Tables} {Φ : Calls interface σ} [Φ.Monotone] {id : String}
  {kept owned : List (UniqueField × String)} {A : List (UniqueField × String) → σ → Prop} {s : σ}

theorem load (k : Keeps tables Φ id kept A) (owned) (h : A owned s) (i : String) :
    (load i).run.wp Φ (fun r s' => A owned s' ∧ ∀ x, r = .ok x → (tables s').user? i = x) s := by
  unfold Directory.load
  refine wp_seq (k.record i h) ?_ (fun e s' hs' => ⟨hs'.1, fun x hx => by cases hx⟩)
  rintro x s' ⟨hs', hx⟩
  have hx := hx x rfl
  cases x with
  | none =>
    refine ⟨hs', fun y hy => ?_⟩
    cases hy
    unfold Tables.user?
    rw [hx, Option.bind_none]
  | some text =>
    simp only
    cases hd : User.decode? text with
    | none => exact ⟨hs', fun y hy => by cases hy⟩
    | some v =>
      refine ⟨hs', fun y hy => ?_⟩
      cases hy
      unfold Tables.user?
      rw [hx, Option.bind_some, hd]

theorem holds (k : Keeps tables Φ id kept A) (h : A owned s) (f : UniqueField)
    (key owner : String) :
    (holds f key owner).run.wp Φ
      (fun r s' => A owned s' ∧ (r = .ok false → ¬ (tables s').Carries owner f key)) s := by
  unfold Directory.holds
  refine wp_seq (k.load owned h owner) ?_ (fun e s' hs' => ⟨hs'.1, fun hr => by cases hr⟩)
  rintro x s' ⟨hs', hx⟩
  refine ⟨hs', fun hr hc => ?_⟩
  obtain ⟨v, hv, hk⟩ := hc
  rw [hx x rfl] at hv
  subst hv
  simp only [Option.any_some, hk, beq_self_eq_true] at hr
  cases hr

theorem isTaken (k : Keeps tables Φ id kept A) (h : A owned s) (f : UniqueField) (key : String) :
    (isTaken f key id).run.wp Φ (fun _ s' => A owned s') s := by
  unfold Directory.isTaken
  refine wp_seq (k.owner f.index key h) ?_ (fun e s' hs' => hs'.1)
  rintro x s' ⟨hs', -⟩
  cases x with
  | none => exact hs'
  | some owner =>
    by_cases hid : owner = id
    · simp only [if_pos hid]
      exact hs'
    · simp only [if_neg hid]
      refine wp_seq (k.holds hs' f key owner) ?_ (fun e s'' hs'' => hs''.1)
      rintro held s'' ⟨hs'', hno⟩
      cases held with
      | true => exact hs''
      | false =>
        exact wp_seq (k.leftover hs'' hid (hno rfl)) (fun _ _ hs => hs) (fun _ _ hs => hs)

theorem checkFree (k : Keeps tables Φ id kept A) (owned) (h : A owned s)
    (values : List (UniqueField × String)) :
    (checkFree id values).run.wp Φ (fun _ s' => A owned s') s := by
  induction values generalizing s with
  | nil => exact h
  | cons v values ih =>
    rw [Directory.checkFree]
    refine wp_seq (k.isTaken h v.1 v.2) ?_ (fun e s' hs' => hs')
    intro taken s' hs'
    cases taken with
    | true => exact hs'
    | false => exact ih hs'

theorem claim (k : Keeps tables Φ id kept A) (h : A owned s) (f : UniqueField) (key : String) :
    (claim f key id).run.wp Φ
      (fun r s' => A owned s' ∧ (r = .ok true → (tables s').entry f.index key = some id)) s := by
  unfold Directory.claim
  refine wp_seq (k.claimEntry f key h) ?_ (fun e s' hs' => ⟨hs'.1, fun hr => by cases hr⟩)
  rintro claimed s' ⟨hs', he⟩
  cases claimed with
  | true => exact ⟨hs', fun _ => he rfl⟩
  | false =>
    refine wp_seq (k.isTaken hs' f key) ?_ (fun e s'' hs'' => ⟨hs'', fun hr => by cases hr⟩)
    intro taken s'' hs''
    cases taken with
    | true => exact ⟨hs'', fun hr => by cases hr⟩
    | false => exact k.claimEntry f key hs''

theorem releaseAll (k : Keeps tables Φ id kept A) (h : A owned s)
    {values : List (UniqueField × String)} (hvalues : ∀ v ∈ values, v ∉ owned ∧ v ∉ kept) :
    (releaseAll id values).run.wp Φ (fun r s' => r = .ok () ∧ A owned s') s :=
  wp_releaseAll h fun v hv _ hs => k.releaseEntry hs (hvalues v hv).1 (hvalues v hv).2

/-- Claims all values, or fails and has given up what it had acquired; the values of `fixed` are
owned all the time. -/
theorem claimAll (k : Keeps tables Φ id kept A) (h : A owned s)
    {fixed old values acquired : List (UniqueField × String)} (hfixed : fixed ⊆ owned)
    (hfixedOld : fixed ⊆ old) (hkept : kept ⊆ old) (hacquired : ∀ v ∈ acquired, v ∉ old) :
    (claimAll id old values acquired).run.wp Φ
      (post (fun acquired s' => A (values ++ owned) s' ∧ ∀ v ∈ acquired, v ∉ old) (A fixed)) s := by
  have hrelease {s' : σ} {acquired : List (UniqueField × String)} (hs' : A fixed s')
      (hnew : ∀ v ∈ acquired, v ∉ old) :
      (Directory.releaseAll id acquired).run.wp Φ (fun r s'' => r = .ok () ∧ A fixed s'') s' :=
    k.releaseAll hs' fun v hv =>
      ⟨fun hf => hnew v hv (hfixedOld hf), fun hf => hnew v hv (hkept hf)⟩
  induction values generalizing s owned acquired with
  | nil => exact ⟨h, hacquired⟩
  | cons v values ih =>
    rw [Directory.claimAll]
    refine wp_seq (R := post (fun claimed s' => A owned s' ∧
        (claimed = true → (tables s').entry v.1.index v.2 = some id)) (A fixed))
      ?_ ?_ (fun e s' hs' => hs')
    · refine wp_orElse (k.claim h v.1 v.2) ?_ ?_
      · rintro claimed s' ⟨hs', he⟩
        exact ⟨hs', fun hc => he (by rw [hc])⟩
      · rintro e s' ⟨hs', -⟩
        exact wp_mono (fun _ _ hr => hr.2) (hrelease (k.subset hs' hfixed) hacquired)
    · rintro claimed s' ⟨hs', he⟩
      cases claimed with
      | false =>
        simp only [Bool.false_eq_true, if_false]
        rw [wp_bind_except]
        refine wp_mono (fun r s'' hr => ?_) (hrelease (k.subset hs' hfixed) hacquired)
        obtain ⟨rfl, hs''⟩ := hr
        exact hs''
      | true =>
        simp only [if_true]
        have hnext : ∀ w ∈ if v ∈ old then acquired else acquired ++ [v], w ∉ old := by
          split
          · exact hacquired
          · next hnew =>
            intro w hw
            rcases List.mem_append.1 hw with hw | hw
            · exact hacquired w hw
            · rwa [List.mem_singleton.1 hw]
        refine wp_mono (fun r s'' hs'' => ?_) (ih (k.cons hs' (he rfl))
          (fun w hw => List.mem_cons_of_mem v (hfixed hw)) hnext)
        cases r with
        | error e => exact hs''
        | ok acquired =>
          refine ⟨k.subset hs''.1 ?_, hs''.2⟩
          rw [List.cons_append]
          exact List.perm_middle.symm.subset

/-- Where the assertion on the values that are kept implies `K`, each call ends in `K`. -/
theorem keeping (k : Keeps tables Φ id [] A) {K : σ → Prop} (hK : ∀ s, A kept s → K s) :
    Keeps tables (Program.keeping Φ K) id kept fun owned s => A (owned ++ kept) s := by
  have hkeep {owned s} (h : A (owned ++ kept) s) : K s :=
    hK s (k.subset h (List.subset_append_right _ _))
  exact
    { subset := fun h hsub => k.subset h (List.append_subset.2
        ⟨fun _ hv => List.mem_append_left _ (hsub hv), List.subset_append_right _ _⟩)
      cons := k.cons
      record := fun i h => keeping_of (k.record i h) fun _ _ hr => hkeep hr.1
      owner := fun index key h => keeping_of (k.owner index key h) fun _ _ hr => hkeep hr.1
      leftover := fun h hid hno => keeping_of (k.leftover h hid hno) fun _ _ hr => hkeep hr
      claimEntry := fun f key h => keeping_of (k.claimEntry f key h) fun _ _ hr => hkeep hr.1
      releaseEntry := fun h hv hkept => keeping_of
        (k.releaseEntry h (fun hm => (List.mem_append.1 hm).elim hv hkept) List.not_mem_nil)
        fun _ _ hr => hkeep hr }

end Keeps

end Accounts.Directory
