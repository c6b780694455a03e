import Accounts.Proofs.Directory.Index
import Accounts.Proofs.Program.Precondition
import Accounts.Directory.Save

/-!
# What a save does whatever it is answered

Facts about the calls of a save that hold for any replies, so also while others change the
backend: its first write is of its own record, it looks at the entries of its own values only, and
if it succeeds, then after its write it has found each of them to name its user and has not
released it since (`wp_save_conduct`).
-/
namespace Accounts.Directory

open Backend Program

/-- What a save has come to: whether it has written its record, and the entries that it has found
after that to name its user and has not released. -/
structure Progress where
  written : Bool
  confirmed : List (String × String)

namespace Progress

def start : Progress := ⟨false, []⟩

def note (id : String) (l : Progress) : (r : Request) → Except BackendError r.Value → Progress
  | .setRecord _ _, _ => { l with written := true }
  | .owner index key, .ok (some owner) =>
    if l.written = true ∧ owner = id then { l with confirmed := (index, key) :: l.confirmed } else l
  | .releaseEntry index key owner, _ =>
    if owner = id then { l with confirmed := l.confirmed.filter fun c => c ≠ (index, key) } else l
  | _, _ => l

/-- Without these values among the confirmed ones. -/
def without (l : Progress) (values : List (UniqueField × String)) : Progress :=
  { l with confirmed := l.confirmed.filter fun c => ¬ Among values c.1 c.2 }

end Progress

/-- The calls that a save of `u` makes when it has come so far. -/
def Proper (u : User) (l : Progress) : Request → Prop
  | .setRecord id value => l.written = true ∨ id = u.id ∧ value = u.encode
  | .owner index key => Among u.uniqueValues index key
  | .putEntry _ _ _ => False
  | .removeEntry _ _ => False
  | _ => True

/-- Calls are proper, and any reply may come. -/
def conduct (u : User) : Calls interface Progress
  | .backend r, Q, l => Proper u l r ∧ ∀ reply, Q reply (l.note u.id r reply)
  | .lock, Q, l => Q () l
  | .unlock, Q, l => Q () l

/-- A save that succeeds has confirmed all its values. -/
def Confirms (u : User) : Except DirectoryError Unit → Progress → Prop :=
  post (fun _ l => ∀ v ∈ u.uniqueValues, (v.1.index, v.2) ∈ l.confirmed) fun _ => True

instance (u : User) : (conduct u).Monotone := by
  refine ⟨fun {c Q R l} hQR h => ?_⟩
  cases c with
  | backend r => exact ⟨h.1, fun reply => hQR _ _ (h.2 reply)⟩
  | lock => exact hQR _ _ h
  | unlock => exact hQR _ _ h

variable {u : User} {l : Progress}

theorem wp_conduct_ask {r : Request} {Q : Except DirectoryError r.Value → Progress → Prop}
    (hr : Proper u l r) (hQ : ∀ reply, Q (reply.mapError .backend) (l.note u.id r reply)) :
    (ask r).run.wp (conduct u) Q l := by
  rw [wp_ask]
  exact ⟨hr, hQ⟩

/-! ### Before the write -/

theorem note_start {id : String} {r : Request} (hr : ∀ i value, r ≠ .setRecord i value)
    (reply : Except BackendError r.Value) : Progress.start.note id r reply = .start := by
  cases r with
  | setRecord i value => exact absurd rfl (hr i value)
  | owner index key => rcases reply with e | _ | owner <;> simp [Progress.note, Progress.start]
  | releaseEntry index key owner => simp [Progress.note, Progress.start]
  | _ => rfl

/-- A call that leaves a save at its start. -/
theorem wp_ask_start {r : Request} (hproper : Proper u .start r)
    (hr : ∀ i value, r ≠ .setRecord i value) :
    (ask r).run.wp (conduct u) (fun _ l => l = .start) .start :=
  wp_conduct_ask hproper fun reply => note_start hr reply

theorem wp_load_start (id : String) :
    (load id).run.wp (conduct u) (fun _ l => l = .start) .start := by
  unfold load
  refine wp_seq (wp_ask_start trivial (by simp)) ?_ (fun _ _ hl => hl)
  rintro x l rfl
  cases x with
  | none => rfl
  | some text =>
    simp only
    cases User.decode? text <;> rfl

theorem wp_isTaken_start {f : UniqueField} {key : String} (hv : (f, key) ∈ u.uniqueValues) :
    (isTaken f key u.id).run.wp (conduct u) (fun _ l => l = .start) .start := by
  unfold isTaken
  refine wp_seq (wp_ask_start ⟨(f, key), hv, rfl, rfl⟩ (by simp)) ?_ (fun _ _ hl => hl)
  rintro x l rfl
  cases x with
  | none => rfl
  | some owner =>
    by_cases hid : owner = u.id
    · simp only [if_pos hid]
      rfl
    · simp only [if_neg hid]
      have hholds : (holds f key owner).run.wp (conduct u) (fun _ l => l = .start) .start :=
        wp_seq (wp_load_start owner) (fun _ _ hl => hl) (fun _ _ hl => hl)
      refine wp_seq hholds ?_ (fun _ _ hl => hl)
      rintro held l rfl
      cases held with
      | true => rfl
      | false =>
        exact wp_seq (wp_ask_start trivial (by simp)) (fun _ _ hl => hl) (fun _ _ hl => hl)

theorem wp_checkFree_start {values : List (UniqueField × String)}
    (hvalues : values ⊆ u.uniqueValues) :
    (checkFree u.id values).run.wp (conduct u) (fun _ l => l = .start) .start := by
  induction values with
  | nil => rfl
  | cons v values ih =>
    obtain ⟨hv, hrest⟩ := List.cons_subset.1 hvalues
    rw [checkFree]
    refine wp_seq (wp_isTaken_start hv) ?_ (fun _ _ hl => hl)
    rintro taken l rfl
    cases taken with
    | true => rfl
    | false => exact ih hrest

theorem wp_claim_start {f : UniqueField} {key : String} (hv : (f, key) ∈ u.uniqueValues) :
    (claim f key u.id).run.wp (conduct u) (fun _ l => l = .start) .start := by
  unfold claim
  refine wp_seq (wp_ask_start trivial (by simp)) ?_ (fun _ _ hl => hl)
  rintro claimed l rfl
  cases claimed with
  | true => rfl
  | false =>
    refine wp_seq (wp_isTaken_start hv) ?_ (fun _ _ hl => hl)
    rintro taken l rfl
    cases taken with
    | true => rfl
    | false => exact wp_ask_start trivial (by simp)

/-! ### Releasing -/

theorem without_nil (l : Progress) : l.without [] = l := by
  have hall : (l.confirmed.filter fun c => ¬ Among [] c.1 c.2) = l.confirmed :=
    List.filter_eq_self.2 fun c _ => decide_eq_true (not_among_nil c.1 c.2)
  unfold Progress.without
  rw [hall]

theorem note_release (l : Progress) (id : String) (v : UniqueField × String)
    (values : List (UniqueField × String)) (reply : Except BackendError Unit) :
    (l.note id (.releaseEntry v.1.index v.2 id) reply).without values =
      l.without (v :: values) := by
  simp only [Progress.note, Progress.without, if_true, List.filter_filter]
  congr 1
  apply List.filter_congr
  intro c _
  have hc : c ≠ (v.1.index, v.2) ↔ ¬ (v.1.index = c.1 ∧ v.2 = c.2) := by
    rw [ne_eq, Prod.ext_iff, eq_comm, @eq_comm _ c.2]
  rw [Bool.eq_iff_iff, Bool.and_eq_true, decide_eq_true_iff, decide_eq_true_iff,
    decide_eq_true_iff, among_cons, not_or, hc, and_comm]

theorem wp_releaseAll_conduct (l : Progress) (values : List (UniqueField × String)) :
    (releaseAll u.id values).run.wp (conduct u)
      (fun r l' => r = .ok () ∧ l' = l.without values) l := by
  induction values generalizing l with
  | nil => exact ⟨rfl, (without_nil l).symm⟩
  | cons v values ih =>
    rw [releaseAll, wp_bind_except, wp_attempt]
    apply wp_conduct_ask
    · trivial
    · intro reply
      rw [← note_release l u.id v values reply]
      exact ih _

theorem wp_claimAll_start {old values acquired : List (UniqueField × String)}
    (hvalues : values ⊆ u.uniqueValues) :
    (claimAll u.id old values acquired).run.wp (conduct u) (fun _ l => l = .start) .start := by
  have hrelease (acquired : List (UniqueField × String)) :
      (releaseAll u.id acquired).run.wp (conduct u) (fun _ l => l = .start) .start := by
    refine wp_mono ?_ (wp_releaseAll_conduct .start acquired)
    rintro r l ⟨-, rfl⟩
    rfl
  induction values generalizing acquired with
  | nil => rfl
  | cons v values ih =>
    obtain ⟨hv, hrest⟩ := List.cons_subset.1 hvalues
    rw [claimAll]
    refine wp_seq (R := fun _ l => l = .start) ?_ ?_ (fun _ _ hl => hl)
    · refine wp_orElse (wp_claim_start hv) (fun _ _ hl => hl) ?_
      rintro e l rfl
      exact hrelease acquired
    · rintro claimed l rfl
      cases claimed with
      | true =>
        simp only [if_true]
        exact ih hrest
      | false =>
        simp only [Bool.false_eq_true, if_false]
        exact wp_seq (hrelease acquired) (fun _ _ hl => hl) (fun _ _ hl => hl)

/-! ### After the write -/

theorem wp_owner_written (hl : l.written = true) {index key : String}
    (hv : Among u.uniqueValues index key) :
    (ask (.owner index key)).run.wp (conduct u)
      (post (fun x l' => l'.written = true ∧ l.confirmed ⊆ l'.confirmed ∧
        (x = some u.id → (index, key) ∈ l'.confirmed)) fun l' => l'.written = true) l := by
  refine wp_conduct_ask hv fun reply => ?_
  rcases reply with e | _ | owner
  · exact hl
  · exact ⟨hl, List.Subset.refl _, fun hx => by cases hx⟩
  · have hnote : l.note u.id (.owner index key) (.ok (some owner)) =
        if l.written = true ∧ owner = u.id then
          { l with confirmed := (index, key) :: l.confirmed }
        else l := rfl
    rw [hnote]
    by_cases hid : owner = u.id
    · rw [if_pos ⟨hl, hid⟩]
      exact ⟨hl, List.subset_cons_self _ _, fun _ => List.mem_cons_self⟩
    · rw [if_neg fun h => hid h.2]
      exact ⟨hl, List.Subset.refl _, fun hx => absurd (Option.some.inj hx) hid⟩

theorem wp_lostClaim_written (hl : l.written = true) {values : List (UniqueField × String)}
    (hvalues : values ⊆ u.uniqueValues) :
    (lostClaim u.id values).run.wp (conduct u)
      (post (fun x l' => l'.written = true ∧ l.confirmed ⊆ l'.confirmed ∧
        (x = none → ∀ v ∈ values, (v.1.index, v.2) ∈ l'.confirmed))
        fun l' => l'.written = true) l := by
  induction values generalizing l with
  | nil => exact ⟨hl, List.Subset.refl _, fun _ v hv => by cases hv⟩
  | cons v values ih =>
    obtain ⟨hv, hrest⟩ := List.cons_subset.1 hvalues
    rw [lostClaim]
    refine wp_seq (wp_owner_written hl ⟨v, hv, rfl, rfl⟩) ?_ (fun e l' hl' => hl')
    rintro x l' ⟨hl', hsub, hx⟩
    by_cases he : x = some u.id
    · simp only [if_pos he]
      refine wp_mono (fun r l'' hr => ?_) (ih hl' hrest)
      cases r with
      | error e => exact hr
      | ok y =>
        obtain ⟨hl'', hsub', hy⟩ := hr
        refine ⟨hl'', List.Subset.trans hsub hsub', fun hnone => ?_⟩
        exact List.forall_mem_cons.2 ⟨hsub' (hx he), hy hnone⟩
    · simp only [if_neg he]
      exact ⟨hl', hsub, fun hnone => by cases hnone⟩

theorem wp_rollBack_written (hl : l.written = true) (old : Option User)
    (acquired : List (UniqueField × String)) :
    (rollBack u.id old acquired).run.wp (conduct u) (fun _ _ => True) l := by
  have hrelease (l' : Progress) :
      (releaseAll u.id acquired).run.wp (conduct u) (fun _ _ => True) l' :=
    wp_mono (fun _ _ _ => trivial) (wp_releaseAll_conduct l' acquired)
  unfold rollBack
  rw [wp_bind_except, wp_attempt]
  cases old with
  | none => exact wp_conduct_ask trivial fun reply => hrelease _
  | some x => exact wp_conduct_ask (Or.inl hl) fun reply => hrelease _

/-! ### The whole save -/

theorem wp_saveLocked_conduct (u : User) :
    (saveLocked u).run.wp (conduct u) (Confirms u) .start := by
  unfold saveLocked
  refine wp_seq (wp_checkFree_start (List.Subset.refl _)) ?_ (fun _ _ _ => trivial)
  rintro _ l rfl
  refine wp_seq (wp_load_start u.id) ?_ (fun _ _ _ => trivial)
  rintro old l rfl
  refine wp_seq (wp_claimAll_start (List.Subset.refl _)) ?_ (fun _ _ _ => trivial)
  rintro acquired l rfl
  have hwrite : (orElse (ask (.setRecord u.id u.encode)) (releaseAll u.id acquired)).run.wp
      (conduct u) (post (fun _ l' => l'.written = true) fun _ => True) .start := by
    have hset : (ask (.setRecord u.id u.encode)).run.wp (conduct u)
        (fun _ l' => l'.written = true) .start :=
      wp_conduct_ask (Or.inr ⟨rfl, rfl⟩) fun _ => rfl
    refine wp_orElse hset (fun _ _ hl => hl) (fun e l' _ => ?_)
    exact wp_mono (fun _ _ _ => trivial) (wp_releaseAll_conduct l' acquired)
  refine wp_seq hwrite ?_ (fun _ _ _ => trivial)
  intro _ l₁ h₁
  have hconfirm : (orElse (lostClaim u.id u.uniqueValues) (rollBack u.id old acquired)).run.wp
      (conduct u) (post (fun x l' => l'.written = true ∧
        (x = none → ∀ v ∈ u.uniqueValues, (v.1.index, v.2) ∈ l'.confirmed)) fun _ => True) l₁ := by
    refine wp_orElse (wp_lostClaim_written h₁ (List.Subset.refl _))
      (fun _ _ hl => ⟨hl.1, hl.2.2⟩) (fun e l' hl' => ?_)
    exact wp_mono (fun _ _ _ => trivial) (wp_rollBack_written hl' old acquired)
  refine wp_seq hconfirm ?_ (fun _ _ _ => trivial)
  rintro x l₂ ⟨h₂, hall⟩
  cases x with
  | some f =>
    exact wp_seq (wp_rollBack_written h₂ old acquired) (fun _ _ _ => trivial) (fun _ _ _ => trivial)
  | none =>
    refine wp_mono ?_ (wp_releaseAll_conduct l₂ _)
    rintro r l ⟨rfl, rfl⟩ v hv
    refine List.mem_filter.2 ⟨hall rfl v hv, decide_eq_true ?_⟩
    rw [among_index, List.mem_filter]
    rintro ⟨-, hstale⟩
    exact of_decide_eq_true hstale hv

theorem wp_save_conduct (u : User) : (save u).run.wp (conduct u) (Confirms u) .start := by
  unfold save
  cases hvalid : validate u with
  | error e => trivial
  | ok _ =>
    change (locked (saveLocked u)).run.wp (conduct u) (Confirms u) .start
    rw [wp_locked]
    exact wp_saveLocked_conduct u

end Accounts.Directory
