import Accounts.Proofs.Directory.Hazards
import Accounts.Session.Interference

/-!
# A failed save has not happened

Saves on a backend where any of the calls may fail. A plan of failures is `Bearable` if nobody else
acts, a write of a record that fails has no effect, and putting a record back does not fail. Under
such a plan a save either fails and leaves every user to be found as before, or succeeds and changes
what is found of its own user only (`save_atomic`).
-/
namespace Accounts.Directory

open Backend Session

/-- Only failures, and none of them in putting a record back: a save writes its record first. -/
def Bearable (plan : List Interference) : Prop :=
  ∀ i ∈ plan, i.acts = [] ∧ (i.kind = .setRecord → i.nth = 0 ∧ i.afterCall = false) ∧
    i.kind ≠ .deleteRecord

variable {α : Type} {t : Tables} {plan : List Interference}

/-- What the preconditions of a save see of a watched backend. -/
def scene (w : Watched Tables) : Scene := ⟨w.backend, w.count .setRecord != 0⟩

theorem interfere_of_quiet {due : List Interference} (hdue : ∀ i ∈ due, i.acts = []) :
    interfere Tables.serve due t = (none, t) ∨
      ∃ i ∈ due, ∃ e, i.failure = some e ∧ interfere Tables.serve due t = (some e, t) := by
  induction due with
  | nil => exact Or.inl rfl
  | cons i due ih =>
    obtain ⟨hi, hrest⟩ := List.forall_mem_cons.1 hdue
    rw [interfere, hi]
    simp only [List.foldl_nil]
    cases hfailure : i.failure with
    | some e => exact Or.inr ⟨i, List.mem_cons_self, e, hfailure, rfl⟩
    | none =>
      rcases ih hrest with hnone | ⟨j, hj, e, he⟩
      · exact Or.inl hnone
      · exact Or.inr ⟨j, List.mem_cons_of_mem i hj, e, he⟩

/-- A call is answered, refused by interference before it, or loses its reply to one after it. -/
theorem respond_of_quiet {r : Request} {before after : List Interference}
    (hbefore : ∀ i ∈ before, i.acts = []) (hafter : ∀ i ∈ after, i.acts = []) :
    Watched.respond Tables.serve r before after t =
        (.ok (Tables.respond r t).1, (Tables.respond r t).2) ∨
      (∃ i ∈ before, ∃ e, i.failure = some e ∧
        Watched.respond Tables.serve r before after t = (.error e, t)) ∨
      ∃ i ∈ after, ∃ e, i.failure = some e ∧
        Watched.respond Tables.serve r before after t = (.error e, (Tables.respond r t).2) := by
  unfold Watched.respond
  rcases interfere_of_quiet (t := t) hbefore with hb | ⟨i, hi, e, he, hb⟩
  · rw [hb]
    simp only [Tables.serve]
    rcases interfere_of_quiet (t := (Tables.respond r t).2) hafter with ha | ⟨i, hi, e, he, ha⟩
    · rw [ha]
      exact Or.inl rfl
    · rw [ha]
      exact Or.inr (Or.inr ⟨i, hi, e, he, rfl⟩)
  · rw [hb]
    exact Or.inr (Or.inl ⟨i, hi, e, he, rfl⟩)

/-- Under a plan of failures a call is answered, or a failure that is planned for it leaves the
tables as they were before or after it. -/
theorem serve_of_quiet (hplan : ∀ i ∈ plan, i.acts = []) (w : Watched Tables) (r : Request) :
    ∃ reply t', Watched.serve Tables.serve plan r w = (reply, ⟨t', ⟨r, reply⟩ :: w.calls⟩) ∧
      (reply = .ok (Tables.respond r w.backend).1 ∧ t' = (Tables.respond r w.backend).2 ∨
        ∃ i ∈ plan, i.kind = kindOf r ∧ i.nth = w.count (kindOf r) ∧
          ∃ e, i.failure = some e ∧ reply = .error e ∧
            t' = if i.afterCall then (Tables.respond r w.backend).2 else w.backend) := by
  have hdue : ∀ i ∈ plan.filter fun i => i.kind == kindOf r && i.nth == w.count (kindOf r),
      i ∈ plan ∧ i.kind = kindOf r ∧ i.nth = w.count (kindOf r) := by
    intro i hi
    simpa using hi
  simp only [Watched.serve, List.partition_eq_filter_filter]
  generalize plan.filter (fun i => i.kind == kindOf r && i.nth == w.count (kindOf r)) = due
    at hdue ⊢
  rcases respond_of_quiet (t := w.backend) (r := r)
    (fun i hi => hplan i (hdue i (List.mem_of_mem_filter hi)).1)
    (fun i hi => hplan i (hdue i (List.mem_of_mem_filter hi)).1) with
    hr | ⟨i, hi, e, he, hr⟩ | ⟨i, hi, e, he, hr⟩
  · rw [hr]
    exact ⟨_, _, rfl, Or.inl ⟨rfl, rfl⟩⟩
  · rw [hr]
    obtain ⟨hi, hearly⟩ := List.mem_filter.1 hi
    obtain ⟨hmem, hk, hn⟩ := hdue i hi
    have hbefore : i.afterCall = false := by simpa using hearly
    exact ⟨_, _, rfl, Or.inr ⟨i, hmem, hk, hn, e, he, rfl, by rw [hbefore]; rfl⟩⟩
  · rw [hr]
    obtain ⟨hi, hlate⟩ := List.mem_filter.1 hi
    obtain ⟨hmem, hk, hn⟩ := hdue i hi
    have hafter : i.afterCall = true := by simpa using hlate
    exact ⟨_, _, rfl, Or.inr ⟨i, hmem, hk, hn, e, he, rfl, by rw [hafter]; rfl⟩⟩

theorem kindOf_eq_setRecord {r : Request} : kindOf r = .setRecord ↔ isWrite r = true := by
  cases r <;> simp [kindOf, isWrite]

theorem scene_after (w : Watched Tables) (r : Request) (reply : Except BackendError r.Value)
    (t' : Tables) : scene ⟨t', ⟨r, reply⟩ :: w.calls⟩ = (scene w).after r t' := by
  have hwritten : ((⟨t', ⟨r, reply⟩ :: w.calls⟩ : Watched Tables).count .setRecord != 0) =
      ((w.count .setRecord != 0) || isWrite r) := by
    unfold Watched.count
    rw [List.countP_cons]
    by_cases hk : kindOf r = .setRecord
    · simp [hk, kindOf_eq_setRecord.1 hk]
    · have hw : isWrite r = false := Bool.eq_false_iff.2 fun hw => hk (kindOf_eq_setRecord.2 hw)
      simp [hk, hw]
  unfold scene Scene.after
  rw [hwritten]

theorem mayFail_of_due {w : Watched Tables} {r : Request} {i : Interference}
    (hplan : Bearable plan) (hi : i ∈ plan) (hk : i.kind = kindOf r)
    (hn : i.nth = w.count (kindOf r)) : mayFail (scene w).written r = true := by
  obtain ⟨-, hset, hdelete⟩ := hplan i hi
  cases r with
  | setRecord id value =>
    have hzero := (hset hk).1
    rw [hn] at hzero
    have hcount : w.count .setRecord = 0 := hzero
    simp [mayFail, scene, hcount]
  | deleteRecord id => exact absurd hk hdelete
  | _ => rfl

theorem mayLoseReply_of_due {r : Request} {i : Interference} (hplan : Bearable plan)
    (hi : i ∈ plan) (hk : i.kind = kindOf r) (ha : i.afterCall = true) :
    mayLoseReply r = true := by
  obtain ⟨-, hset, hdelete⟩ := hplan i hi
  cases r with
  | setRecord id value =>
    rw [(hset hk).2] at ha
    cases ha
  | deleteRecord id => exact absurd hk hdelete
  | _ => rfl

/-- The answers of the watched backend are among those that a save is proof against. -/
theorem hazards_serve (hplan : Bearable plan) (c : Call) (Q : c.Reply → Scene → Prop)
    (w : Watched Tables) (h : hazards (fun _ => False) c Q (scene w)) :
    Q (serve (Watched.serve Tables.serve plan) c w).1
      (scene (serve (Watched.serve Tables.serve plan) c w).2) := by
  cases c with
  | lock => exact h w.backend (.refl _ _)
  | unlock => exact h w.backend (.refl _ _)
  | backend r =>
    obtain ⟨-, hdone, hrefused, hlost⟩ := h w.backend (.refl _ _)
    obtain ⟨reply, t', hserve, hcases⟩ := serve_of_quiet (fun i hi => (hplan i hi).1) w r
    simp only [serve, hserve, scene_after]
    rcases hcases with ⟨rfl, rfl⟩ | ⟨i, hi, hk, hn, e, -, rfl, rfl⟩
    · exact hdone
    · cases hafter : i.afterCall with
      | false => exact hrefused (mayFail_of_due hplan hi hk hn) e
      | true => exact hlost (mayLoseReply_of_due hplan hi hk hafter) e

/-- The save of `u` on these tables while calls fail as planned, and the tables after it. -/
def saveUnder (plan : List Interference) (u : User) (t : Tables) :
    Except DirectoryError Unit × Tables :=
  let (r, w) := (save u).run.run (serve (Watched.serve Tables.serve plan)) (Watched.start t)
  (r, w.backend)

theorem ends_saveUnder (h : t.Indexed) {u : User} (hu : u.IsDated) (hplan : Bearable plan) :
    ∃ w, Ends (fun _ => False) t u (saveUnder plan u t).1 ⟨(saveUnder plan u t).2, w⟩ := by
  have hwp : (save u).run.wp (hazards fun _ => False) (Ends (fun _ => False) t u)
      (scene (Watched.start t)) := wp_save _ h hu
  exact ⟨_, Program.wp_run (hazards_serve hplan) hwp⟩

theorem user?_of_error (h : t.Indexed) {u : User} (hu : u.IsDated) (hplan : Bearable plan)
    {e : DirectoryError} (he : (saveUnder plan u t).1 = .error e) :
    (saveUnder plan u t).2.Indexed ∧
      ∀ id, (saveUnder plan u t).2.user? id = t.user? id := by
  obtain ⟨w, hends⟩ := ends_saveUnder h hu hplan
  rw [he] at hends
  obtain ⟨own, w, hown, hs⟩ := hends
  refine ⟨hs.indexed, fun id => ?_⟩
  by_cases hid : id = u.id
  · subst hid
    exact (hs.own.resolve_right And.left).trans (hown.resolve_right not_false)
  · unfold Tables.user?
    rw [(hs.others id hid).resolve_right And.left]

theorem user?_of_ok (h : t.Indexed) {u : User} (hu : u.IsDated) (hplan : Bearable plan)
    (hok : (saveUnder plan u t).1 = .ok ()) :
    (saveUnder plan u t).2.Indexed ∧
      ∀ id, (saveUnder plan u t).2.user? id = if id = u.id then some u else t.user? id := by
  obtain ⟨w, hends⟩ := ends_saveUnder h hu hplan
  rw [hok] at hends
  refine ⟨hends.indexed, fun id => ?_⟩
  by_cases hid : id = u.id
  · rw [if_pos hid, hid]
    exact hends.own.resolve_right And.left
  · rw [if_neg hid]
    unfold Tables.user?
    rw [(hends.others id hid).resolve_right And.left]

theorem not_isIncomplete_of_ok {u : User} (hok : (saveUnder plan u t).1 = .ok ()) :
    ¬ u.IsIncomplete := by
  intro hu
  obtain ⟨reason, hr⟩ := run_save_eq_done_iff.2 hu
  unfold saveUnder at hok
  rw [hr] at hok
  cases hok

/-- Whatever calls fail, a save that fails has changed nothing that is ever found, and one that
succeeds has changed what is found of its own user and nothing else. -/
theorem save_atomic (h : t.Indexed) {u : User} (hu : u.IsDated) (hplan : Bearable plan) :
    (∀ e, (saveUnder plan u t).1 = .error e →
      (∀ id, ((saveUnder plan u t).2.record id).map User.decode? =
        (t.record id).map User.decode?) ∧
      (saveUnder plan u t).2.Indexed ∧
      ∀ field, (runAlone (find field) (saveUnder plan u t).2).1 = (runAlone (find field) t).1) ∧
    ((saveUnder plan u t).1 = .ok () →
      (runAlone (get u.id) (saveUnder plan u t).2).1 = .ok u ∧
      (∀ f key, u.unique? f = some key →
        (runAlone (findOwner f key) (saveUnder plan u t).2).1 = .ok u) ∧
      (∀ f key, t.Carries u.id f key → u.unique? f ≠ some key →
        (runAlone (findOwner f key) (saveUnder plan u t).2).1 = .error .notFound) ∧
      ∀ field x, x.id ≠ u.id →
        ((runAlone (find field) (saveUnder plan u t).2).1 = .ok x ↔
          (runAlone (find field) t).1 = .ok x)) := by
  refine ⟨fun e he => ?_, fun hok => ?_⟩
  · obtain ⟨hindexed, huser⟩ := user?_of_error h hu hplan he
    refine ⟨fun id => ?_, hindexed, runAlone_find_congr h hindexed huser⟩
    rw [hindexed.map_decode?, h.map_decode?, huser]
  · obtain ⟨hindexed, huser⟩ := user?_of_ok h hu hplan hok
    have hown : (saveUnder plan u t).2.user? u.id = some u := by rw [huser, if_pos rfl]
    have hid : u.id ≠ "" := fun hid => not_isIncomplete_of_ok hok (Or.inl hid)
    refine ⟨?_, fun f key hk => ?_, fun f key hc hk => ?_, fun field x hx => ?_⟩
    · rw [runAlone_get hindexed hid, hown]
      rfl
    · rw [runAlone_findOwner hindexed hown hk]
    · rw [runAlone_findOwner_of_free hindexed]
      rintro id ⟨v, hv, hvk⟩
      rw [huser] at hv
      split at hv
      · cases hv
        exact hk hvk
      · next hne => exact hne (h.unique ⟨v, hv, hvk⟩ hc)
    · rw [runAlone_find_eq_ok_iff hindexed, runAlone_find_eq_ok_iff h, huser, if_neg hx]

/-- Bob's record cannot be written, or the reply to the second claim of his save is lost. -/
theorem save_atomic_bob :
    let refused := [⟨.setRecord, 0, false, [], some (.failed "down")⟩]
    let lost := [⟨.claimEntry, 1, true, [], some (.failed "down")⟩]
    (saveUnder refused bob aliceAndLeftover).1 = .error (.backend (.failed "down")) ∧
      (saveUnder refused bob aliceAndLeftover).2.Indexed ∧
      (saveUnder lost bob aliceAndLeftover).1 = .error (.backend (.failed "down")) ∧
      (saveUnder lost bob aliceAndLeftover).2.Indexed := by
  intro refused lost
  have hrefused : Bearable refused := by simp [refused, Bearable]
  have hlost : Bearable lost := by simp [lost, Bearable]
  have h₁ : (saveUnder refused bob aliceAndLeftover).1 = .error (.backend (.failed "down")) := rfl
  have h₂ : (saveUnder lost bob aliceAndLeftover).1 = .error (.backend (.failed "down")) := rfl
  exact ⟨h₁, ((save_atomic indexed_aliceAndLeftover isDated_create hrefused).1 _ h₁).2.1,
    h₂, ((save_atomic indexed_aliceAndLeftover isDated_create hlost).1 _ h₂).2.1⟩

end Accounts.Directory
