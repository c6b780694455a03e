import Accounts.Proofs.Directory.Faults

/-!
# The one write of a save

While nobody else changes the tables and no call fails, a save changes the records once at most: it
finds every claim confirmed after its write, so it never puts anything back (`wp_saveLocked_sole`).
-/
namespace Accounts.Directory

open Backend Program

def altersRecords : Request → Bool
  | .setRecord _ _ => true
  | .deleteRecord _ => true
  | _ => false

theorem altersRecords_of_isWrite {r : Request} (h : isWrite r = true) : altersRecords r = true := by
  cases r with
  | setRecord id value => rfl
  | _ => cases h

/-- No call fails, and the only change of a record is the first write, of `u`. -/
def soleWrite (u : User) : Calls interface Scene
  | .backend r, Q, s =>
    (altersRecords r = true → s.written = false ∧ r = .setRecord u.id u.encode) ∧
      Q (.ok (Tables.respond r s.tables).1) (s.after r (Tables.respond r s.tables).2)
  | .lock, _, _ => False
  | .unlock, _, _ => False

instance (u : User) : (soleWrite u).Monotone := by
  refine ⟨fun {c Q R s} hQR h => ?_⟩
  cases c with
  | backend r => exact ⟨h.1, hQR _ _ h.2⟩
  | lock => exact h
  | unlock => exact h

/-- What the calls that leave the records alone keep under `Φ` they keep under `Ψ`. -/
theorem Keeps.of_calls {σ : Type} {tables : σ → Tables} {Φ Ψ : Calls interface σ} {id : String}
    {kept : List (UniqueField × String)} {A : List (UniqueField × String) → σ → Prop}
    (k : Keeps tables Φ id kept A)
    (h : ∀ r Q s, altersRecords r = false → Φ (.backend r) Q s → Ψ (.backend r) Q s) :
    Keeps tables Ψ id kept A where
  subset := k.subset
  cons := k.cons
  record i hA := h (.record i) _ _ rfl (k.record i hA)
  owner index key hA := h (.owner index key) _ _ rfl (k.owner index key hA)
  leftover hA hid hno := h (.releaseEntry _ _ _) _ _ rfl (k.leftover hA hid hno)
  claimEntry f key hA := h (.claimEntry _ _ _) _ _ rfl (k.claimEntry f key hA)
  releaseEntry hA hv hkept := h (.releaseEntry _ _ _) _ _ rfl (k.releaseEntry hA hv hkept)

variable {b : Tables} {u : User} {own : Option User} {owned : List (UniqueField × String)}
  {w : Bool} {s : Scene}

theorem Standing.keeps_sole : Keeps Scene.tables (soleWrite u) u.id []
    (fun owned s => Standing b u own owned w s) := by
  refine Keeps.of_calls (Standing.keeps (F := ⟨fun _ _ => False, fun _ _ => False⟩)) ?_
  intro r Q s hr h
  exact ⟨fun halters => absurd (hr.symm.trans halters) Bool.false_ne_true, h.1⟩

/-- Where every claim leads to the user none is lost. -/
theorem wp_lostClaim_none {K : Scene → Prop} (hK : K s) (hwritten : s.written = true)
    {values : List (UniqueField × String)}
    (hvalues : ∀ v ∈ values, s.tables.entry v.1.index v.2 = some u.id) :
    (lostClaim u.id values).run.wp (keeping (soleWrite u) K) (fun r s' => r = .ok none ∧ s' = s)
      s := by
  induction values with
  | nil => exact ⟨rfl, rfl⟩
  | cons v values ih =>
    obtain ⟨hv, hrest⟩ := List.forall_mem_cons.1 hvalues
    have hsame : s.after (.owner v.1.index v.2) s.tables = s :=
      congrArg (Scene.mk s.tables) (Bool.or_false s.written)
    have howner : (ask (.owner v.1.index v.2)).run.wp (keeping (soleWrite u) K)
        (fun r s' => r = .ok (some u.id) ∧ s' = s) s := by
      rw [wp_ask]
      refine ⟨fun halters => absurd halters Bool.false_ne_true, ?_, ?_, hsame⟩
      · exact (congrArg K hsame).mpr hK
      · exact congrArg Except.ok hv
    rw [lostClaim]
    refine wp_seq howner ?_ (fun e s' hr => by cases hr.1)
    rintro x s' ⟨hx, rfl⟩
    cases hx
    simp only [if_true]
    exact ih hrest

section Keeping

variable {K : Scene → Prop}

theorem Standing.keeps_keeping {kept : List (UniqueField × String)}
    (hK : ∀ s, Standing b u own kept w s → K s) :
    Keeps Scene.tables (keeping (soleWrite u) K) u.id kept
      (fun owned s => Standing b u own (owned ++ kept) w s) :=
  Standing.keeps_sole.keeping hK

/-- The write of the record, which nothing undoes. -/
theorem Standing.wp_write (h : Standing b u own owned false s)
    (hK : ∀ s, Standing b u (User.decode? u.encode) owned true s → K s) (cleanup : Action Unit) :
    (orElse (Directory.ask (.setRecord u.id u.encode)) cleanup).run.wp (keeping (soleWrite u) K)
      (post (fun _ => Standing b u (User.decode? u.encode) owned true) fun _ => False) s := by
  have hafter (t : Tables) : s.after (.setRecord u.id u.encode) t = ⟨t, true⟩ := by
    unfold Scene.after
    rw [h.written]
    rfl
  have hnext : Standing b u (User.decode? u.encode) owned true
      (s.after (.setRecord u.id u.encode) (s.tables.withRecord u.id (some u.encode))) := by
    have hnext := h.of_withRecord (some u.encode)
    rw [Option.bind_some] at hnext
    rw [hafter]
    exact hnext
  refine wp_orElse (R := post (fun _ => Standing b u (User.decode? u.encode) owned true)
    fun _ => False) ?_ (fun _ _ hs' => hs') (fun _ _ hs' => hs'.elim)
  rw [wp_ask]
  exact ⟨fun _ => ⟨h.written, rfl⟩, hK _ hnext, hnext⟩

/-- What holds of every state in which the record is the old one with its values leading to it, or
the new one with its values leading to it, holds after each call of a save. -/
theorem wp_saveLocked_keeping
    (hbefore : ∀ s, Standing b u (b.user? u.id) (b.leadingTo u.id) false s → K s)
    (hafter : ∀ s, Standing b u (User.decode? u.encode) u.uniqueValues true s → K s) :
    (saveLocked u).run.wp (keeping (soleWrite u) K) (fun r s' => r = .ok () ↔ s'.written = true)
      ⟨b, false⟩ := by
  have keeps_before := Standing.keeps_keeping hbefore
  have keeps_after := Standing.keeps_keeping hafter
  have hfail {owned : List (UniqueField × String)} (e : DirectoryError) {s' : Scene}
      (hs' : Standing b u (b.user? u.id) owned false s') :
      (Except.error e : Except DirectoryError Unit) = .ok () ↔ s'.written = true := by
    rw [hs'.written]
    exact iff_of_false nofun nofun
  unfold saveLocked
  refine wp_seq (keeps_before.checkFree [] (Standing.start b u) u.uniqueValues) ?_
    (fun e _ hs' => hfail e hs')
  intro _ s₁ h₁
  refine wp_seq (keeps_before.load [] h₁ u.id) ?_ (fun e _ hs' => hfail e hs'.1)
  rintro old s₂ ⟨h₂, hload⟩
  obtain rfl : old = b.user? u.id := (hload old rfl).symm.trans h₂.own
  change (claimAll u.id (b.valuesOf u.id) u.uniqueValues [] >>= _).run.wp _ _ _
  refine wp_seq (keeps_before.claimAll h₂ (List.Subset.refl _) (List.nil_subset _)
    (List.filter_subset_self _) (fun v hv => by cases hv)) ?_ (fun e _ hs' => hfail e hs')
  rintro acquired s₃ ⟨h₃, -⟩
  have hclaimed : Standing b u (b.user? u.id) u.uniqueValues false s₃ := h₃.of_subset fun v hv =>
    List.mem_append_left _ (List.mem_append_left _ hv)
  refine wp_seq (hclaimed.wp_write hafter _) ?_ (fun _ _ hs' => hs'.elim)
  intro _ s₄ h₄
  refine wp_seq (R := fun r s' => r = .ok none ∧ s' = s₄) ?_ ?_ (fun _ _ hr => by cases hr.1)
  · refine wp_orElse (wp_lostClaim_none (hafter s₄ h₄) h₄.written h₄.owns) (fun _ _ hr => hr) ?_
    rintro e s' ⟨hr, -⟩
    cases hr
  rintro x s₅ ⟨hx, rfl⟩
  cases hx
  refine wp_mono (fun _ _ hr => iff_of_true hr.1 hr.2.written) (keeps_after.releaseAll (show
    Standing b u _ ([] ++ u.uniqueValues) true _ from h₄) fun v hv =>
      ⟨List.not_mem_nil, of_decide_eq_true (List.mem_filter.1 hv).2⟩)

end Keeping

theorem wp_saveLocked_sole (b : Tables) :
    (saveLocked u).run.wp (soleWrite u) (fun r s' => r = .ok () ↔ s'.written = true) ⟨b, false⟩ :=
  wp_of_keeping (wp_saveLocked_keeping (K := fun _ => True) (fun _ _ => trivial)
    fun _ _ => trivial)

/-! ### What a save alone does to the records -/

theorem record_respond {r : Request} (h : altersRecords r = false) (t : Tables) :
    (Tables.respond r t).2.record = t.record := by
  cases r with
  | setRecord id value => cases h
  | deleteRecord id => cases h
  | claimEntry index key owner =>
    simp only [Tables.respond]
    split <;> rfl
  | releaseEntry index key owner =>
    simp only [Tables.respond]
    split <;> rfl
  | _ => rfl

/-- The records are as at first, or with the one that has been written. -/
def Recorded (b : Tables) (u : User) (s : Scene) (t : Tables) : Prop :=
  s.tables = t ∧
    t.record = if s.written then (b.withRecord u.id (some u.encode)).record else b.record

theorem Recorded.call {c : Call} {Q : c.Reply → Scene → Prop} {t : Tables}
    (h : Recorded b u s t) (hc : soleWrite u c Q s) :
    answered (serve Tables.serve) c (fun r t' => ∃ s', Recorded b u s' t' ∧ Q r s') t := by
  obtain ⟨rfl, hrecord⟩ := h
  cases c with
  | lock => exact hc.elim
  | unlock => exact hc.elim
  | backend r =>
    refine ⟨_, ⟨rfl, ?_⟩, hc.2⟩
    change (Tables.respond r s.tables).2.record = _
    cases hr : altersRecords r with
    | true =>
      obtain ⟨hw, rfl⟩ := hc.1 hr
      have hafter (t : Tables) : (s.after (.setRecord u.id u.encode) t).written = true :=
        Bool.or_true _
      rw [hw, if_neg Bool.false_ne_true] at hrecord
      rw [hafter, if_pos rfl]
      simp only [Tables.respond, Tables.withRecord, hrecord]
    | false =>
      have hw : isWrite r = false := by
        by_contra hwrite
        rw [altersRecords_of_isWrite (Bool.not_eq_false _ ▸ hwrite)] at hr
        cases hr
      have hafter (t : Tables) : (s.after r t).written = s.written := by
        unfold Scene.after
        rw [hw, Bool.or_false]
      rw [hafter, record_respond hr]
      exact hrecord

/-- A save alone on any tables writes its record if it succeeds, and else leaves all records. -/
theorem record_runAlone_save (u : User) (b : Tables) :
    ((runAlone (save u) b).1 = .ok () ∧
        (runAlone (save u) b).2.record = (b.withRecord u.id (some u.encode)).record) ∨
      ∃ e, (runAlone (save u) b).1 = .error e ∧ (runAlone (save u) b).2.record = b.record := by
  by_cases hu : u.IsIncomplete
  · obtain ⟨reason, hdone⟩ := run_save_eq_done_iff.2 hu
    unfold runAlone
    rw [hdone]
    exact Or.inr ⟨_, rfl, rfl⟩
  · have hstart : Recorded b u ⟨b, false⟩ b := ⟨rfl, rfl⟩
    have hends := wp_simulate (Ψ := answered (serve Tables.serve))
      (fun c Q s t h hc => Recorded.call h hc) hstart (wp_saveLocked_sole b)
    rw [wp_answered] at hends
    obtain ⟨s, ⟨-, hrecord⟩, hwritten⟩ := hends
    rw [runAlone_save_of_complete hu]
    unfold runAlone
    cases hr : ((saveLocked u).run.run (serve Tables.serve) b).1 with
    | ok _ =>
      rw [hwritten.1 hr, if_pos rfl] at hrecord
      exact Or.inl ⟨rfl, hrecord⟩
    | error e =>
      have hw : s.written = false := by
        by_contra hw
        rw [hwritten.2 (Bool.not_eq_false _ ▸ hw)] at hr
        cases hr
      rw [hw, if_neg Bool.false_ne_true] at hrecord
      exact Or.inr ⟨e, rfl, hrecord⟩

end Accounts.Directory
