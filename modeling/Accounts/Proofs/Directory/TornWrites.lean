import Accounts.Proofs.Directory.Atomicity
import Accounts.Proofs.Directory.Faults
import Mathlib.Data.List.Induction

/-!
# Saves that fail halfway, one after another

Saves from the empty tables whose calls fail as planned. A save is torn if it fails, yet its record
stands with a new value that does not lead to it: its write failed after taking effect, or putting
the old record back failed without one, and the claims were released all the same. A value gets two
owners exactly if a torn save is overtaken by a later save of the value (`one_owner_iff`).
-/
namespace Accounts.Directory

open Backend Session

variable {plan : List Interference} {t : Tables} {u : User}

/-- The first write of the record fails after it took effect, or putting a record back fails before
it does. -/
def CanTear (plan : List Interference) : Prop :=
  ∃ i ∈ plan, i.failure ≠ none ∧ (i.kind = .setRecord ∧ (i.nth = 0 ↔ i.afterCall = true) ∨
    i.kind = .deleteRecord ∧ i.afterCall = false)

/-- The failures of a plan that can hit a call, before or after it takes effect. -/
def planned (plan : List Interference) (afterCall written : Bool) (r : Request) : Prop :=
  ∃ i ∈ plan, i.failure ≠ none ∧ i.kind = kindOf r ∧ i.afterCall = afterCall ∧
    (kindOf r = .setRecord → (i.nth = 0 ↔ written = false))

def faultsOf (plan : List Interference) : Faults := ⟨planned plan false, planned plan true⟩

theorem canTear_of_tearing (h : (faultsOf plan).Tearing) : CanTear plan := by
  rcases h with ⟨id, text, i, hi, hf, hk, ha, hn⟩ | ⟨id, text, i, hi, hf, hk, ha, hn⟩ |
    ⟨id, i, hi, hf, hk, ha, -⟩
  · refine ⟨i, hi, hf, Or.inl ⟨hk, ?_⟩⟩
    rw [ha]
    simpa using hn rfl
  · refine ⟨i, hi, hf, Or.inl ⟨hk, ?_⟩⟩
    rw [ha]
    simpa using hn rfl
  · exact ⟨i, hi, hf, Or.inr ⟨hk, ha⟩⟩

/-- The answers of a watched backend under a plan of failures are those of a faulty one. -/
theorem faulty_serve (hplan : ∀ i ∈ plan, i.acts = []) (c : Call) (Q : c.Reply → Scene → Prop)
    (w : Watched Tables) (h : faulty (faultsOf plan) c Q (scene w)) :
    Q (serve (Watched.serve Tables.serve plan) c w).1
      (scene (serve (Watched.serve Tables.serve plan) c w).2) := by
  cases c with
  | lock => exact h
  | unlock => exact h
  | backend r =>
    obtain ⟨hdone, hrefused, hlost⟩ := h
    obtain ⟨reply, t', hserve, hcases⟩ := serve_of_quiet hplan w r
    simp only [serve, hserve, scene_after]
    rcases hcases with ⟨rfl, rfl⟩ | ⟨i, hi, hk, hn, e, he, rfl, rfl⟩
    · exact hdone
    · have hfailure : i.failure ≠ none := by
        rw [he]
        exact Option.some_ne_none e
      have hfirst : kindOf r = .setRecord → (i.nth = 0 ↔ (scene w).written = false) := by
        intro hset
        rw [hn, hset]
        simp [scene]
      cases hafter : i.afterCall with
      | false => exact hrefused ⟨i, hi, hfailure, hk, hafter, hfirst⟩ e
      | true => exact hlost ⟨i, hi, hfailure, hk, hafter, hfirst⟩ e

theorem leaves_saveUnder (hplan : ∀ i ∈ plan, i.acts = []) (hu : u.IsDated) (t : Tables) :
    ∃ w, Leaves (faultsOf plan) t u (saveUnder plan u t).1 ⟨(saveUnder plan u t).2, w⟩ := by
  have hwp : (save u).run.wp (faulty (faultsOf plan)) (Leaves (faultsOf plan) t u)
      (scene (Watched.start t)) := wp_save_leaves _ t hu
  exact ⟨_, Program.wp_run (faulty_serve hplan) hwp⟩

/-! ### Torn saves -/

/-- The save of `u` fails and leaves its record with a new value that does not lead to it. -/
structure Torn (plan : List Interference) (u : User) (t : Tables) (f : UniqueField)
    (key : String) : Prop where
  failed : ∃ e, (saveUnder plan u t).1 = .error e
  cause : CanTear plan
  isNew : ¬ t.Carries u.id f key
  stored : (saveUnder plan u t).2.user? u.id = some u
  value : u.unique? f = some key
  astray : (saveUnder plan u t).2.entry f.index key ≠ some u.id

/-- A save leaves its old record with the values that led to it, or its new one on values that
nobody else has; a value of the new one leads to it unless the save is torn. -/
theorem own_saveUnder (hplan : ∀ i ∈ plan, i.acts = []) (hu : u.IsDated) (t : Tables) :
    ((saveUnder plan u t).2.user? u.id = t.user? u.id ∧
        ∀ f key, t.Leads u.id f key → (saveUnder plan u t).2.entry f.index key = some u.id) ∨
      ((saveUnder plan u t).2.user? u.id = some u ∧ t.Vacant u ∧
        ∀ f key, u.unique? f = some key →
          (saveUnder plan u t).2.entry f.index key = some u.id ∨ Torn plan u t f key) := by
  obtain ⟨w, hleaves⟩ := leaves_saveUnder hplan hu t
  cases hr : (saveUnder plan u t).1 with
  | ok _ =>
    rw [hr] at hleaves
    have h : Standing t u (some u) u.uniqueValues true ⟨(saveUnder plan u t).2, w⟩ := hleaves
    refine Or.inr ⟨h.own, h.vacant (List.Subset.refl _), fun f key hk => Or.inl ?_⟩
    exact h.owns (f, key) (User.mem_uniqueValues.2 hk)
  | error e =>
    rw [hr] at hleaves
    rcases hleaves with ⟨_, h⟩ | ⟨htear, hvacant, h⟩
    · exact Or.inl ⟨h.own, fun f key hl => h.owns (f, key) (Tables.mem_leadingTo.2 hl)⟩
    · refine Or.inr ⟨h.own, hvacant, fun f key hk => ?_⟩
      by_cases hlead : (saveUnder plan u t).2.entry f.index key = some u.id
      · exact Or.inl hlead
      · refine Or.inr ⟨⟨e, hr⟩, canTear_of_tearing htear, fun hc => hlead ?_, h.own, hk, hlead⟩
        refine h.owns (f, key) (List.mem_filter.2 ⟨?_, decide_eq_true (Tables.mem_valuesOf.2 hc)⟩)
        exact List.mem_append_left _ (User.mem_uniqueValues.2 hk)

/-- The others keep their records and the values that lead to them. -/
theorem others_saveUnder (hplan : ∀ i ∈ plan, i.acts = []) (hu : u.IsDated) (t : Tables)
    {id : String} (hid : id ≠ u.id) :
    (saveUnder plan u t).2.record id = t.record id ∧
      ∀ f key, t.Leads id f key → (saveUnder plan u t).2.entry f.index key = some id := by
  obtain ⟨w, hleaves⟩ := leaves_saveUnder hplan hu t
  obtain ⟨own, owned, -, h⟩ := hleaves.standing
  exact ⟨h.others id hid, fun f key hl => h.kept hid hl⟩

theorem carries_saveUnder (hplan : ∀ i ∈ plan, i.acts = []) (hu : u.IsDated) (t : Tables)
    {id : String} (hid : id ≠ u.id) {f : UniqueField} {key : String} :
    (saveUnder plan u t).2.Carries id f key ↔ t.Carries id f key := by
  unfold Tables.Carries Tables.user?
  rw [(others_saveUnder hplan hu t hid).1]

/-! ### Runs -/

/-- No value of a field has two stored users. -/
def OneOwner (t : Tables) : Prop :=
  ∀ a b f key, t.Carries a f key → t.Carries b f key → a = b

/-- The tables after these saves, each under its plan of failures. -/
def afterSaves (saves : List (List Interference × User)) : Tables :=
  saves.foldl (fun t s => (saveUnder s.1 s.2 t).2) Tables.empty

variable {saves : List (List Interference × User)} {s : List Interference × User}

theorem afterSaves_append (saves : List (List Interference × User))
    (s : List Interference × User) :
    afterSaves (saves ++ [s]) = (saveUnder s.1 s.2 (afterSaves saves)).2 :=
  List.foldl_append

/-- A save among these has been torn at this value of the user. -/
def Abandoned (saves : List (List Interference × User)) (id : String) (f : UniqueField)
    (key : String) : Prop :=
  ∃ before torn between, saves = before ++ torn :: between ∧ torn.2.id = id ∧
    Torn torn.1 torn.2 (afterSaves before) f key

theorem Abandoned.append {id : String} {f : UniqueField} {key : String}
    (h : Abandoned saves id f key) (s : List Interference × User) :
    Abandoned (saves ++ [s]) id f key := by
  obtain ⟨before, torn, between, rfl, hid, htorn⟩ := h
  exact ⟨before, torn, between ++ [s], by simp, hid, htorn⟩

/-- A value of a stored user leads to it, or a torn save has abandoned it. -/
def Accounted (saves : List (List Interference × User)) : Prop :=
  ∀ id f key, (afterSaves saves).Carries id f key →
    (afterSaves saves).entry f.index key = some id ∨ Abandoned saves id f key

theorem Accounted.append (h : Accounted saves) (hplan : ∀ i ∈ s.1, i.acts = [])
    (hdated : s.2.IsDated) : Accounted (saves ++ [s]) := by
  intro id f key hc
  rw [afterSaves_append] at hc ⊢
  by_cases hid : id = s.2.id
  · subst hid
    rcases own_saveUnder hplan hdated (afterSaves saves) with ⟨hown, hleads⟩ | ⟨hown, -, hleads⟩
    · have hc : (afterSaves saves).Carries s.2.id f key := by
        obtain ⟨v, hv, hk⟩ := hc
        exact ⟨v, hown ▸ hv, hk⟩
      rcases h _ f key hc with he | ha
      · exact Or.inl (hleads f key ⟨hc, he⟩)
      · exact Or.inr (ha.append s)
    · obtain ⟨v, hv, hk⟩ := hc
      rw [hown] at hv
      cases hv
      rcases hleads f key hk with he | htorn
      · exact Or.inl he
      · exact Or.inr ⟨saves, s, [], rfl, rfl, htorn⟩
  · have hc := (carries_saveUnder hplan hdated _ hid).1 hc
    rcases h id f key hc with he | ha
    · exact Or.inl ((others_saveUnder hplan hdated _ hid).2 f key ⟨hc, he⟩)
    · exact Or.inr (ha.append s)

theorem accounted (hfaults : ∀ s ∈ saves, ∀ i ∈ s.1, i.acts = [])
    (hdated : ∀ s ∈ saves, s.2.IsDated) : Accounted saves := by
  induction saves using List.reverseRecOn with
  | nil =>
    rintro id f key ⟨v, hv, -⟩
    cases hv
  | append_singleton saves s ih =>
    have hs : s ∈ saves ++ [s] := List.mem_append_right _ (List.mem_singleton_self s)
    refine Accounted.append (ih ?_ ?_) (hfaults s hs) (hdated s hs)
    · exact fun x hx => hfaults x (List.mem_append_left _ hx)
    · exact fun x hx => hdated x (List.mem_append_left _ hx)

/-- A save that takes a value from a stored user: nobody else's value leads to that user. -/
theorem exists_taken (hplan : ∀ i ∈ s.1, i.acts = []) (hdated : s.2.IsDated)
    (hone : OneOwner t) (htwo : ¬ OneOwner (saveUnder s.1 s.2 t).2) :
    ∃ id f key, id ≠ s.2.id ∧ t.Carries id f key ∧ t.entry f.index key ≠ some id ∧
      (saveUnder s.1 s.2 t).2.Carries s.2.id f key := by
  have hother : ∃ id f key, id ≠ s.2.id ∧ (saveUnder s.1 s.2 t).2.Carries id f key ∧
      (saveUnder s.1 s.2 t).2.Carries s.2.id f key := by
    unfold OneOwner at htwo
    push Not at htwo
    obtain ⟨a, b, f, key, ha, hb, hab⟩ := htwo
    by_cases has : a = s.2.id
    · subst has
      exact ⟨b, f, key, hab.symm, hb, ha⟩
    · by_cases hbs : b = s.2.id
      · subst hbs
        exact ⟨a, f, key, hab, ha, hb⟩
      · refine absurd (hone a b f key ?_ ?_) hab
        · exact (carries_saveUnder hplan hdated t has).1 ha
        · exact (carries_saveUnder hplan hdated t hbs).1 hb
  obtain ⟨id, f, key, hid, hc, hown⟩ := hother
  have hc := (carries_saveUnder hplan hdated t hid).1 hc
  refine ⟨id, f, key, hid, hc, fun he => ?_, hown⟩
  obtain ⟨v, hv, hk⟩ := hown
  rcases own_saveUnder hplan hdated t with ⟨hsame, -⟩ | ⟨hnew, hvacant, -⟩
  · exact hid (hone id s.2.id f key hc ⟨v, hsame ▸ hv, hk⟩)
  · rw [hnew] at hv
    cases hv
    exact hvacant hid ⟨hc, he⟩ hk

/-- A torn save, and a later one that has stored its value while the record of the first stands. -/
def Overtaken (saves : List (List Interference × User)) : Prop :=
  ∃ before torn between later after f key,
    saves = before ++ torn :: between ++ later :: after ∧ later.2.id ≠ torn.2.id ∧
      Torn torn.1 torn.2 (afterSaves before) f key ∧
      (afterSaves (before ++ torn :: between)).Carries torn.2.id f key ∧
      (afterSaves (before ++ torn :: between ++ [later])).Carries later.2.id f key

theorem Overtaken.append (h : Overtaken saves) (s : List Interference × User) :
    Overtaken (saves ++ [s]) := by
  obtain ⟨before, torn, between, later, after, f, key, rfl, hrest⟩ := h
  exact ⟨before, torn, between, later, after ++ [s], f, key, by simp, hrest⟩

theorem overtaken_or_oneOwner (hfaults : ∀ s ∈ saves, ∀ i ∈ s.1, i.acts = [])
    (hdated : ∀ s ∈ saves, s.2.IsDated) :
    Overtaken saves ∨ ∀ before after, saves = before ++ after → OneOwner (afterSaves before) := by
  induction saves using List.reverseRecOn with
  | nil =>
    refine Or.inr fun before after hsplit => ?_
    obtain ⟨rfl, -⟩ := List.append_eq_nil_iff.1 hsplit.symm
    rintro a b f key ⟨v, hv, -⟩
    cases hv
  | append_singleton saves s ih =>
    have hs : s ∈ saves ++ [s] := List.mem_append_right _ (List.mem_singleton_self s)
    have hfaults' : ∀ x ∈ saves, ∀ i ∈ x.1, i.acts = [] :=
      fun x hx => hfaults x (List.mem_append_left _ hx)
    have hdated' : ∀ x ∈ saves, x.2.IsDated := fun x hx => hdated x (List.mem_append_left _ hx)
    rcases ih hfaults' hdated' with hover | hone
    · exact Or.inl (hover.append s)
    · by_cases hlast : OneOwner (afterSaves (saves ++ [s]))
      · refine Or.inr fun before after hsplit => ?_
        rcases List.eq_nil_or_concat after with rfl | ⟨after, x, rfl⟩
        · rw [List.append_nil] at hsplit
          rwa [← hsplit]
        · rw [List.concat_eq_append, ← List.append_assoc] at hsplit
          exact hone before after (List.append_inj_left' hsplit rfl)
      · rw [afterSaves_append] at hlast
        obtain ⟨id, f, key, hid, hc, he, hown⟩ := exists_taken (hfaults s hs) (hdated s hs)
          (hone saves [] (List.append_nil saves).symm) hlast
        obtain ⟨before, torn, between, rfl, rfl, htorn⟩ :=
          (accounted hfaults' hdated' id f key hc).resolve_left he
        refine Or.inl ⟨before, torn, between, s, [], f, key, rfl, hid.symm, htorn, hc, ?_⟩
        rwa [afterSaves_append]

/-- At the end of every save no value has two stored users, exactly if no torn save has been
overtaken. -/
theorem one_owner_iff (hfaults : ∀ s ∈ saves, ∀ i ∈ s.1, i.acts = [])
    (hdated : ∀ s ∈ saves, s.2.IsDated) :
    (∀ before after, saves = before ++ after → OneOwner (afterSaves before)) ↔
      ¬ Overtaken saves := by
  constructor
  · rintro hone ⟨before, torn, between, later, after, f, key, rfl, hid, -, htorn, hlater⟩
    have hmem : later ∈ before ++ torn :: between ++ later :: after := by simp
    have hafter := hone (before ++ torn :: between ++ [later]) after (by simp)
    refine hid (hafter _ _ f key hlater ?_)
    rw [afterSaves_append]
    exact (carries_saveUnder (hfaults later hmem) (hdated later hmem) _ hid.symm).2 htorn
  · intro hover
    exact (overtaken_or_oneOwner hfaults hdated).resolve_left hover

/-! ### Two owners of one value -/

/-- Alice with the email address of Bob. -/
def rival : User := .create "a" "Alice" "bob@example.com" "alice" "hash"

/-- The write of Bob's record takes effect, but its reply is lost; then the rival is saved. -/
def overtaking : List (List Interference × User) :=
  [([⟨.setRecord, 0, true, [], some (.failed "reply lost")⟩], bob), ([], rival)]

theorem overtaking_faults : ∀ s ∈ overtaking, ∀ i ∈ s.1, i.acts = [] := by
  simp [overtaking]

theorem overtaking_dated : ∀ s ∈ overtaking, s.2.IsDated := by
  intro s hs
  rcases List.mem_cons.1 hs with rfl | hs
  · exact isDated_create
  · rcases List.mem_singleton.1 hs with rfl
    exact isDated_create

theorem carries_overtaking :
    (afterSaves overtaking).Carries bob.id .email "bob@example.com" ∧
      (afterSaves overtaking).Carries rival.id .email "bob@example.com" := by
  have hbob : (afterSaves overtaking).record bob.id = some bob.encode := by decide +kernel
  have hrival : (afterSaves overtaking).record rival.id = some rival.encode := by decide +kernel
  exact ⟨Tables.carries_of_record hbob isDated_create rfl,
    Tables.carries_of_record hrival isDated_create rfl⟩

/-- Two stored users have one value, so a torn save was overtaken. -/
theorem one_owner_iff_rival : Overtaken overtaking := by
  by_contra hover
  have hone := (one_owner_iff overtaking_faults overtaking_dated).2 hover overtaking [] rfl
  have hsame : bob.id = rival.id := hone _ _ _ _ carries_overtaking.1 carries_overtaking.2
  exact absurd hsame (by decide)

/-- One lost reply to a write, and the next save leaves a value with two stored users. -/
theorem two_owners :
    (∀ s ∈ overtaking, ∀ i ∈ s.1, i.acts = []) ∧ (∀ s ∈ overtaking, s.2.IsDated) ∧
      ¬ ∀ before after, overtaking = before ++ after → OneOwner (afterSaves before) := by
  refine ⟨overtaking_faults, overtaking_dated, fun hone => ?_⟩
  have hsame : bob.id = rival.id :=
    hone overtaking [] rfl _ _ _ _ carries_overtaking.1 carries_overtaking.2
  exact absurd hsame (by decide)

end Accounts.Directory
