import Accounts.Proofs.Directory.Hazards
import Mathlib.Data.List.Induction

/-!
# Saves one after another, some of them cut short

A run is a list of events: a save begins, the save in progress makes its next call, it crashes, a
record vanishes. The save in progress is the rest of its program, so a crash can come after any of
its calls and a record can vanish between any two. The indexes lead from every value of every
stored user to that user after each event (`crash_safe`), and without crashes and vanished records
they hold nothing else once a save is over.
-/
namespace Accounts.Directory

open Backend

inductive Event where
  | begin (u : User)
  | call
  | crash
  | vanish (id : String)
  deriving DecidableEq, Repr

/-- A crash of the save in progress or a record that vanishes. -/
def Event.isFault : Event → Bool
  | .crash => true
  | .vanish _ => true
  | _ => false

/-- The tables, and what is left to do of the latest save unless it crashed. -/
structure Site where
  tables : Tables
  saving : Option (Program interface (Except DirectoryError Unit))

namespace Site

def empty : Site := ⟨Tables.empty, none⟩

def vanish (s : Site) (id : String) : Site := { s with tables := s.tables.withRecord id none }

/-- Events that cannot happen change nothing: no save begins during another. -/
def step (s : Site) : Event → Site
  | .begin u =>
    match s.saving with
    | some (.call _ _) => s
    | _ => { s with saving := some (save u).run }
  | .call =>
    match s.saving with
    | some (.call c next) =>
      let (r, t) := serve Tables.serve c s.tables
      ⟨t, some (next r)⟩
    | _ => s
  | .crash => { s with saving := none }
  | .vanish id => s.vanish id

def run (events : List Event) : Site := events.foldl step empty

theorem run_append (before : List Event) (e : Event) :
    run (before ++ [e]) = (run before).step e := List.foldl_append ..

/-- No save is in progress. -/
def Idle (s : Site) : Prop :=
  match s.saving with
  | some (.call _ _) => False
  | _ => True

/-- A save begins only where none is in progress. -/
theorem step_begin (s : Site) (u : User) :
    s.step (.begin u) = s ∨ s.Idle ∧ s.step (.begin u) = ⟨s.tables, some (save u).run⟩ := by
  obtain ⟨t, saving⟩ := s
  cases saving with
  | none => exact Or.inr ⟨trivial, rfl⟩
  | some p =>
    cases p with
    | done r => exact Or.inr ⟨trivial, rfl⟩
    | call c next => exact Or.inl rfl

/-- The call of a save in progress is answered as the tables say. -/
theorem step_call (s : Site) :
    s.step .call = s ∨ ∃ c next, s.saving = some (.call c next) ∧
      s.step .call = ⟨(serve Tables.serve c s.tables).2,
        some (next (serve Tables.serve c s.tables).1)⟩ := by
  obtain ⟨t, saving⟩ := s
  cases saving with
  | none => exact Or.inl rfl
  | some p =>
    cases p with
    | done r => exact Or.inl rfl
    | call c next => exact Or.inr ⟨c, next, rfl, rfl⟩

/-! ### Indexes at every moment -/

/-- The tables are indexed and stay so through the rest of the save, whatever vanishes. -/
structure Safe (s : Site) : Prop where
  indexed : s.tables.Indexed
  rest : ∀ p, s.saving = some p →
    ∃ w, p.wp (hazards fun _ => True) (fun _ _ => True) ⟨s.tables, w⟩

theorem faded_vanish (t : Tables) (id : String) :
    Tables.Faded (fun _ => True) t (t.withRecord id none) where
  entry := rfl
  record i := by
    rw [Tables.record_withRecord]
    by_cases hi : i = id
    · exact Or.inr ⟨trivial, if_pos hi⟩
    · exact Or.inl (if_neg hi)

/-- What a save is ready for at some tables it is ready for after records have vanished. -/
theorem wp_faded {V : String → Prop} {p : Program interface (Except DirectoryError Unit)}
    {t t' : Tables} {w : Bool} (ht : Tables.Faded V t t')
    (h : p.wp (hazards V) (fun _ _ => True) ⟨t, w⟩) :
    p.wp (hazards V) (fun _ _ => True) ⟨t', w⟩ := by
  cases p with
  | done r => trivial
  | call c next =>
    cases c with
    | backend r =>
      intro t'' ht''
      obtain ⟨hindexed, hdone, hrefused, hlost⟩ := h t'' (ht.trans ht'')
      exact ⟨hindexed, hdone, hrefused, hlost⟩
    | lock => exact fun t'' ht'' => h t'' (ht.trans ht'')
    | unlock => exact fun t'' ht'' => h t'' (ht.trans ht'')

theorem safe_begin {s : Site} (h : s.Safe) {u : User} (hu : u.IsDated) :
    (s.step (.begin u)).Safe := by
  rcases s.step_begin u with hsame | ⟨-, hnew⟩
  · rw [hsame]
    exact h
  · rw [hnew]
    refine ⟨h.indexed, fun p hp => ⟨false, ?_⟩⟩
    cases hp
    exact Program.wp_mono (fun _ _ _ => trivial) (wp_save _ h.indexed hu)

theorem safe_call {s : Site} (h : s.Safe) : (s.step .call).Safe := by
  rcases s.step_call with hsame | ⟨c, next, hsaving, hnext⟩
  · rw [hsame]
    exact h
  · obtain ⟨w, hw⟩ := h.rest _ hsaving
    rw [hnext]
    cases c with
    | backend r =>
      obtain ⟨hindexed, hdone, -, -⟩ := hw s.tables (.refl _ _)
      exact ⟨hindexed, fun p hp => ⟨_, by cases hp; exact hdone⟩⟩
    | lock => exact ⟨h.indexed, fun p hp => ⟨w, by cases hp; exact hw s.tables (.refl _ _)⟩⟩
    | unlock => exact ⟨h.indexed, fun p hp => ⟨w, by cases hp; exact hw s.tables (.refl _ _)⟩⟩

theorem safe_crash {s : Site} (h : s.Safe) : (s.step .crash).Safe :=
  ⟨h.indexed, fun p hp => by cases hp⟩

theorem safe_vanish {s : Site} (h : s.Safe) (id : String) : (s.step (.vanish id)).Safe := by
  have ht := faded_vanish s.tables id
  refine ⟨ht.indexed h.indexed, fun p hp => ?_⟩
  obtain ⟨w, hw⟩ := h.rest p hp
  exact ⟨w, wp_faded ht hw⟩

theorem safe_run {events : List Event} (hdated : ∀ u, .begin u ∈ events → u.IsDated) :
    (run events).Safe := by
  induction events using List.reverseRecOn with
  | nil => exact ⟨Tables.exact_empty.toIndexed, fun p hp => by cases hp⟩
  | append_singleton events e ih =>
    have h := ih fun u hu => hdated u (List.mem_append_left _ hu)
    rw [run_append]
    cases e with
    | begin u => exact safe_begin h (hdated u (List.mem_append_right _ (List.mem_singleton_self _)))
    | call => exact safe_call h
    | crash => exact safe_crash h
    | vanish id => exact safe_vanish h id

/-! ### Nothing else in the indexes -/

/-- When the rest of the save is done, the indexes will be exact. -/
def Settling (s : Site) : Prop :=
  match s.saving with
  | none => s.tables.Exact
  | some p => (p.run (serve Tables.serve) s.tables).2.Exact

theorem exact_of_idle {s : Site} (h : s.Settling) (hs : s.Idle) : s.tables.Exact := by
  obtain ⟨t, saving⟩ := s
  cases saving with
  | none => exact h
  | some p =>
    cases p with
    | done r => exact h
    | call c next => cases hs

theorem settling_begin {s : Site} (h : s.Settling) {u : User} (hu : u.IsDated) :
    (s.step (.begin u)).Settling := by
  rcases s.step_begin u with hsame | ⟨hidle, hnew⟩
  · rw [hsame]
    exact h
  · rw [hnew]
    exact exact_save (exact_of_idle h hidle) hu

theorem settling_call {s : Site} (h : s.Settling) : (s.step .call).Settling := by
  rcases s.step_call with hsame | ⟨c, next, hsaving, hnext⟩
  · rw [hsame]
    exact h
  · unfold Settling at h
    rw [hsaving] at h
    rw [hnext]
    exact h

theorem settling_run {events : List Event} (hdated : ∀ u, .begin u ∈ events → u.IsDated)
    (hfaults : ∀ e ∈ events, e.isFault = false) : (run events).Settling := by
  induction events using List.reverseRecOn with
  | nil => exact Tables.exact_empty
  | append_singleton events e ih =>
    have h := ih (fun u hu => hdated u (List.mem_append_left _ hu))
      (fun e he => hfaults e (List.mem_append_left _ he))
    have hlast : e ∈ events ++ [e] := List.mem_append_right _ (List.mem_singleton_self e)
    rw [run_append]
    cases e with
    | begin u => exact settling_begin h (hdated u hlast)
    | call => exact settling_call h
    | crash => cases hfaults _ hlast
    | vanish id => cases hfaults _ hlast

/-- After any events, the values of the stored users lead to them, so that no value has two users;
and if no save crashed and no record vanished, then between saves there are no other entries. -/
theorem crash_safe (events : List Event) (hdated : ∀ u, .begin u ∈ events → u.IsDated) :
    (run events).tables.Indexed ∧
      (∀ {a b : String} {f : UniqueField} {key : String}, (run events).tables.Carries a f key →
        (run events).tables.Carries b f key → a = b) ∧
      ((∀ e ∈ events, e.isFault = false) → (run events).Idle → (run events).tables.Exact) := by
  have h := safe_run hdated
  refine ⟨h.indexed, fun ha hb => h.indexed.unique ha hb, fun hfaults hidle => ?_⟩
  exact exact_of_idle (settling_run hdated hfaults) hidle

/-- Alice is stored; then a save of Bob crashes and Alice's record vanishes. -/
theorem crash_safe_alice :
    (run (.begin alice :: .replicate 10 .call)).tables.record "a" = some alice.encode ∧
      (run (.begin alice :: .replicate 10 .call)).tables.Exact ∧
      (run (.begin alice :: .replicate 10 .call ++ .begin bob :: .replicate 7 .call ++
        [.crash, .vanish "a"])).tables.Indexed := by
  refine ⟨rfl, (crash_safe _ ?_).2.2 (by decide) trivial, (crash_safe _ ?_).1⟩
  · intro u hu
    simp only [List.mem_cons, List.mem_replicate, Event.begin.injEq, reduceCtorEq, and_false,
      or_false] at hu
    rw [hu]
    exact isDated_create
  · intro u hu
    simp only [List.mem_cons, List.mem_append, List.mem_replicate, Event.begin.injEq,
      reduceCtorEq, and_false, or_false, List.not_mem_nil] at hu
    rcases hu with rfl | rfl
    · exact isDated_create
    · exact isDated_create

end Site

end Accounts.Directory
