import Accounts.Settings.Assembly
import Mathlib.Data.List.Forall2

/-!
# Assembly of a service

What it takes to connect a stream (`Connects`) and what stream comes of it (`Configured`). A service
is put together exactly if the cost of hashing is valid and all its streams can be connected, and
has one stream for each choice (`exists_environment_iff`, `configured_of_environment`). It crashes
exactly if the first stream that cannot be connected is a collector without room
(`environment_eq_none_iff`).
-/
namespace Accounts.Settings

open Accounts.Event

section

variable {α β : Type} {x : Assembly α} {f : α → Assembly β}

theorem run_bind_eq_ok_iff {b : β} :
    (x >>= f).run = some (.ok b) ↔ ∃ a, x.run = some (.ok a) ∧ (f a).run = some (.ok b) := by
  rw [ExceptT.run_bind]
  rcases x.run with _ | _ | a <;> simp

theorem run_bind_eq_none_iff :
    (x >>= f).run = none ↔ x.run = none ∨ ∃ a, x.run = some (.ok a) ∧ (f a).run = none := by
  rw [ExceptT.run_bind]
  rcases x.run with _ | _ | a <;> simp

end

variable {memory : Memory} {network : Backend.Network} {settings : Settings} {r : Stream}
  {entropy : Entropy} {clock : Instant}

/-- What it takes to connect a stream: a log needs nothing, a collector its room, and a stream to a
server that the server is there. -/
inductive Connects (memory : Memory) (network : Backend.Network) (settings : Settings) :
    StreamChoice → Prop
  | log : Connects memory network settings .log
  | collector {n : Nat} (h : memory.reserves n = true) :
    Connects memory network settings (.collector n)
  | redis {usesChannel : Bool} (h : (network.redis settings.redisUrl).isSome) :
    Connects memory network settings (.redis usesChannel)

/-- The stream of a choice. A collector of the chosen capacity is empty. -/
inductive Configured (settings : Settings) : StreamChoice → Stream → Prop
  | log : Configured settings .log (.log settings.eventMark)
  | collector {n : Nat} {c : Collector} (hcapacity : c.capacity = n) (hitems : c.items = []) :
    Configured settings (.collector n) (.collect c)
  | redis {usesChannel : Bool} :
    Configured settings (.redis usesChannel) (.redis settings.eventMark usesChannel)

/-- What comes of connecting a stream: itself, an error or a crash. -/
inductive Connection (memory : Memory) (network : Backend.Network) (settings : Settings) :
    StreamChoice → Option (Except SettingsError Stream) → Prop
  | connected {choice : StreamChoice} {r : Stream} (h : Connects memory network settings choice)
    (hr : Configured settings choice r) : Connection memory network settings choice (some (.ok r))
  | unreachable {usesChannel : Bool} {e : SettingsError}
    (h : ¬ (network.redis settings.redisUrl).isSome) :
    Connection memory network settings (.redis usesChannel) (some (.error e))
  | crashed {n : Nat} (h : memory.reserves n = false) :
    Connection memory network settings (.collector n) none

theorem connection (memory : Memory) (network : Backend.Network) (settings : Settings)
    (choice : StreamChoice) :
    Connection memory network settings choice
      (connectStream memory network settings choice).run := by
  cases choice with
  | log => exact .connected .log .log
  | collector n =>
    simp only [connectStream, Collector.reserve]
    split
    · exact .connected (.collector ‹_›) (.collector rfl rfl)
    · exact .crashed (Bool.eq_false_iff.2 ‹_›)
  | redis usesChannel =>
    simp only [connectStream]
    split
    · exact .connected (.redis ‹_›) .redis
    · exact .unreachable ‹_›

theorem connectStream_eq_ok {choice : StreamChoice}
    (h : (connectStream memory network settings choice).run = some (.ok r)) :
    Connects memory network settings choice ∧ Configured settings choice r := by
  have hconnection := connection memory network settings choice
  rw [h] at hconnection
  cases hconnection with
  | connected hconnects hr => exact ⟨hconnects, hr⟩

theorem exists_connectStream {choice : StreamChoice}
    (h : Connects memory network settings choice) :
    ∃ r, (connectStream memory network settings choice).run = some (.ok r) := by
  have hconnection := connection memory network settings choice
  generalize (connectStream memory network settings choice).run = result at hconnection ⊢
  cases hconnection with
  | connected _ _ => exact ⟨_, rfl⟩
  | unreachable hnone =>
    cases h with
    | redis hsome => exact absurd hsome hnone
  | crashed hfull =>
    cases h with
    | collector hroom => cases hroom.symm.trans hfull

theorem connectStream_eq_none_iff {choice : StreamChoice} :
    (connectStream memory network settings choice).run = none ↔
      ∃ n, choice = .collector n ∧ memory.reserves n = false := by
  have hconnection := connection memory network settings choice
  generalize (connectStream memory network settings choice).run = result at hconnection ⊢
  cases hconnection with
  | connected hconnects _ =>
    refine ⟨nofun, ?_⟩
    rintro ⟨n, rfl, hfull⟩
    cases hconnects with
    | collector hroom => cases hroom.symm.trans hfull
  | unreachable _ => exact ⟨nofun, nofun⟩
  | crashed hfull => exact ⟨fun _ => ⟨_, rfl, hfull⟩, fun _ => rfl⟩

/-- The first collector without room comes after streams that can all be connected. -/
def Overfull (memory : Memory) (network : Backend.Network) (settings : Settings)
    (choices : List StreamChoice) : Prop :=
  ∃ before n after, choices = before ++ .collector n :: after ∧
    (∀ choice ∈ before, Connects memory network settings choice) ∧ memory.reserves n = false

theorem overfull_cons_iff {choice : StreamChoice} {choices : List StreamChoice} :
    Overfull memory network settings (choice :: choices) ↔
      (∃ n, choice = .collector n ∧ memory.reserves n = false) ∨
        Connects memory network settings choice ∧ Overfull memory network settings choices := by
  constructor
  · rintro ⟨before, n, after, hchoices, hbefore, hfull⟩
    cases before with
    | nil =>
      cases hchoices
      exact .inl ⟨n, rfl, hfull⟩
    | cons first before =>
      cases hchoices
      obtain ⟨hfirst, hbefore⟩ := List.forall_mem_cons.1 hbefore
      exact .inr ⟨hfirst, before, n, after, rfl, hbefore, hfull⟩
  · rintro (⟨n, rfl, hfull⟩ | ⟨hconnects, before, n, after, rfl, hbefore, hfull⟩)
    · exact ⟨[], n, choices, rfl, nofun, hfull⟩
    · exact ⟨choice :: before, n, after, rfl, List.forall_mem_cons.2 ⟨hconnects, hbefore⟩, hfull⟩

theorem connectStreams_eq_ok {choices : List StreamChoice} {rs : List Stream}
    (h : (choices.mapM (connectStream memory network settings)).run = some (.ok rs)) :
    (∀ choice ∈ choices, Connects memory network settings choice) ∧
      List.Forall₂ (Configured settings) choices rs := by
  induction choices generalizing rs with
  | nil =>
    cases h
    exact ⟨nofun, .nil⟩
  | cons choice choices ih =>
    rw [List.mapM_cons] at h
    obtain ⟨r, hr, h⟩ := run_bind_eq_ok_iff.1 h
    obtain ⟨rest, hrest, h⟩ := run_bind_eq_ok_iff.1 h
    cases h
    obtain ⟨hconnects, hconfigured⟩ := connectStream_eq_ok hr
    obtain ⟨hall, hforall⟩ := ih hrest
    exact ⟨List.forall_mem_cons.2 ⟨hconnects, hall⟩, .cons hconfigured hforall⟩

theorem exists_connectStreams {choices : List StreamChoice}
    (h : ∀ choice ∈ choices, Connects memory network settings choice) :
    ∃ rs, (choices.mapM (connectStream memory network settings)).run = some (.ok rs) := by
  induction choices with
  | nil => exact ⟨[], rfl⟩
  | cons choice choices ih =>
    obtain ⟨hconnects, h⟩ := List.forall_mem_cons.1 h
    obtain ⟨r, hr⟩ := exists_connectStream hconnects
    obtain ⟨rs, hrs⟩ := ih h
    rw [List.mapM_cons]
    exact ⟨r :: rs, run_bind_eq_ok_iff.2 ⟨r, hr, run_bind_eq_ok_iff.2 ⟨rs, hrs, rfl⟩⟩⟩

theorem connectStreams_eq_none_iff {choices : List StreamChoice} :
    (choices.mapM (connectStream memory network settings)).run = none ↔
      Overfull memory network settings choices := by
  induction choices with
  | nil =>
    refine ⟨nofun, ?_⟩
    rintro ⟨before, n, after, hchoices, -⟩
    cases before <;> cases hchoices
  | cons choice choices ih =>
    rw [List.mapM_cons, run_bind_eq_none_iff, overfull_cons_iff, connectStream_eq_none_iff]
    refine or_congr_right ⟨?_, ?_⟩
    · rintro ⟨r, hr, h⟩
      rcases run_bind_eq_none_iff.1 h with h | ⟨rs, -, h⟩
      · exact ⟨(connectStream_eq_ok hr).1, ih.1 h⟩
      · cases h
    · rintro ⟨hconnects, hfull⟩
      obtain ⟨r, hr⟩ := exists_connectStream hconnects
      exact ⟨r, hr, run_bind_eq_none_iff.2 (.inl (ih.2 hfull))⟩

theorem configured_of_environment {env : Service.Environment}
    (h : (environment memory network entropy clock settings).run = some (.ok env)) :
    settings.cost.validate = .ok () ∧
      (∀ choice ∈ settings.streams, Connects memory network settings choice) ∧
      ∃ rs, List.Forall₂ (Configured settings) settings.streams rs ∧
        env.stream = joinStreams rs := by
  unfold environment at h
  cases hcost : settings.cost.validate with
  | error e =>
    rw [hcost] at h
    cases h
  | ok _ =>
    obtain ⟨_, -, h⟩ := run_bind_eq_ok_iff.1 h
    obtain ⟨rs, hrs, h⟩ := run_bind_eq_ok_iff.1 h
    cases h
    obtain ⟨hconnects, hconfigured⟩ := connectStreams_eq_ok hrs
    exact ⟨rfl, hconnects, rs, hconfigured, rfl⟩

theorem exists_environment_iff :
    (∃ env, (environment memory network entropy clock settings).run = some (.ok env)) ↔
      settings.cost.validate = .ok () ∧
        ∀ choice ∈ settings.streams, Connects memory network settings choice := by
  constructor
  · rintro ⟨env, henv⟩
    obtain ⟨hcost, hconnects, -⟩ := configured_of_environment henv
    exact ⟨hcost, hconnects⟩
  · rintro ⟨hcost, hconnects⟩
    obtain ⟨rs, hrs⟩ := exists_connectStreams hconnects
    unfold environment
    rw [hcost]
    exact ⟨_, run_bind_eq_ok_iff.2 ⟨(), rfl, run_bind_eq_ok_iff.2 ⟨rs, hrs, rfl⟩⟩⟩

/-- The cost of hashing is checked before any stream is connected. -/
theorem environment_eq_none_iff :
    (environment memory network entropy clock settings).run = none ↔
      settings.cost.validate = .ok () ∧ Overfull memory network settings settings.streams := by
  unfold environment
  cases hcost : settings.cost.validate with
  | error e => exact ⟨nofun, nofun⟩
  | ok _ =>
    rw [run_bind_eq_none_iff]
    constructor
    · rintro (h | ⟨_, -, h⟩)
      · cases h
      · rcases run_bind_eq_none_iff.1 h with h | ⟨rs, -, h⟩
        · exact ⟨rfl, connectStreams_eq_none_iff.1 h⟩
        · cases h
    · rintro ⟨-, h⟩
      exact .inr ⟨(), rfl, run_bind_eq_none_iff.2 (.inl (connectStreams_eq_none_iff.2 h))⟩

end Accounts.Settings
