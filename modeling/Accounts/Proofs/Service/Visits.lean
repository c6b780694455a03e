import Accounts.Proofs.Directory.RefusedSave
import Accounts.Proofs.Service.Alone
import Accounts.Proofs.Service.Requests

/-!
# An operation among whole visits of others

Between the calls of an operation others save users and records expire, each in one go; no call
fails. The calls are recorded. When no more visits come, the rest of an operation does what it does
alone (`run_calm`).
-/
namespace Accounts.Service

open Backend Program

variable {ε : Type}

/-- What another writer does in one go: it saves a user, or the record of one expires. -/
inductive Visit where
  | saved (u : User)
  | expired (id : String)

def Visit.IsDated : Visit → Prop
  | .saved u => u.IsDated
  | .expired _ => True

def Visit.leave (t : Tables) : Visit → Tables
  | .saved u => (Directory.runAlone (Directory.save u) t).2
  | .expired id => t.withRecord id none

/-- The tables after these visits. -/
def hosted (t : Tables) (visits : List Visit) : Tables := visits.foldl Visit.leave t

/-- The tables, the surroundings, the events and the calls of an operation. -/
structure Logged (ε : Type) extends Solo ε where
  log : List Call

/-- Before the n-th call come these visits. -/
def visited (env : Handler interface ε) (plan : Nat → List Visit) : Handler interface (Logged ε) :=
  fun c s =>
    let after := alone env c { s.toSolo with tables := hosted s.tables (plan s.log.length) }
    (after.1, { toSolo := after.2, log := s.log ++ [c] })

/-- Nobody visits. -/
def unvisited : Nat → List Visit := fun _ => []

variable {α : Type} {env : Handler interface ε} {plan : Nat → List Visit} {s : Logged ε}
  {t : Tables} {x : ε} {n : Nat}

theorem hosted_append (t : Tables) (visits later : List Visit) :
    hosted t (visits ++ later) = hosted (hosted t visits) later := List.foldl_append

/-- A record that has expired leaves leftover entries. -/
theorem coherent_withRecord_none (ht : t.Coherent) (id : String) :
    (t.withRecord id none).Coherent := by
  have huser {id' : String} {u : User} (hu : (t.withRecord id none).user? id' = some u) :
      t.user? id' = some u := by
    rw [Tables.user?_withRecord] at hu
    split at hu
    · cases hu
    · exact hu
  exact ⟨⟨fun hu => ht.id_eq (huser hu)⟩, ⟨fun ⟨u, hu, hkey⟩ => ht.owned ⟨u, huser hu, hkey⟩⟩⟩

theorem coherent_hosted {visits : List Visit} (ht : t.Coherent)
    (hvisits : ∀ v ∈ visits, v.IsDated) : (hosted t visits).Coherent := by
  induction visits generalizing t with
  | nil => exact ht
  | cons v visits ih =>
    obtain ⟨hv, hrest⟩ := List.forall_mem_cons.1 hvisits
    refine ih ?_ hrest
    cases v with
    | saved u => exact Directory.coherent_runAlone_save ht hv
    | expired id => exact coherent_withRecord_none ht id

/-! ### Calls -/

/-- So far the operation has made `n` calls, and none of them has changed anything. -/
structure Quiet (t : Tables) (x : ε) (n : Nat) (s : Logged ε) : Prop where
  tables : s.tables = t
  around : s.around = x
  events : s.events = []
  calls : s.log.length = n
  quiet : ∀ c ∈ s.log, c.isQuiet = true

theorem quiet_start (t : Tables) (x : ε) : Quiet t x 0 (⟨⟨t, x, []⟩, []⟩ : Logged ε) :=
  ⟨rfl, rfl, rfl, rfl, nofun⟩

theorem forall_mem_concat_quiet {log : List Call} {c : Call} (hlog : ∀ c ∈ log, c.isQuiet = true)
    (hc : c.isQuiet = true) : ∀ d ∈ log ++ [c], d.isQuiet = true := by
  intro d hd
  rcases List.mem_append.1 hd with hd | hd
  · exact hlog d hd
  · exact List.mem_singleton.1 hd ▸ hc

/-- A call that is none of the directory and announces nothing. -/
theorem Quiet.ask (h : Quiet t x n s) {c : Call} (hc : ∀ d, c ≠ .directory d)
    (hsilent : ∀ e, c ≠ .publish e) :
    (ask c).run.wp (answered (visited env plan)) (fun r s' => r = .ok (env c x).1 ∧
      Quiet (hosted t (plan n)) (env c x).2 (n + 1) s') s := by
  obtain ⟨rfl, rfl, hevents, rfl, hquiet⟩ := h
  have hlog {c : Call} (hc : c.isQuiet = true) := forall_mem_concat_quiet hquiet hc
  cases c with
  | directory d => exact absurd rfl (hc d)
  | publish e => exact absurd rfl (hsilent e)
  | _ => exact ⟨rfl, rfl, rfl, hevents, List.length_append, hlog rfl⟩

/-- A look at the tables. -/
theorem Quiet.look (h : Quiet t x n s) {r : Request} (hr : isLook r = true) :
    (Directory.ask r).run.wp (directoryCalls (answered (visited env plan))) (fun reply s' =>
      reply = .ok (Tables.respond r (hosted t (plan n))).1 ∧
        Quiet (hosted t (plan n)) x (n + 1) s') s := by
  obtain ⟨rfl, rfl, hevents, rfl, hquiet⟩ := h
  refine ⟨rfl, ?_, rfl, hevents, List.length_append, forall_mem_concat_quiet hquiet hr⟩
  exact respond_of_isLook hr

/-- Calls are only ever added. -/
theorem wp_log_grows (p : Program interface α) (s : Logged ε) :
    p.wp (answered (visited env plan)) (fun _ s' => s.log ⊆ s'.log) s := by
  induction p generalizing s with
  | done a => exact fun _ hc => hc
  | call c next ih =>
    exact wp_mono (fun _ _ hs' d hd => hs' (List.mem_append_left _ hd)) (ih _ _)

/-! ### Without further visits -/

theorem run_calm {P : Call → Prop} {p : Program interface α} (hp : p.Only P)
    (hcalm : ∀ n, s.log.length ≤ n → plan n = []) :
    ∃ calls, (∀ c ∈ calls, P c) ∧ p.run (visited env plan) s =
      ((p.run (alone env) s.toSolo).1, ⟨(p.run (alone env) s.toSolo).2, s.log ++ calls⟩) := by
  induction p generalizing s with
  | done a => exact ⟨[], nofun, by rw [List.append_nil]; rfl⟩
  | call c next ih =>
    have hcall : visited env plan c s =
        ((alone env c s.toSolo).1, ⟨(alone env c s.toSolo).2, s.log ++ [c]⟩) := by
      simp only [visited, hcalm _ (Nat.le_refl _)]
      rfl
    have hlater : ∀ n, (s.log ++ [c]).length ≤ n → plan n = [] := by
      intro n hn
      rw [List.length_append] at hn
      exact hcalm n (by omega)
    obtain ⟨calls, hcalls, hrun⟩ := ih (alone env c s.toSolo).1 (hp.2 _)
      (s := ⟨(alone env c s.toSolo).2, s.log ++ [c]⟩) hlater
    refine ⟨c :: calls, List.forall_mem_cons.2 ⟨hp.1, hcalls⟩, ?_⟩
    simp only [run]
    rw [hcall]
    simpa using hrun

/-- An action of the directory that nobody visits does what it does alone. -/
theorem wp_onDirectory_calm {P : Call → Prop} {a : Directory.Action α}
    (ha : (onDirectory a).run.Only P) (hcalm : ∀ n, s.log.length ≤ n → plan n = []) :
    (onDirectory a).run.wp (answered (visited env plan)) (fun r s' =>
      ∃ calls, (∀ c ∈ calls, P c) ∧
        r = (Directory.runAlone a s.tables).1.mapError .directory ∧
        s' = ⟨{ s.toSolo with tables := (Directory.runAlone a s.tables).2 }, s.log ++ calls⟩)
      s := by
  have halone : (onDirectory a).run.run (alone env) s.toSolo =
      ((Directory.runAlone a s.tables).1.mapError .directory,
        { s.toSolo with tables := (Directory.runAlone a s.tables).2 }) := by
    have hwp : (onDirectory a).run.wp (answered (alone env)) (fun r s' =>
        r = (Directory.runAlone a s.tables).1.mapError .directory ∧
          s' = { s.toSolo with tables := (Directory.runAlone a s.tables).2 }) s.toSolo := by
      rw [wp_onDirectory_alone]
      exact ⟨rfl, rfl⟩
    rw [wp_answered] at hwp
    exact Prod.ext hwp.1 hwp.2
  obtain ⟨calls, hcalls, hrun⟩ := run_calm ha hcalm
  rw [wp_answered, hrun, halone]
  exact ⟨calls, hcalls, rfl, rfl⟩

end Accounts.Service
