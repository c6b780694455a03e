import Accounts.Proofs.Backend.Agreement
import Accounts.Proofs.Service.Requests
import Accounts.Session.Basic

/-!
# Backends can be exchanged

Two storages that hold the same tables answer every plain request alike and go on holding the same
tables. The relation is carried from the backend to what others do to it, to the calls that are
recorded, to the directory and to the service with its surroundings (`related_serve` at each level),
and so from one step of a session to a whole one (`run_alike`). What sequences of requests and
sessions return is therefore the same on every backend that starts out empty, whatever its kind and
its settings (`backends_interchangeable`).
-/
namespace Accounts

open Backend (Layout Represents Request Storage Tables)
open Program

/-! ### Under interference -/

namespace Session

variable {σ τ : Type} {R : σ → τ → Prop} {h : Handler Backend.interface σ}
  {g : Handler Backend.interface τ} {s : σ} {t : τ}

/-- Requests of others name plain indexes. -/
def Act.IsPlain : Act → Prop
  | request r => r.IsPlain
  | save _ => True

instance : DecidablePred Act.IsPlain
  | .request r => inferInstanceAs (Decidable r.IsPlain)
  | .save _ => isTrue trivial

def Interference.IsPlain (i : Interference) : Prop := ∀ a ∈ i.acts, a.IsPlain

instance : DecidablePred Interference.IsPlain := fun i =>
  inferInstanceAs (Decidable (∀ a ∈ i.acts, a.IsPlain))

theorem runAct_related (hR : Related Request.IsPlain R h g) {a : Act} (ha : a.IsPlain)
    (hst : R s t) : R (a.run h s) (a.run g t) := by
  cases a with
  | request r => exact (hR r s t ha hst).2
  | save u =>
    have hserve := Directory.related_serve hR
    exact (Program.run_related hserve (Directory.only_save u) hst).2

theorem acts_related (hR : Related Request.IsPlain R h g) {acts : List Act}
    (hacts : ∀ a ∈ acts, a.IsPlain) (hst : R s t) :
    R (acts.foldl (fun s a => a.run h s) s) (acts.foldl (fun t a => a.run g t) t) := by
  induction acts generalizing s t with
  | nil => exact hst
  | cons a acts ih =>
    obtain ⟨ha, hrest⟩ := List.forall_mem_cons.1 hacts
    exact ih hrest (runAct_related hR ha hst)

theorem interfere_related (hR : Related Request.IsPlain R h g) {plan : List Interference}
    (hplan : ∀ i ∈ plan, i.IsPlain) (hst : R s t) :
    (interfere h plan s).1 = (interfere g plan t).1 ∧
      R (interfere h plan s).2 (interfere g plan t).2 := by
  induction plan generalizing s t with
  | nil => exact ⟨rfl, hst⟩
  | cons i plan ih =>
    obtain ⟨hi, hrest⟩ := List.forall_mem_cons.1 hplan
    have hacts := acts_related hR hi hst
    unfold interfere
    cases i.failure with
    | some e => exact ⟨rfl, hacts⟩
    | none => exact ih hrest hacts

namespace Watched

/-- Related backends on which the same calls were made. -/
def Related (R : σ → τ → Prop) (w : Watched σ) (x : Watched τ) : Prop :=
  R w.backend x.backend ∧ w.calls = x.calls

theorem respond_related (hR : Program.Related Request.IsPlain R h g) {r : Request}
    (hr : r.IsPlain) {before after : List Interference} (hbefore : ∀ i ∈ before, i.IsPlain)
    (hafter : ∀ i ∈ after, i.IsPlain) (hst : R s t) :
    (respond h r before after s).1 = (respond g r before after t).1 ∧
      R (respond h r before after s).2 (respond g r before after t).2 := by
  obtain ⟨failure, s₁, t₁, hs, ht, h₁⟩ := exists_of_related (interfere_related hR hbefore hst)
  unfold respond
  rw [hs, ht]
  cases failure with
  | some e => exact ⟨rfl, h₁⟩
  | none =>
    obtain ⟨reply, s₂, t₂, hs, ht, h₂⟩ := exists_of_related (hR r s₁ t₁ hr h₁)
    simp only [hs, ht]
    cases reply with
    | error e => exact ⟨rfl, h₂⟩
    | ok v =>
      obtain ⟨failure, s₃, t₃, hs, ht, h₃⟩ := exists_of_related (interfere_related hR hafter h₂)
      simp only [hs, ht]
      cases failure with
      | some e => exact ⟨rfl, h₃⟩
      | none => exact ⟨rfl, h₃⟩

theorem related_serve (hR : Program.Related Request.IsPlain R h g) {plan : List Interference}
    (hplan : ∀ i ∈ plan, i.IsPlain) :
    Program.Related Request.IsPlain (Related R) (serve h plan) (serve g plan) := by
  rintro r ⟨s, calls⟩ ⟨t, -⟩ hr ⟨hst, rfl⟩
  have hcount (k : RequestKind) :
      (⟨t, calls⟩ : Watched τ).count k = (⟨s, calls⟩ : Watched σ).count k := rfl
  unfold serve
  simp only [List.partition_eq_filter_filter, hcount]
  generalize hfilter : plan.filter _ = due
  have hdue (p : Interference → Bool) : ∀ i ∈ due.filter p, i.IsPlain := by
    intro i hi
    rw [← hfilter] at hi
    exact hplan i (List.mem_filter.1 (List.mem_filter.1 hi).1).1
  have hanswer := respond_related hR hr (hdue fun i => !i.afterCall)
    (hdue (not ∘ fun i => !i.afterCall)) hst
  exact ⟨hanswer.1, hanswer.2, congrArg (fun reply => ⟨r, reply⟩ :: calls) hanswer.1⟩

end Watched

end Session

/-! ### The service -/

theorem Service.related_serve {σ τ : Type} {R : σ → τ → Prop} {h : Handler Directory.interface σ}
    {g : Handler Directory.interface τ} (hR : Related Directory.Plain R h g) :
    Related Service.Plain (fun (x : σ × Environment) (y : τ × Environment) => R x.1 y.1 ∧ x.2 = y.2)
      (serve h) (serve g) := by
  rintro c ⟨s, env⟩ ⟨t, -⟩ hc ⟨hst, rfl⟩
  cases c with
  | directory c =>
    obtain ⟨hreply, hnext⟩ := hR c s t hc hst
    exact ⟨hreply, hnext, rfl⟩
  | _ => exact ⟨rfl, hst, rfl⟩

/-! ### Sessions -/

namespace Session

def Step.IsPlain : Step → Prop
  | request r => r.IsPlain
  | _ => True

instance : DecidablePred Step.IsPlain
  | .request r => inferInstanceAs (Decidable r.IsPlain)
  | .save _ | .find _ | .perform _ | .advance _ | .setClock _ | .setHasher _ => isTrue trivial

/-- What a report says without the stored keys: the result, the calls and the events. -/
def Report.seen (r : Report) : Except Failure Result × List Recorded × Event.Output :=
  (r.result, r.calls, r.output)

/-- The same service on related storages. -/
structure Alike (R : Storage → Storage → Prop) (s t : State) : Prop where
  storage : R s.storage t.storage
  environment : s.environment = t.environment
  rules : s.rules = t.rules

variable {R : Storage → Storage → Prop} {plan : List Interference} {s t : State}

/-- The scenes after a step. -/
def SceneRelated (R : Storage → Storage → Prop) (x y : Scene) : Prop :=
  Watched.Related R x.1 y.1 ∧ x.2 = y.2

theorem act_related (hR : Related Request.IsPlain R Storage.serve Storage.serve)
    (hplan : ∀ i ∈ plan, i.IsPlain) {a : Step} (ha : a.IsPlain) (h : Alike R s t) :
    (act plan s a).1 = (act plan t a).1 ∧ SceneRelated R (act plan s a).2 (act plan t a).2 := by
  obtain ⟨s, env, rules⟩ := s
  obtain ⟨t, _, _⟩ := t
  obtain ⟨hstorage, rfl, rfl⟩ := h
  have hstart : Watched.Related R (.start s) (.start t) := ⟨hstorage, rfl⟩
  have hdirectory := Directory.related_serve (Watched.related_serve hR hplan)
  cases a with
  | request r =>
    obtain ⟨reply, s₁, t₁, hs, ht, h₁⟩ := exists_of_related (hR r _ _ ha hstorage)
    simp only [act, hs, ht]
    exact ⟨trivial, ⟨h₁, rfl⟩, rfl⟩
  | save u =>
    obtain ⟨result, s₁, t₁, hs, ht, h₁⟩ := exists_of_related
      (run_related hdirectory (Directory.only_save u) hstart)
    simp only [act, runDirectory, hs, ht]
    exact ⟨trivial, h₁, rfl⟩
  | find field =>
    obtain ⟨result, s₁, t₁, hs, ht, h₁⟩ := exists_of_related
      (run_related hdirectory (Directory.only_find Directory.includesLooks_isPlain field) hstart)
    simp only [act, runDirectory, hs, ht]
    exact ⟨trivial, h₁, rfl⟩
  | perform o =>
    have hservice := Service.related_serve hdirectory
    have hscene : SceneRelated R (.start s, { env with output := .empty })
        (.start t, { env with output := .empty }) := ⟨hstart, rfl⟩
    obtain ⟨hresult, hscene⟩ := run_related hservice (Service.only_perform rules o) hscene
    exact ⟨congrArg (fun r => (r.map Result.ofAnswer).mapError Failure.service) hresult, hscene⟩
  | advance d => exact ⟨rfl, hstart, rfl⟩
  | setClock now => exact ⟨rfl, hstart, rfl⟩
  | setHasher hasher => exact ⟨rfl, hstart, rfl⟩

theorem step_alike (hR : Related Request.IsPlain R Storage.serve Storage.serve)
    (hplan : ∀ i ∈ plan, i.IsPlain) {a : Step} (ha : a.IsPlain) (h : Alike R s t) :
    (step plan s a).1.seen = (step plan t a).1.seen ∧
      Alike R (step plan s a).2 (step plan t a).2 := by
  obtain ⟨result, ⟨w, env⟩, ⟨x, -⟩, hs, ht, ⟨hstorage, hcalls⟩, rfl⟩ :=
    exists_of_related (act_related hR hplan ha h)
  unfold step
  rw [hs, ht]
  refine ⟨?_, hstorage, rfl, h.rules⟩
  simp only [Report.seen, show w.calls = x.calls from hcalls]

theorem run_cons (s : State) (plan : List Interference) (a : Step)
    (steps : List (List Interference × Step)) :
    run s ((plan, a) :: steps) = ((step plan s a).1 :: (run (step plan s a).2 steps).1,
      (run (step plan s a).2 steps).2) := rfl

theorem run_alike (hR : Related Request.IsPlain R Storage.serve Storage.serve)
    {steps : List (List Interference × Step)}
    (hsteps : ∀ a ∈ steps, (∀ i ∈ a.1, i.IsPlain) ∧ a.2.IsPlain) (h : Alike R s t) :
    (run s steps).1.map Report.seen = (run t steps).1.map Report.seen ∧
      Alike R (run s steps).2 (run t steps).2 := by
  induction steps generalizing s t with
  | nil => exact ⟨rfl, h⟩
  | cons a steps ih =>
    obtain ⟨⟨hplan, ha⟩, hrest⟩ := List.forall_mem_cons.1 hsteps
    obtain ⟨hreport, hnext⟩ := step_alike hR hplan ha h
    obtain ⟨hreports, hend⟩ := ih hrest hnext
    rw [run_cons, run_cons, List.map_cons, List.map_cons, hreport, hreports]
    exact ⟨rfl, hend⟩

/-! ### Any two backends -/

/-- The replies to requests that are made one after the other. -/
def exchange {σ : Type} (h : Handler Backend.interface σ) :
    List Request → σ → List Recorded × σ
  | [], s => ([], s)
  | r :: rest, s =>
    let (reply, s) := h r s
    let (replies, s) := exchange h rest s
    (⟨r, reply⟩ :: replies, s)

theorem exchange_related {σ τ : Type} {R : σ → τ → Prop} {h : Handler Backend.interface σ}
    {g : Handler Backend.interface τ} (hR : Related Request.IsPlain R h g)
    {requests : List Request} (hrequests : ∀ r ∈ requests, r.IsPlain) {s : σ} {t : τ}
    (hst : R s t) :
    (exchange h requests s).1 = (exchange g requests t).1 ∧
      R (exchange h requests s).2 (exchange g requests t).2 := by
  induction requests generalizing s t with
  | nil => exact ⟨rfl, hst⟩
  | cons r requests ih =>
    obtain ⟨hr, hrest⟩ := List.forall_mem_cons.1 hrequests
    obtain ⟨reply, s₁, t₁, hs, ht, h₁⟩ := exists_of_related (hR r s t hr hst)
    obtain ⟨hreplies, hend⟩ := ih hrest h₁
    simp only [exchange, hs, ht, hreplies]
    exact ⟨trivial, hend⟩

/-- The storages hold the same tables, each in its layout. -/
def SameTables (l m : Layout) (s s' : Storage) : Prop :=
  ∃ t, Represents l s t ∧ Represents m s' t

theorem related_sameTables (l m : Layout) :
    Related Request.IsPlain (SameTables l m) Storage.serve Storage.serve := by
  rintro r s s' hr ⟨t, hs, hs'⟩
  obtain ⟨hreply, hnext⟩ := Backend.related_tables l r s t hr hs
  obtain ⟨hreply', hnext'⟩ := Backend.related_tables m r s' t hr hs'
  exact ⟨hreply.trans hreply'.symm, _, hnext, hnext'⟩

/-- Requests on plain indexes to a storage that is empty at first are answered as by the tables,
which it holds in its layout at the end; and a session has the results, calls and events of the same
session in memory. -/
theorem backends_interchangeable (start : Storage) (hempty : start.keys = []) :
    (∀ requests : List Request, (∀ r ∈ requests, r.IsPlain) →
      (exchange Storage.serve requests start).1 = (exchange Tables.serve requests .empty).1 ∧
      start.layout.Holds (exchange Storage.serve requests start).2
        (exchange Tables.serve requests .empty).2) ∧
    ∀ (environment : Service.Environment) (rules : Service.Rules)
      (steps : List (List Interference × Step)),
      (∀ a ∈ steps, (∀ i ∈ a.1, i.IsPlain) ∧ a.2.IsPlain) →
      (run ⟨start, environment, rules⟩ steps).1.map Report.seen =
        (run ⟨.memory .empty, environment, rules⟩ steps).1.map Report.seen ∧
      (run ⟨start, environment, rules⟩ steps).2.environment =
        (run ⟨.memory .empty, environment, rules⟩ steps).2.environment ∧
      ∃ t, start.layout.Holds (run ⟨start, environment, rules⟩ steps).2.storage t ∧
        Layout.flat.Holds (run ⟨.memory .empty, environment, rules⟩ steps).2.storage t := by
  have hstart := Backend.represents_empty hempty
  constructor
  · intro requests hrequests
    obtain ⟨hreplies, hend⟩ :=
      exchange_related (Backend.related_tables start.layout) hrequests hstart
    exact ⟨hreplies, hend.toHolds⟩
  · intro environment rules steps hsteps
    have hmemory : Represents .flat (.memory .empty) .empty :=
      Backend.represents_empty (s := .memory .empty) rfl
    have hsame : Alike (SameTables start.layout .flat) ⟨start, environment, rules⟩
        ⟨.memory .empty, environment, rules⟩ := ⟨⟨_, hstart, hmemory⟩, rfl, rfl⟩
    obtain ⟨hreports, ⟨t, hend, hend'⟩, henvironment, -⟩ :=
      run_alike (related_sameTables _ _) hsteps hsame
    exact ⟨hreports, henvironment, t, hend.toHolds, hend'.toHolds⟩

/-- A server with leases. -/
def leasing : Storage :=
  .etcd ⟨"http://localhost:2379", "userd/é", some (.ofSeconds 60)⟩ .empty

/-- Keys with separators in them and an empty one. -/
def awkward : List Request :=
  [.setRecord "a:b/c" "", .setRecord "a:b/c" "{}", .claimEntry "emails" "" "é",
    .claimEntry "emails" "" "u", .releaseEntry "emails" "" "u", .putEntry "" "user:a:b/c" "v",
    .record "a:b/c", .owner "emails" ""]

def surroundings : Service.Environment where
  hasher := .ofPlain ⟨"plain:", ["plain:"], [], [], []⟩
  identifiers := .sequence "u:" 0
  entropy := ⟨0⟩
  clock := .ofCount 0
  stream := .log ""
  output := .empty

/-- A user signs up while somebody else puts an entry under its login name. -/
def signUp : List (List Interference × Step) :=
  [([⟨.setRecord, 0, true, [.request (.putEntry "login_name" "alice" "x/y")], none⟩],
      .perform (.createUser "Alice" "a@example.com" "alice" "secret")),
    ([], .perform (.createUser "Alice" "a@example.com" "alice" "secret")),
    ([], .find (.loginName "alice")), ([], .perform (.authenticate "alice" "secret"))]

theorem backends_interchangeable_leasing :
    leasing.keys = [] ∧ (∀ r ∈ awkward, r.IsPlain) ∧
      (∀ a ∈ signUp, (∀ i ∈ a.1, i.IsPlain) ∧ a.2.IsPlain) ∧
      ((exchange Storage.serve awkward leasing).1 = (exchange Tables.serve awkward .empty).1 ∧
        leasing.layout.Holds (exchange Storage.serve awkward leasing).2
          (exchange Tables.serve awkward .empty).2) ∧
      (run ⟨leasing, surroundings, .standard⟩ signUp).1.map Report.seen =
        (run ⟨.memory .empty, surroundings, .standard⟩ signUp).1.map Report.seen ∧
      (run ⟨leasing, surroundings, .standard⟩ signUp).2.environment =
        (run ⟨.memory .empty, surroundings, .standard⟩ signUp).2.environment ∧
      ∃ t, leasing.layout.Holds (run ⟨leasing, surroundings, .standard⟩ signUp).2.storage t ∧
        Layout.flat.Holds (run ⟨.memory .empty, surroundings, .standard⟩ signUp).2.storage t := by
  have hawkward : ∀ r ∈ awkward, r.IsPlain := by decide
  have hsignUp : ∀ a ∈ signUp, (∀ i ∈ a.1, i.IsPlain) ∧ a.2.IsPlain := by decide
  have h := backends_interchangeable leasing rfl
  exact ⟨rfl, hawkward, hsignUp, h.1 awkward hawkward,
    h.2 surroundings .standard signUp hsignUp⟩

end Session

end Accounts
