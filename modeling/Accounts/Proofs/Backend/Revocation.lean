import Accounts.Backend.Etcd
import Accounts.Proofs.Backend.Custody
import Accounts.Proofs.Program.Precondition
import Accounts.Proofs.Program.Simulation

/-!
# Revoked leases hold nothing

Any number of etcd operations on one gateway, request by request in any order, while requests fail
with their effect or without. Each operation keeps to what its hand allows (`wp_program`), so none
of their revocations takes a key away, and a set that is not disturbed revokes the lease of the
entry it replaces (`revocation_loses_nothing`).
-/
namespace Accounts.Backend.Etcd

open Program
open Gateway (Exchange Fate Hand Served Server Session handOf handOf_concat)

/-! ### One operation -/

/-- Requests that the hand allows, whatever is answered. -/
def handed : Calls Gateway.interface (List Exchange) := fun r Q trail =>
  (handOf trail).Allows r ∧ ∀ reply, Q reply (trail ++ [⟨r, reply⟩])

instance : handed.Monotone := ⟨fun hQR h => ⟨h.1, fun reply => hQR _ _ (h.2 reply)⟩⟩

/-- Every hand allows the request. -/
def Plain (r : Gateway.Request) : Prop := ∀ hand : Hand, hand.Allows r

theorem wp_of_only {α : Type} {p : Program Gateway.interface α} (h : p.Only Plain)
    {Q : α → List Exchange → Prop} (hQ : ∀ a trail, Q a trail) (trail : List Exchange) :
    p.wp handed Q trail := by
  induction p generalizing trail with
  | done a => exact hQ a trail
  | call r next ih => exact ⟨h.1 (handOf trail), fun reply => ih reply (h.2 reply) _⟩

theorem wp_ask {r : Gateway.Request} {trail : List Exchange} (h : (handOf trail).Allows r) :
    (ask r).run.wp handed (fun reply after => after = trail ++ [⟨r, reply⟩]) trail :=
  ⟨h, fun _ => rfl⟩

theorem not_answered_of_error {r : Gateway.Request} {e : BackendError} {trail : List Exchange} :
    ¬ ∀ x ∈ trail ++ [⟨r, .error e⟩], x.Answered := by
  intro hall
  have hmem : (⟨r, .error e⟩ : Exchange) ∈ trail ++ [⟨r, .error e⟩] :=
    List.mem_append_right _ (List.mem_singleton_self _)
  exact Bool.false_ne_true (hall _ hmem)

/-- Whether the revocation works does not matter. -/
theorem wp_revoke {old : String} {trail : List Exchange} {Q : Except BackendError Unit →
    List Exchange → Prop} (h : handOf trail = .spent old)
    (hQ : ∀ reply, Q (.ok ()) (trail ++ [⟨.revokeLease old, reply⟩])) :
    (tryCatch (ask (.revokeLease old) : Action Unit) fun _ => pure ()).run.wp handed Q trail := by
  refine ⟨h, fun reply => ?_⟩
  have hreply := hQ reply
  cases reply with
  | ok v => exact hreply
  | error e => exact hreply

/-- The exchanges of a set under a new lease: grant, put, and the revocation of the lease that the
put has replaced. -/
def Renews (key value : String) (trail : List Exchange) : Prop :=
  ∃ seconds lease replaced, trail =
    [⟨.grantLease seconds, .ok lease⟩, ⟨.put key value (some lease), .ok replaced⟩] ++
      (superseded lease replaced).toList.map fun old => ⟨.revokeLease old, .ok ()⟩

theorem wp_putLeased (key value : String) (t : Duration) :
    (putLeased key value t).run.wp handed
      (fun _ trail => (∀ x ∈ trail, x.Answered) → Renews key (encodeText value) trail) [] := by
  have hfailed (r : Gateway.Request) (trail : List Exchange) :
      ∀ (e : BackendError) (after : List Exchange), after = trail ++ [⟨r, .error e⟩] →
        (∀ x ∈ after, x.Answered) → Renews key (encodeText value) after := by
    rintro e _ rfl hall
    exact (not_answered_of_error hall).elim
  unfold putLeased
  refine wp_seq (wp_ask trivial) ?_ (hfailed _ _)
  rintro lease _ rfl
  refine wp_seq (wp_ask (by rw [handOf_concat]; rfl)) ?_ (hfailed _ _)
  rintro replaced _ rfl
  cases hold : superseded lease replaced with
  | none => exact fun _ => ⟨_, lease, replaced, by rw [hold]; rfl⟩
  | some old =>
    -- The put has moved its key away from the lease that is now revoked.
    have hreplaced : replaced.bind Gateway.Entry.lease = some old :=
      (Option.filter_eq_some_iff.1 hold).1
    refine wp_revoke ?_ fun reply hall => ?_
    · rw [handOf_concat]
      change Hand.replaced (replaced.bind Gateway.Entry.lease) = _
      rw [hreplaced]
      rfl
    · cases reply with
      | error e => exact (not_answered_of_error hall).elim
      | ok v => exact ⟨_, lease, replaced, by rw [hold]; rfl⟩

/-- What the operation has done when it is done. -/
def Complete (c : Settings) (r : Request) (trail : List Exchange) : Prop :=
  ∀ id value t, r = .setRecord id value → c.timeToLive = some t → (∀ x ∈ trail, x.Answered) →
    Renews (c.key recordSpace id) (encodeText value) trail

theorem only_ask {r : Gateway.Request} (h : Plain r) : (ask r).run.Only Plain := Program.only_ask h

theorem only_get (key : String) : (get key).run.Only Plain :=
  only_bind_except (only_ask fun _ => trivial) fun _ => trivial

theorem only_put (key value : String) : (put key value).run.Only Plain :=
  only_bind_except (only_ask fun _ => trivial) fun _ => trivial

theorem only_claim (key owner : String) : (claim key owner).run.Only Plain := by
  refine only_bind_except (only_ask fun _ => trivial) fun outcome => ?_
  split
  · trivial
  · have hvalue : (ExceptT.mk (.done (valueOf outcome.current)) : Action _).run.Only Plain :=
      trivial
    exact only_bind_except hvalue fun _ => trivial

theorem only_release (key owner : String) : (release key owner).run.Only Plain :=
  only_bind_except (only_ask fun _ => trivial) fun _ => trivial

/-- Every operation keeps to what its hand allows. -/
theorem wp_program (c : Settings) (r : Request) :
    (program c r).run.wp handed (fun _ => Complete c r) [] := by
  have hplain (hr : ∀ id value t, r = .setRecord id value → c.timeToLive ≠ some t)
      (h : (program c r).run.Only Plain) : (program c r).run.wp handed (fun _ => Complete c r) [] :=
    wp_of_only h (fun _ _ id value t hset ht _ => absurd ht (hr id value t hset)) []
  cases r with
  | record id => exact hplain nofun (only_get _)
  | setRecord id value =>
    cases ht : c.timeToLive with
    | none =>
      refine hplain (by simp [ht]) ?_
      simp only [program, ht]
      exact only_put _ _
    | some t =>
      simp only [program, ht]
      refine wp_mono ?_ (wp_putLeased (c.key recordSpace id) value t)
      rintro _ trail hrenews _ _ _ ⟨⟩ - hall
      exact hrenews hall
  | deleteRecord id => exact hplain nofun (only_ask fun _ => trivial)
  | owner index key => exact hplain nofun (only_get _)
  | putEntry index key owner => exact hplain nofun (only_put _ _)
  | claimEntry index key owner => exact hplain nofun (only_claim _ _)
  | removeEntry index key => exact hplain nofun (only_ask fun _ => trivial)
  | releaseEntry index key owner => exact hplain nofun (only_release _ _)

/-! ### Many operations -/

section

variable {ι σ : Type} [DecidableEq ι]

/-- Operations of drivers with any settings on one gateway after these turns. -/
def traffic (server : Server σ) (start : σ) (job : ι → Settings × Request) (fates : Nat → Fate)
    (schedule : List ι) : Threads Gateway.interface ι (Session ι σ) Unit :=
  Threads.run (server.serve fates)
    ⟨⟨start, []⟩, fun i => (program (job i).1 (job i).2).run.bind fun _ => .done ()⟩ schedule

theorem traffic_orderly (server : Server σ) (start : σ) (job : ι → Settings × Request)
    (fates : Nat → Fate) (schedule : List ι) :
    server.Orderly start (traffic server start job fates schedule).shared ∧
      ∀ i, ((traffic server start job fates schedule).rest i).wp handed
        (fun _ => Complete (job i).1 (job i).2)
        ((traffic server start job fates schedule).shared.trail i) := by
  induction schedule using List.reverseRecOn with
  | nil =>
    refine ⟨.start, fun i => ?_⟩
    change ((program (job i).1 (job i).2).run.bind fun _ => .done ()).wp handed _ []
    rw [wp_bind]
    exact wp_program _ _
  | append_singleton schedule i ih =>
    obtain ⟨horderly, hwp⟩ := ih
    unfold traffic at horderly hwp ⊢
    rw [Threads.run_concat]
    generalize Threads.run _ _ schedule = m at horderly hwp ⊢
    rcases Threads.step_cases (server.serve fates) m i with
      hstep | ⟨r, next, reply, s, hrest, hanswer, hstep⟩
    · rw [hstep]
      exact ⟨horderly, hwp⟩
    · rw [hstep]
      have hi := hwp i
      rw [hrest] at hi
      obtain ⟨hallows, hnext⟩ := hi
      simp only [Server.serve, Option.some.injEq, Prod.mk.injEq] at hanswer
      obtain ⟨rfl, rfl⟩ := hanswer
      refine ⟨horderly.next ⟨rfl, hallows, _, rfl⟩, fun j => ?_⟩
      rw [Session.trail_add]
      by_cases hji : j = i
      · subst hji
        simp only [if_true, Function.update_self]
        exact hnext _
      · simp only [if_neg hji]
        rw [Function.update_of_ne hji]
        exact hwp j

variable {server : Server σ} {start : σ} {job : ι → Settings × Request} {fates : Nat → Fate}

/-- The lease of the entry that a put replaces is the one to be revoked. -/
theorem superseded_of_put (hserver : server.Lawful) {s : Session ι σ} {x : Served ι σ}
    (hs : server.SafeIn s) (hx : server.Next s x) {key value lease old : String}
    (hr : x.request = .put key value (some lease))
    (hold : server.attached s.gateway key = some old) :
    superseded lease (server.entry s.gateway key) = some old := by
  have hnamed : old ≠ "" ∧ old ≠ "0" := hserver.named (hs.used hold)
  have hne : old ≠ lease := by
    rintro rfl
    exact hx.put_vacant hs hr key hold
  unfold superseded
  refine Option.filter_eq_some_iff.2 ⟨hold, ?_⟩
  simp [hnamed, hne]

/-- A set that is done, none of whose requests failed, has put its entry under a new lease and
revoked the lease that the entry it replaced was under. -/
theorem revoked_of_done (hserver : server.Lawful) (hstart : server.Apart start)
    {schedule : List ι} {i : ι} {c : Settings} {id value : String} {t : Duration}
    (hjob : job i = (c, .setRecord id value)) (ht : c.timeToLive = some t)
    (hdone : (traffic server start job fates schedule).rest i = .done ())
    (hanswered : ∀ x ∈ (traffic server start job fates schedule).shared.served,
      x.caller = i → x.Answered) :
    ∃ a x b lease, (traffic server start job fates schedule).shared.served = a ++ x :: b ∧
      x.caller = i ∧ x.request = .put (c.key recordSpace id) (encodeText value) (some lease) ∧
      ∀ old, server.attached x.before (c.key recordSpace id) = some old →
        ∃ y ∈ b, y.caller = i ∧ y.request = .revokeLease old ∧ y.Answered := by
  obtain ⟨horderly, hwp⟩ := traffic_orderly server start job fates schedule
  generalize traffic server start job fates schedule = m at hdone hanswered horderly hwp ⊢
  have hcomplete := hwp i
  rw [hdone, hjob] at hcomplete
  have htrail : ∀ x ∈ m.shared.trail i, x.Answered := by
    intro x hx
    obtain ⟨y, hy, rfl⟩ := List.mem_map.1 hx
    obtain ⟨hmem, hi⟩ := List.mem_filter.1 hy
    exact hanswered y hmem (of_decide_eq_true hi)
  obtain ⟨seconds, lease, replaced, hrenews⟩ := hcomplete id value t rfl ht htrail
  obtain ⟨a, x, b, hsplit, hi, hput, hlater⟩ := Session.split_of_trail [_] hrenews
  have hr : x.request = .put (c.key recordSpace id) (encodeText value) (some lease) :=
    congrArg Exchange.request hput
  refine ⟨a, x, b, lease, hsplit, hi, hr, fun old hold => ?_⟩
  obtain ⟨s, hs, -, hnext⟩ := horderly.next_of_split hsplit
  rw [hnext.before] at hold
  have hsuperseded := superseded_of_put hserver (hs.safe hserver hstart) hnext hr hold
  rw [← hnext.reported hserver hput] at hsuperseded
  obtain ⟨y, hy, hyi, hrevoke⟩ := hlater ⟨.revokeLease old, .ok ()⟩ (by simp [hsuperseded])
  refine ⟨y, hy, hyi, congrArg Exchange.request hrevoke, ?_⟩
  rw [hrevoke]
  rfl

/-- However the requests of the operations interleave and fail, no revocation changes what is under
any key. A set that is done, none of whose requests failed, has revoked the lease that the entry it
replaced was under. And the entry that was put last under a key is there with the lease that was
granted for it, unless a request has deleted the key. -/
theorem revocation_loses_nothing (hserver : server.Lawful) (hstart : server.Apart start)
    (job : ι → Settings × Request) (fates : Nat → Fate) (schedule : List ι) :
    let m := traffic server start job fates schedule
    (∀ x ∈ m.shared.served, ∀ lease, x.request = .revokeLease lease →
      ∀ key, server.entry x.after key = server.entry x.before key) ∧
    (∀ i c id value t, job i = (c, .setRecord id value) → c.timeToLive = some t →
      m.rest i = .done () → (∀ x ∈ m.shared.served, x.caller = i → x.Answered) →
      ∃ a x b lease, m.shared.served = a ++ x :: b ∧ x.caller = i ∧
        x.request = .put (c.key recordSpace id) (encodeText value) (some lease) ∧
        ∀ old, server.attached x.before (c.key recordSpace id) = some old →
          ∃ y ∈ b, y.caller = i ∧ y.request = .revokeLease old ∧ y.Answered) ∧
    ∀ a x b key value lease, m.shared.served = a ++ x :: b →
      x.request = .put key value (some lease) → x.Answered →
      (∀ y ∈ b, ¬ y.request.Stores key) →
      (∃ g ∈ a, g.caller = x.caller ∧ g.Grants lease) ∧
        (server.entry m.shared.gateway key = some ⟨value, some lease⟩ ∨
          server.entry m.shared.gateway key = none ∧ ∃ y ∈ b, y.request.Deletes key) := by
  intro m
  have horderly : server.Orderly start m.shared :=
    (traffic_orderly server start job fates schedule).1
  refine ⟨fun x hx lease hr => ?_, fun i c id value t hjob ht hdone hanswered => ?_,
    fun a x b key value lease hsplit hr hx hb => ⟨?_, ?_⟩⟩
  · obtain ⟨s, hs, hnext⟩ := horderly.next_of_mem hx
    exact hnext.entry_after_revoke hserver (hs.safe hserver hstart) hr
  · exact revoked_of_done hserver hstart hjob ht hdone hanswered
  · obtain ⟨s, -, rfl, hnext⟩ := horderly.next_of_split hsplit
    exact hnext.granted hr
  · exact horderly.entry_after_put hserver hstart hsplit hr hx hb

end

def hourly : Settings := ⟨"http://localhost:2379", "userd", some (Duration.ofSeconds 3600)⟩

def threeRecords (i : Fin 3) : Settings × Request :=
  (hourly, .setRecord "alice" (match i with | 0 => "first" | 1 => "second" | 2 => "third"))

/-- After the first set the other two overtake each other; the record of the last put stays. -/
def overtaking : Threads Gateway.interface (Fin 3)
    (Session (Fin 3) { s : Gateway.State // s.Distinct }) Unit :=
  traffic Gateway.State.server ⟨Gateway.State.empty, List.nodup_nil⟩ threeRecords
    (fun _ => .answered) [0, 0, 1, 2, 1, 2, 2, 1]

theorem revocation_loses_nothing_overtaking :
    (∃ x ∈ overtaking.shared.served, x.caller = 2 ∧ x.request = .revokeLease "1002" ∧
      ∀ key, Gateway.State.server.entry x.after key = Gateway.State.server.entry x.before key) ∧
    Gateway.State.server.entry overtaking.shared.gateway (hourly.key recordSpace "alice") =
      some ⟨encodeText "third", some "1003"⟩ := by
  have hstart : Gateway.State.server.Apart ⟨Gateway.State.empty, List.nodup_nil⟩ := by
    constructor
    · intro key lease h
      cases h
    · intro key other lease h
      cases h
  obtain ⟨hrevocations, hsets, hputs⟩ := revocation_loses_nothing Gateway.State.lawful_server hstart
    threeRecords (fun _ => .answered) [0, 0, 1, 2, 1, 2, 2, 1]
  have hdone : overtaking.rest 2 = .done () := Program.eq_done_of_result? (by decide +kernel)
  have hanswered : ∀ x ∈ overtaking.shared.served, x.caller = 2 → x.Answered := by decide +kernel
  have hfound : ∀ x ∈ overtaking.shared.served, x.caller = 2 →
      x.request.Stores (hourly.key recordSpace "alice") →
      Gateway.State.server.attached x.before (hourly.key recordSpace "alice") = some "1002" := by
    decide +kernel
  obtain ⟨_, hput, hok⟩ : ∃ _ : 5 < overtaking.shared.served.length,
      overtaking.shared.served[5].request =
          .put (hourly.key recordSpace "alice") (encodeText "third") (some "1003") ∧
        overtaking.shared.served[5].Answered :=
    ⟨by decide +kernel, by decide +kernel, by decide +kernel⟩
  constructor
  · obtain ⟨a, x, b, lease, hsplit, hcaller, hr, hrevoked⟩ :=
      hsets 2 _ "alice" "third" _ rfl rfl hdone hanswered
    have hx : x ∈ overtaking.shared.served := hsplit ▸ List.mem_append_right _ List.mem_cons_self
    obtain ⟨y, hy, hycaller, hyr, -⟩ := hrevoked "1002" (hfound x hx hcaller (hr ▸ rfl))
    have hmem : y ∈ overtaking.shared.served :=
      hsplit ▸ List.mem_append_right _ (List.mem_cons_of_mem x hy)
    exact ⟨y, hmem, hycaller, hyr, hrevocations y hmem "1002" hyr⟩
  · have hsplit : overtaking.shared.served = overtaking.shared.served.take 5 ++
        overtaking.shared.served[5] :: overtaking.shared.served.drop 6 := by
      rw [List.getElem_cons_drop, List.take_append_drop]
    obtain ⟨-, hentry | ⟨-, y, hy, hdeletes⟩⟩ :=
      hputs _ _ _ _ _ _ hsplit hput hok (by decide +kernel)
    · exact hentry
    · have hnone : ∀ y ∈ overtaking.shared.served.drop 6,
          ¬ y.request.Deletes (hourly.key recordSpace "alice") := by decide +kernel
      exact absurd hdeletes (hnone y hy)

end Accounts.Backend.Etcd
