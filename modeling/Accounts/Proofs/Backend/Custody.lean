import Accounts.Proofs.Backend.Server
import Accounts.Proofs.Program.Threads
import Mathlib.Data.List.Induction
import Mathlib.Logic.Function.Basic

/-!
# Leases from hand to hand

Any number of operations share one gateway. The one that was granted a lease is the only one that
can put a key under it, and the one whose put has taken that key to another lease is the only one
that revokes it (`Hand.Allows`). So a lease in hand holds no key (`Safe`): no revocation takes a key
away (`Orderly.revocations`), and after a put only a request to delete its key does
(`Orderly.entry_after_put`). Requests may fail, with their effect or without.
-/
namespace Accounts.Backend.Gateway

variable {ι σ : Type}

/-! ### Requests and who makes them -/

/-- A request and what came back. -/
structure Exchange where
  request : Request
  reply : Except BackendError request.Value

def Exchange.Answered (x : Exchange) : Prop := x.reply.isOk = true

instance : DecidablePred Exchange.Answered := fun x =>
  inferInstanceAs (Decidable (x.reply.isOk = true))

def Exchange.Grants (x : Exchange) (lease : String) : Prop :=
  ∃ seconds, x = ⟨.grantLease seconds, .ok lease⟩

/-- An exchange of one of several operations, and the gateway before and after it. -/
structure Served (ι σ : Type) extends Exchange where
  caller : ι
  before : σ
  after : σ

/-- The gateway, and all exchanges so far. -/
structure Session (ι σ : Type) where
  gateway : σ
  served : List (Served ι σ)

namespace Session

def add (s : Session ι σ) (x : Served ι σ) : Session ι σ := ⟨x.after, s.served ++ [x]⟩

variable [DecidableEq ι]

/-- The exchanges of one operation. -/
def trail (s : Session ι σ) (i : ι) : List Exchange :=
  (s.served.filter fun x => x.caller = i).map Served.toExchange

theorem trail_add (s : Session ι σ) (x : Served ι σ) :
    (s.add x).trail = Function.update s.trail x.caller (s.trail x.caller ++ [x.toExchange]) := by
  funext i
  by_cases hi : i = x.caller
  · simp [trail, add, hi]
  · have hne : x.caller ≠ i := fun h => hi h.symm
    simp [trail, add, hi, hne]

end Session

/-- What becomes of a request: it is answered, it fails and has no effect, or it has its effect and
the answer is lost. -/
inductive Fate where
  | answered
  | refused (e : BackendError)
  | lost (e : BackendError)

def Fate.settle {α : Type} (before : σ) (x : α × σ) : Fate → Except BackendError α × σ
  | answered => (.ok x.1, x.2)
  | refused e => (.error e, before)
  | lost e => (.error e, x.2)

/-- Serves a request; the n-th of the session meets the n-th fate. -/
def Server.serve (server : Server σ) (fates : Nat → Fate) (i : ι) (r : Request)
    (s : Session ι σ) : Option (Except BackendError r.Value × Session ι σ) :=
  let x := (fates s.served.length).settle s.gateway (server.respond r s.gateway)
  some (x.1, s.add ⟨⟨r, x.1⟩, i, s.gateway, x.2⟩)

/-! ### Leases in hand -/

/-- The lease that an operation was just granted, or the one that its put just replaced. -/
inductive Hand where
  | empty
  | fresh (lease : String)
  | spent (lease : String)

def Hand.lease? : Hand → Option String
  | empty => none
  | fresh lease | spent lease => some lease

/-- The hand after a put that replaced an entry with this lease. -/
def Hand.replaced : Option String → Hand
  | none => empty
  | some lease => spent lease

theorem Hand.lease?_replaced (lease : Option String) : (replaced lease).lease? = lease := by
  cases lease <;> rfl

theorem Hand.replaced_ne_fresh (old : Option String) (lease : String) :
    replaced old ≠ fresh lease := by
  cases old <;> exact nofun

/-- The hand after a request that was answered. -/
def Request.hand : (r : Request) → r.Value → Hand
  | .grantLease _, lease => .fresh lease
  | .put _ _ (some _), replaced => .replaced (replaced.bind Entry.lease)
  | _, _ => .empty

def Exchange.hand (x : Exchange) : Hand :=
  match x.reply with
  | .ok v => x.request.hand v
  | .error _ => .empty

/-- What an operation has in hand after these exchanges. -/
def handOf (trail : List Exchange) : Hand := (trail.getLast?.map Exchange.hand).getD .empty

theorem handOf_concat (trail : List Exchange) (x : Exchange) : handOf (trail ++ [x]) = x.hand := by
  simp [handOf]

theorem Exchange.grants_of_hand {x : Exchange} {lease : String} (h : x.hand = .fresh lease) :
    x.Grants lease := by
  obtain ⟨r, reply⟩ := x
  cases reply with
  | error e => cases h
  | ok v =>
    change r.hand v = .fresh lease at h
    cases r with
    | grantLease seconds =>
      cases h
      exact ⟨seconds, rfl⟩
    | put key value l =>
      cases l with
      | none => cases h
      | some l => exact absurd h (Hand.replaced_ne_fresh _ _)
    | _ => cases h

theorem grants_of_handOf {trail : List Exchange} {lease : String}
    (h : handOf trail = .fresh lease) : ∃ x ∈ trail, x.Grants lease := by
  unfold handOf at h
  cases hlast : trail.getLast? with
  | none => simp [hlast] at h
  | some x =>
    simp only [hlast, Option.map_some, Option.getD_some] at h
    exact ⟨x, List.mem_of_getLast? hlast, Exchange.grants_of_hand h⟩

/-- Keys are put only under the lease that was just granted, and only the lease that was just
replaced is revoked. -/
def Hand.Allows (hand : Hand) : Request → Prop
  | .put _ _ (some lease) => hand = .fresh lease
  | .revokeLease lease => hand = .spent lease
  | _ => True

section

variable [DecidableEq ι] {granted granted' : String → Prop}
  {attached attached' : String → Option String} {hand : ι → Hand} {i : ι} {key lease : String}

/-- Leases in use were granted and hold one key each. Leases in hand were granted and hold none, and
one that is fresh is in no other hand. -/
structure Safe (granted : String → Prop) (attached : String → Option String) (hand : ι → Hand) :
    Prop where
  used : ∀ {key lease}, attached key = some lease → granted lease
  single : ∀ {key other lease}, attached key = some lease → attached other = some lease →
    key = other
  held : ∀ {i lease}, (hand i).lease? = some lease → granted lease
  vacant : ∀ {i lease}, (hand i).lease? = some lease → ∀ key, attached key ≠ some lease
  sole : ∀ {i j lease}, hand i = .fresh lease → (hand j).lease? = some lease → i = j

theorem attached_update_cases {other lease' : String}
    (h : Function.update attached key (some lease) other = some lease') :
    other = key ∧ lease = lease' ∨ other ≠ key ∧ attached other = some lease' := by
  by_cases hkey : other = key
  · rw [hkey, Function.update_self] at h
    exact Or.inl ⟨hkey, Option.some.inj h⟩
  · rw [Function.update_of_ne hkey] at h
    exact Or.inr ⟨hkey, h⟩

theorem lease?_update_cases {j : ι} {taken : Hand}
    (h : (Function.update hand i taken j).lease? = some lease) :
    j = i ∧ taken.lease? = some lease ∨ j ≠ i ∧ (hand j).lease? = some lease := by
  by_cases hji : j = i
  · rw [hji, Function.update_self] at h
    exact Or.inl ⟨hji, h⟩
  · rw [Function.update_of_ne hji] at h
    exact Or.inr ⟨hji, h⟩

theorem lease?_of_drop {j : ι} (h : (Function.update hand i .empty j).lease? = some lease) :
    j ≠ i ∧ (hand j).lease? = some lease := by
  rcases lease?_update_cases h with ⟨-, hnone⟩ | hothers
  · cases hnone
  · exact hothers

namespace Safe

/-- Somebody's hand may be emptied, and keys may leave their leases. -/
theorem drop (h : Safe granted attached hand) (hgranted : ∀ {l}, granted l → granted' l)
    (hattached : ∀ {k l}, attached' k = some l → attached k = some l) (i : ι) :
    Safe granted' attached' (Function.update hand i .empty) where
  used hk := hgranted (h.used (hattached hk))
  single hk hk' := h.single (hattached hk) (hattached hk')
  held hj := hgranted (h.held (lease?_of_drop hj).2)
  vacant hj k hk := h.vacant (lease?_of_drop hj).2 k (hattached hk)
  sole := by
    intro j j' l hj hj'
    have hne : j ≠ i := (lease?_of_drop (congrArg Hand.lease? hj)).1
    rw [Function.update_of_ne hne] at hj
    exact h.sole hj (lease?_of_drop hj').2

/-- A lease that was never granted before comes into one hand. -/
theorem grant (h : Safe granted attached hand) (hgranted : ∀ {l}, granted l → granted' l)
    (hfresh : ¬ granted lease) (hlease : granted' lease) (i : ι) :
    Safe granted' attached (Function.update hand i (.fresh lease)) where
  used hk := hgranted (h.used hk)
  single := h.single
  held := by
    intro j l hj
    rcases lease?_update_cases hj with ⟨-, hl⟩ | ⟨-, hj⟩
    · cases hl
      exact hlease
    · exact hgranted (h.held hj)
  vacant := by
    intro j l hj k hk
    rcases lease?_update_cases hj with ⟨-, hl⟩ | ⟨-, hj⟩
    · cases hl
      exact hfresh (h.used hk)
    · exact h.vacant hj k hk
  sole := by
    intro j j' l hj hj'
    by_cases hji : j = i
    · rw [hji, Function.update_self] at hj
      cases hj
      rcases lease?_update_cases hj' with ⟨hji', -⟩ | ⟨-, hj'⟩
      · rw [hji, hji']
      · exact absurd (h.held hj') hfresh
    · rw [Function.update_of_ne hji] at hj
      rcases lease?_update_cases hj' with ⟨-, hl⟩ | ⟨-, hj'⟩
      · cases hl
        exact absurd (h.held (congrArg Hand.lease? hj)) hfresh
      · exact h.sole hj hj'

/-- A key moves to the lease in one hand, which takes up the one that the key was under. -/
theorem put (h : Safe granted attached hand) (hgranted : ∀ {l}, granted l → granted' l)
    (hi : hand i = .fresh lease) (key : String) :
    Safe granted' (Function.update attached key (some lease))
      (Function.update hand i (.replaced (attached key))) := by
  have hlease : (hand i).lease? = some lease := congrArg Hand.lease? hi
  have hvacant (k : String) : attached k ≠ some lease := h.vacant hlease k
  -- afterwards the hand holds what the key was under, and the others what they held before
  have hcases {j : ι} {l : String}
      (hj : (Function.update hand i (.replaced (attached key)) j).lease? = some l) :
      attached key = some l ∨ j ≠ i ∧ (hand j).lease? = some l := by
    rcases lease?_update_cases hj with ⟨-, hold⟩ | hothers
    · rw [Hand.lease?_replaced] at hold
      exact Or.inl hold
    · exact Or.inr hothers
  constructor
  case used =>
    intro k l hk
    rcases attached_update_cases hk with ⟨-, rfl⟩ | ⟨-, hk⟩
    · exact hgranted (h.held hlease)
    · exact hgranted (h.used hk)
  case single =>
    intro k k' l hk hk'
    rcases attached_update_cases hk with ⟨hkey, rfl⟩ | ⟨-, hk⟩
    · rcases attached_update_cases hk' with ⟨hkey', -⟩ | ⟨-, hk'⟩
      · rw [hkey, hkey']
      · exact absurd hk' (hvacant k')
    · rcases attached_update_cases hk' with ⟨-, rfl⟩ | ⟨-, hk'⟩
      · exact absurd hk (hvacant k)
      · exact h.single hk hk'
  case held =>
    intro j l hj
    rcases hcases hj with hold | ⟨-, hj⟩
    · exact hgranted (h.used hold)
    · exact hgranted (h.held hj)
  case vacant =>
    intro j l hj k hk
    rcases attached_update_cases hk with ⟨-, rfl⟩ | ⟨hkey, hk⟩
    · rcases hcases hj with hold | ⟨hji, hj⟩
      · exact hvacant key hold
      · exact hji (h.sole hi hj).symm
    · rcases hcases hj with hold | ⟨-, hj⟩
      · exact hkey (h.single hk hold)
      · exact h.vacant hj k hk
  case sole =>
    intro j j' l hj hj'
    have hji : j ≠ i := by
      rintro rfl
      rw [Function.update_self] at hj
      exact Hand.replaced_ne_fresh _ _ hj
    rw [Function.update_of_ne hji] at hj
    rcases hcases hj' with hold | ⟨-, hj'⟩
    · exact absurd hold (h.vacant (congrArg Hand.lease? hj) key)
    · exact h.sole hj hj'

end Safe

end

/-! ### One request -/

/-- The lease of the entry under a key. -/
def Server.attached (server : Server σ) (s : σ) (key : String) : Option String :=
  (server.entry s key).bind Entry.lease

/-- Leases in use were granted, and no two keys are under the same one. -/
structure Server.Apart (server : Server σ) (s : σ) : Prop where
  used : ∀ {key lease}, server.attached s key = some lease → server.Granted s lease
  single : ∀ {key other lease}, server.attached s key = some lease →
    server.attached s other = some lease → key = other

/-- Where leases are apart, they are safe as long as nobody has one in hand. -/
theorem Server.Apart.safe {server : Server σ} {s : σ} (h : server.Apart s) :
    Safe (server.Granted s) (server.attached s) fun _ : ι => .empty where
  used := h.used
  single := h.single
  held hi := by cases hi
  vacant hi := by cases hi
  sole hi := by cases hi

theorem Safe.apart {server : Server σ} {s : σ} {hand : ι → Hand}
    (h : Safe (server.Granted s) (server.attached s) hand) : server.Apart s := ⟨h.used, h.single⟩

/-- Only a put that names a lease attaches a key to one. -/
theorem Request.attached_leaves {r : Request} (hr : ∀ k v l, r ≠ .put k v (some l))
    {entries : String → Option Entry} {key lease : String}
    (h : (r.leaves entries key).bind Entry.lease = some lease) :
    (entries key).bind Entry.lease = some lease := by
  have hfilter {p : Entry → Bool} (h : ((entries key).filter p).bind Entry.lease = some lease) :
      (entries key).bind Entry.lease = some lease := by
    obtain ⟨e, he, hl⟩ := Option.bind_eq_some_iff.1 h
    exact Option.bind_eq_some_iff.2 ⟨e, (Option.filter_eq_some_iff.1 he).1, hl⟩
  cases r with
  | status | range | grantLease => exact h
  | put k v l =>
    cases l with
    | some l => exact absurd rfl (hr k v l)
    | none =>
      simp only [leaves] at h
      split at h
      · cases h
      · exact h
  | deleteRange k =>
    simp only [leaves] at h
    split at h
    · cases h
    · exact h
  | revokeLease l => exact hfilter h
  | createIfAbsent k v =>
    simp only [leaves] at h
    split at h
    · cases he : entries key with
      | none => simp [he] at h
      | some e => simpa [he] using h
    · exact h
  | deleteIfEqual k v =>
    simp only [leaves] at h
    split at h
    · exact hfilter h
    · exact h

def Request.Stores (key : String) : Request → Prop
  | put k _ _ | createIfAbsent k _ => k = key
  | _ => False

def Request.Deletes (key : String) : Request → Prop
  | deleteRange k | deleteIfEqual k _ => k = key
  | _ => False

instance (key : String) : DecidablePred (Request.Stores key) := fun r =>
  match r with
  | .put k _ _ | .createIfAbsent k _ => inferInstanceAs (Decidable (k = key))
  | .status | .range _ | .deleteRange _ | .grantLease _ | .revokeLease _ | .deleteIfEqual _ _ =>
    inferInstanceAs (Decidable False)

instance (key : String) : DecidablePred (Request.Deletes key) := fun r =>
  match r with
  | .deleteRange k | .deleteIfEqual k _ => inferInstanceAs (Decidable (k = key))
  | .status | .range _ | .put _ _ _ | .grantLease _ | .revokeLease _ | .createIfAbsent _ _ =>
    inferInstanceAs (Decidable False)

/-- If nothing is stored under the key and its lease is not revoked, its entry stays or is
deleted. -/
theorem Request.leaves_cases {r : Request} {entries : String → Option Entry} {key : String}
    (hstores : ¬ r.Stores key)
    (hrevoke : ∀ lease, r = .revokeLease lease → (entries key).bind Entry.lease ≠ some lease) :
    r.leaves entries key = entries key ∨ r.leaves entries key = none ∧ r.Deletes key := by
  cases r with
  | status | range | grantLease => exact Or.inl rfl
  | put k value lease | createIfAbsent k value => exact Or.inl (if_neg fun h => hstores h.symm)
  | deleteRange k =>
    by_cases hkey : key = k
    · exact Or.inr ⟨if_pos hkey, hkey.symm⟩
    · exact Or.inl (if_neg hkey)
  | revokeLease lease =>
    left
    cases he : entries key with
    | none => simp [leaves, he]
    | some e =>
      have hne : e.lease ≠ some lease := by simpa [he] using hrevoke lease rfl
      simp [leaves, he, hne]
  | deleteIfEqual k value =>
    by_cases hkey : key = k
    · cases he : (entries key).filter fun e => e.value ≠ value with
      | none => exact Or.inr ⟨(if_pos hkey).trans he, hkey.symm⟩
      | some e =>
        left
        rw [leaves, if_pos hkey, he, (Option.filter_eq_some_iff.1 he).1]
    · exact Or.inl (if_neg hkey)

variable {server : Server σ} {s : σ}

theorem Server.Lawful.attached_put (hserver : server.Lawful) (key value : String)
    (lease : Option String) (s : σ) :
    server.attached (server.respond (.put key value lease) s).2 =
      Function.update (server.attached s) key lease := by
  funext k
  unfold Server.attached
  rw [hserver.entry_respond, Request.leaves]
  by_cases hk : k = key
  · simp [hk]
  · simp [hk]

section

variable {hand : ι → Hand} {i : ι}

/-- A revocation of a lease in hand leaves every key as it was. -/
theorem Server.Lawful.entry_revoke (hserver : server.Lawful)
    (h : Safe (server.Granted s) (server.attached s) hand) {lease : String}
    (hi : (hand i).lease? = some lease) (key : String) :
    server.entry (server.respond (.revokeLease lease) s).2 key = server.entry s key := by
  rw [hserver.entry_respond]
  have hrevoke (l : String) (hl : Request.revokeLease lease = .revokeLease l) :
      server.attached s key ≠ some l := by
    cases hl
    exact h.vacant hi key
  rcases Request.leaves_cases (r := .revokeLease lease) id hrevoke with hsame | ⟨-, hnone⟩
  · exact hsame
  · cases hnone

variable [DecidableEq ι]

theorem Server.Lawful.safe_respond (hserver : server.Lawful) {r : Request}
    (h : Safe (server.Granted s) (server.attached s) hand) (hr : (hand i).Allows r) :
    Safe (server.Granted (server.respond r s).2) (server.attached (server.respond r s).2)
      (Function.update hand i (r.hand (server.respond r s).1)) := by
  have hmono {l : String} (hl : server.Granted s l) : server.Granted (server.respond r s).2 l :=
    hserver.granted_mono r hl
  have hdrop (hput : ∀ k v l, r ≠ .put k v (some l)) : Safe (server.Granted (server.respond r s).2)
      (server.attached (server.respond r s).2) (Function.update hand i .empty) := by
    refine h.drop hmono (fun {k l} hk => Request.attached_leaves hput ?_) i
    rw [← hserver.entry_respond]
    exact hk
  cases r with
  | put key value lease =>
    cases lease with
    | none => exact hdrop nofun
    | some lease =>
      have hput := h.put hmono hr key
      rwa [← hserver.attached_put key value (some lease) s, Server.attached,
        ← hserver.put_reports key value (some lease) s] at hput
  | grantLease seconds =>
    have hsame :
        server.attached (server.respond (.grantLease seconds) s).2 = server.attached s := by
      funext key
      unfold Server.attached
      rw [hserver.entry_respond]
      rfl
    rw [hsame]
    exact h.grant hmono (hserver.fresh seconds s) (hserver.granted seconds s) i
  | status | range | deleteRange | revokeLease | createIfAbsent | deleteIfEqual => exact hdrop nofun

/-- A lease is granted and a key put under it; then the one that the key was under is in hand. -/
theorem Server.Lawful.safe_renew (hserver : server.Lawful) (h : server.Apart s) (seconds : Nat)
    (key value : String) :
    let grant := server.respond (.grantLease seconds) s
    let put := server.respond (.put key value (some grant.1)) grant.2
    Safe (server.Granted put.2) (server.attached put.2)
      fun _ : Unit => .replaced (server.attached s key) := by
  intro grant put
  have hgrant := hserver.safe_respond (r := .grantLease seconds) (i := ()) h.safe trivial
  have hput := hserver.safe_respond (r := .put key value (some grant.1)) (i := ()) hgrant
    (Function.update_self ..)
  have hreplaced : put.1.bind Entry.lease = server.attached s key := by
    unfold Server.attached
    rw [hserver.put_reports, hserver.entry_respond]
    rfl
  have hhand : Request.hand (.put key value (some grant.1)) put.1 =
      .replaced (server.attached s key) := congrArg Hand.replaced hreplaced
  rw [hhand] at hput
  exact hput

end

/-! ### Whole sessions -/

variable [DecidableEq ι]

/-- What an operation has in hand. -/
def Session.hand (s : Session ι σ) (i : ι) : Hand := handOf (s.trail i)

theorem Session.hand_add (s : Session ι σ) (x : Served ι σ) :
    (s.add x).hand = Function.update s.hand x.caller x.hand := by
  funext i
  unfold Session.hand
  rw [Session.trail_add]
  by_cases hi : i = x.caller
  · subst hi
    rw [Function.update_self, Function.update_self, handOf_concat]
  · rw [Function.update_of_ne hi, Function.update_of_ne hi]

/-- The exchange can come next: the hand of the operation that makes the request allows it, and the
request meets one of the fates. -/
structure Server.Next (server : Server σ) (s : Session ι σ) (x : Served ι σ) : Prop where
  before : x.before = s.gateway
  allowed : (s.hand x.caller).Allows x.request
  settled : ∃ fate : Fate,
    (x.reply, x.after) = fate.settle s.gateway (server.respond x.request s.gateway)

/-- Sessions from this gateway on in which every hand allowed its requests. -/
inductive Server.Orderly (server : Server σ) (start : σ) : Session ι σ → Prop where
  | start : server.Orderly start ⟨start, []⟩
  | next {s : Session ι σ} {x : Served ι σ} (hs : server.Orderly start s) (hx : server.Next s x) :
      server.Orderly start (s.add x)

/-- Leases are safe at this point of the session. -/
def Server.SafeIn (server : Server σ) (s : Session ι σ) : Prop :=
  Safe (server.Granted s.gateway) (server.attached s.gateway) s.hand

namespace Server.Next

variable {s : Session ι σ} {x : Served ι σ} {key : String}

/-- Without an answer the request may have had its effect or not. -/
theorem outcome (hx : server.Next s x) :
    (x.reply = .ok (server.respond x.request s.gateway).1 ∧
        x.after = (server.respond x.request s.gateway).2) ∨
      (x.hand = .empty ∧ ¬ x.Answered ∧
        (x.after = s.gateway ∨ x.after = (server.respond x.request s.gateway).2)) := by
  obtain ⟨fate, hfate⟩ := hx.settled
  have hlost {e : BackendError} (he : x.reply = .error e) : x.hand = .empty ∧ ¬ x.Answered := by
    refine ⟨?_, ?_⟩
    · unfold Exchange.hand
      rw [he]
    · unfold Exchange.Answered
      rw [he]
      exact Bool.false_ne_true
  cases fate with
  | answered => exact Or.inl (Prod.mk.inj hfate)
  | refused e =>
    obtain ⟨hreply, hafter⟩ := Prod.mk.inj hfate
    exact Or.inr ⟨(hlost hreply).1, (hlost hreply).2, Or.inl hafter⟩
  | lost e =>
    obtain ⟨hreply, hafter⟩ := Prod.mk.inj hfate
    exact Or.inr ⟨(hlost hreply).1, (hlost hreply).2, Or.inr hafter⟩

theorem after_cases (hx : server.Next s x) :
    x.after = s.gateway ∨ x.after = (server.respond x.request s.gateway).2 := by
  rcases hx.outcome with ⟨-, hafter⟩ | ⟨-, -, hafter⟩
  · exact Or.inr hafter
  · exact hafter

theorem after_of_answered (hx : server.Next s x) (hanswered : x.Answered) :
    x.after = (server.respond x.request s.gateway).2 := by
  rcases hx.outcome with ⟨-, hafter⟩ | ⟨-, hnot, -⟩
  · exact hafter
  · exact absurd hanswered hnot

theorem safe (hserver : server.Lawful) (hs : server.SafeIn s) (hx : server.Next s x) :
    server.SafeIn (s.add x) := by
  have heffect := hserver.safe_respond hs hx.allowed
  change Safe (server.Granted x.after) (server.attached x.after) (s.add x).hand
  rw [Session.hand_add]
  rcases hx.outcome with ⟨hreply, hafter⟩ | ⟨hhand, -, hafter⟩
  · have hhand : x.hand = x.request.hand (server.respond x.request s.gateway).1 := by
      unfold Exchange.hand
      rw [hreply]
    rw [hhand, hafter]
    exact heffect
  · rw [hhand]
    rcases hafter with hafter | hafter
    · rw [hafter]
      exact hs.drop id id x.caller
    · have hdropped := heffect.drop id id x.caller
      rw [Function.update_idem] at hdropped
      rw [hafter]
      exact hdropped

theorem spent (hx : server.Next s x) {lease : String} (hr : x.request = .revokeLease lease) :
    s.hand x.caller = .spent lease := by
  simpa [hr, Hand.Allows] using hx.allowed

theorem fresh (hx : server.Next s x) {value lease : String}
    (hr : x.request = .put key value (some lease)) : s.hand x.caller = .fresh lease := by
  simpa [hr, Hand.Allows] using hx.allowed

/-- A revoked lease holds no key. -/
theorem revoked (hs : server.SafeIn s) (hx : server.Next s x) {lease : String}
    (hr : x.request = .revokeLease lease) (key : String) :
    server.attached s.gateway key ≠ some lease :=
  hs.vacant (congrArg Hand.lease? (hx.spent hr)) key

theorem entry_after (hserver : server.Lawful) (hs : server.SafeIn s) (hx : server.Next s x)
    (hstores : ¬ x.request.Stores key) :
    server.entry x.after key = server.entry s.gateway key ∨
      server.entry x.after key = none ∧ x.request.Deletes key := by
  rcases hx.after_cases with hafter | hafter
  · exact Or.inl (congrArg (server.entry · key) hafter)
  · rw [hafter, hserver.entry_respond]
    exact Request.leaves_cases hstores fun lease hr => hx.revoked hs hr key

/-- A revocation leaves every key as it was. -/
theorem entry_after_revoke (hserver : server.Lawful) (hs : server.SafeIn s) (hx : server.Next s x)
    {lease : String} (hr : x.request = .revokeLease lease) (key : String) :
    server.entry x.after key = server.entry x.before key := by
  rw [hx.before]
  rcases hx.after_cases with hafter | hafter
  · exact congrArg (server.entry · key) hafter
  · rw [hafter, hr]
    exact hserver.entry_revoke hs (congrArg Hand.lease? (hx.spent hr)) key

/-- A put that is answered reports the entry that it replaces. -/
theorem reported (hserver : server.Lawful) (hx : server.Next s x) {value : String}
    {lease : Option String} {replaced : Option Entry}
    (hput : x.toExchange = ⟨.put key value lease, .ok replaced⟩) :
    replaced = server.entry s.gateway key := by
  obtain ⟨⟨r, reply⟩, caller, before, after⟩ := x
  cases hput
  rcases hx.outcome with ⟨hreply, -⟩ | ⟨-, hnot, -⟩
  · rw [← hserver.put_reports key value lease s.gateway]
    exact Except.ok.inj hreply
  · exact absurd rfl hnot

/-- The lease under which a key is put holds nothing yet. -/
theorem put_vacant (hs : server.SafeIn s) (hx : server.Next s x) {value lease : String}
    (hr : x.request = .put key value (some lease)) (other : String) :
    server.attached s.gateway other ≠ some lease :=
  hs.vacant (congrArg Hand.lease? (hx.fresh hr)) other

/-- A put under a lease comes after the grant of that lease to the same operation. -/
theorem granted (hx : server.Next s x) {value lease : String}
    (hr : x.request = .put key value (some lease)) :
    ∃ g ∈ s.served, g.caller = x.caller ∧ g.Grants lease := by
  obtain ⟨y, hy, hgrants⟩ := grants_of_handOf (hx.fresh hr)
  obtain ⟨g, hg, rfl⟩ := List.mem_map.1 hy
  obtain ⟨hmem, hcaller⟩ := List.mem_filter.1 hg
  exact ⟨g, hmem, of_decide_eq_true hcaller, hgrants⟩

end Server.Next

/-! ### Properties of sessions -/

namespace Server.Orderly

variable {start : σ} {s : Session ι σ}

theorem safe (hserver : server.Lawful) (hstart : server.Apart start)
    (hs : server.Orderly start s) : server.SafeIn s := by
  induction hs with
  | start => exact hstart.safe
  | next _ hx ih => exact hx.safe hserver ih

/-- Every exchange came next at some point of the session. -/
theorem next_of_split (hs : server.Orderly start s) {a b : List (Served ι σ)} {x : Served ι σ}
    (hsplit : s.served = a ++ x :: b) :
    ∃ s', server.Orderly start s' ∧ s'.served = a ∧ server.Next s' x := by
  induction hs generalizing b with
  | start => cases List.append_ne_nil_of_right_ne_nil a (List.cons_ne_nil x b) hsplit.symm
  | @next s y hs hy ih =>
    rcases split_concat hsplit with ⟨rfl, rfl, -⟩ | ⟨c, -, hrest⟩
    · exact ⟨s, hs, rfl, hy⟩
    · exact ih hrest

theorem next_of_mem (hs : server.Orderly start s) {x : Served ι σ} (hx : x ∈ s.served) :
    ∃ s', server.Orderly start s' ∧ server.Next s' x := by
  obtain ⟨a, b, hsplit⟩ := List.append_of_mem hx
  obtain ⟨s', hs', -, hnext⟩ := hs.next_of_split hsplit
  exact ⟨s', hs', hnext⟩

/-- After a put that was answered its entry stands, until a request deletes the key or stores
something else there. -/
theorem entry_after_put (hserver : server.Lawful) (hstart : server.Apart start)
    (hs : server.Orderly start s) {a b : List (Served ι σ)} {x : Served ι σ}
    (hsplit : s.served = a ++ x :: b) {key value : String} {lease : Option String}
    (hr : x.request = .put key value lease) (hx : x.Answered)
    (hb : ∀ y ∈ b, ¬ y.request.Stores key) :
    server.entry s.gateway key = some ⟨value, lease⟩ ∨
      server.entry s.gateway key = none ∧ ∃ y ∈ b, y.request.Deletes key := by
  induction hs generalizing b with
  | start => cases List.append_ne_nil_of_right_ne_nil a (List.cons_ne_nil x b) hsplit.symm
  | @next s y hs hy ih =>
    change server.entry y.after key = _ ∨ server.entry y.after key = none ∧ _
    rcases split_concat hsplit with ⟨-, rfl, rfl⟩ | ⟨c, rfl, hrest⟩
    · left
      rw [hy.after_of_answered hx, hserver.entry_respond, hr, Request.leaves, if_pos rfl]
    · have hc : ∀ z ∈ c, ¬ z.request.Stores key := fun z hz => hb z (List.mem_append_left _ hz)
      have hlast : y ∈ c ++ [y] := List.mem_append_right _ (List.mem_singleton_self y)
      rcases hy.entry_after hserver (hs.safe hserver hstart) (hb y hlast) with hsame | ⟨hnone, hd⟩
      · rw [hsame]
        rcases ih hrest hc with hentry | ⟨hnone, z, hz, hd⟩
        · exact Or.inl hentry
        · exact Or.inr ⟨hnone, z, List.mem_append_left _ hz, hd⟩
      · exact Or.inr ⟨hnone, y, hlast, hd⟩

end Server.Orderly

/-- What an operation did lies in the session in the same order. -/
theorem Session.split_of_trail {s : Session ι σ} {i : ι} (before : List Exchange)
    {after : List Exchange} {x : Exchange} (h : s.trail i = before ++ x :: after) :
    ∃ a y b, s.served = a ++ y :: b ∧ y.caller = i ∧ y.toExchange = x ∧
      ∀ e ∈ after, ∃ z ∈ b, z.caller = i ∧ z.toExchange = e := by
  obtain ⟨l, l', hfilter, -, hl'⟩ := List.map_eq_append_iff.1 h
  obtain ⟨y, own, rfl, hy, hown⟩ := List.map_eq_cons_iff.1 hl'
  obtain ⟨a, b, hserved, -, hb⟩ := List.filter_eq_append_iff.1 hfilter
  obtain ⟨c, d, rfl, -, hcaller, hd⟩ := List.filter_eq_cons_iff.1 hb
  refine ⟨a ++ c, y, d, by simp [hserved], of_decide_eq_true hcaller, hy, fun e he => ?_⟩
  rw [← hown, ← hd] at he
  obtain ⟨z, hz, hze⟩ := List.mem_map.1 he
  obtain ⟨hmem, hzi⟩ := List.mem_filter.1 hz
  exact ⟨z, hmem, of_decide_eq_true hzi, hze⟩

end Accounts.Backend.Gateway
