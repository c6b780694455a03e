import Accounts.Backend.Etcd
import Accounts.Proofs.Backend.Custody

/-!
# Actions on the store with leases

The store is one of the gateways on which leases are safe, also for an operation that is alone with
it. So its leases stay apart, and revoking the one that a put has just replaced changes nothing.
From this follows what each action answers and leaves, in terms of the text that is stored under its
key.
-/
namespace Accounts.Backend

open Accounts.Text

namespace Gateway.State

/-- No key is there twice, and leases are apart. -/
structure Apart (s : State) : Prop where
  distinct : s.Distinct
  leases : server.Apart ⟨s, distinct⟩

variable {s : State}

theorem apart_of_keys_eq_nil (h : s.entries.keys = []) : s.Apart := by
  have hdistinct : s.Distinct := by
    rw [Distinct, h]
    exact List.nodup_nil
  have hnone (key : String) : server.attached ⟨s, hdistinct⟩ key = none := by
    have hget : s.entries.get? key = none := by
      rw [Table.get?, List.map_eq_nil_iff.1 h]
      rfl
    exact congrArg (Option.bind · Entry.lease) hget
  refine ⟨hdistinct, fun {key lease} hk => ?_, fun {key other lease} hk => ?_⟩
  · rw [hnone] at hk
    cases hk
  · rw [hnone] at hk
    cases hk

/-- Requests for which nothing has to be in hand. -/
theorem Apart.respond (h : s.Apart) {r : Request} (hr : Hand.empty.Allows r) :
    (respond r s).2.Apart where
  distinct := h.distinct.respond r
  leases := (lawful_server.safe_respond (i := ()) h.leases.safe hr).apart

end Gateway.State

/-! ### Actions on the gateway -/

namespace Etcd

open Gateway.State

variable {s : Gateway.State} {key value owner : String} {v : Option String}

/-- The text stored under a key, or no entry. -/
def Stores (s : Gateway.State) (key : String) (v : Option String) : Prop :=
  (s.entries.get? key).map Gateway.Entry.value = v.map encodeText

theorem Stores.valueOf (h : Stores s key v) : valueOf (s.entries.get? key) = .ok v := by
  unfold Stores at h
  cases he : s.entries.get? key with
  | none =>
    rw [he] at h
    rw [Option.map_eq_none_iff.1 h.symm]
    rfl
  | some e =>
    rw [he] at h
    obtain ⟨x, hx, hvalue⟩ := Option.map_eq_some_iff.1 h.symm
    rw [hx, Etcd.valueOf, ← hvalue, decodeText_encodeText]
    rfl

theorem Stores.eq_iff (h : Stores s key v) (x : String) :
    (s.entries.get? key).map Gateway.Entry.value = some (encodeText x) ↔ v = some x := by
  rw [show (s.entries.get? key).map Gateway.Entry.value = v.map encodeText from h]
  cases v with
  | none => simp
  | some y => simpa using ⟨fun h => encodeText_injective h, congrArg encodeText⟩

/-- Leases are apart, `v` is stored under the key, and the other keys are as in `s`. -/
structure Leaves (s : Gateway.State) (key : String) (v : Option String) (s' : Gateway.State) :
    Prop where
  apart : s'.Apart
  value : ∀ other, (s'.entries.get? other).map Gateway.Entry.value =
    if other = key then v.map encodeText else (s.entries.get? other).map Gateway.Entry.value

theorem leaves_self (hs : s.Apart) (h : Stores s key v) : Leaves s key v s := by
  refine ⟨hs, fun other => ?_⟩
  split
  · next hother => rw [hother, show _ = v.map encodeText from h]
  · rfl

theorem value_insert (t : Table Gateway.Entry) (key value : String) (lease : Option String)
    (other : String) : ((t.insert key ⟨value, lease⟩).get? other).map Gateway.Entry.value =
      if other = key then some value else (t.get? other).map Gateway.Entry.value := by
  rw [Table.get?_insert]
  split <;> rfl

theorem leaves_insert (hs : s.Apart) (key value : String) : Leaves s key (some value)
    { s with entries := s.entries.insert key ⟨encodeText value, none⟩ } :=
  ⟨hs.respond (r := .put key (encodeText value) none) trivial, value_insert s.entries key _ none⟩

theorem leaves_erase (hs : s.Apart) (key : String) :
    Leaves s key none { s with entries := s.entries.erase key } := by
  refine ⟨hs.respond (r := .deleteRange key) trivial, fun other => ?_⟩
  rw [Table.get?_erase]
  split <;> rfl

theorem run_ask (r : Gateway.Request) (s : Gateway.State) :
    (ask r).run.run serve s = (.ok (respond r s).1, (respond r s).2) := rfl

theorem run_get (h : Stores s key v) : (get key).run.run serve s = (.ok v, s) := by
  change (valueOf (s.entries.get? key), s) = _
  rw [h.valueOf]

theorem run_put (s : Gateway.State) (key value : String) :
    (put key value).run.run serve s =
      (.ok (), { s with entries := s.entries.insert key ⟨encodeText value, none⟩ }) := rfl

theorem run_putLeased (h : s.Apart) (key value : String) (timeToLive : Duration) :
    ∃ s', (putLeased key value timeToLive).run.run serve s = (.ok (), s') ∧
      Leaves s key (some value) s' := by
  unfold putLeased
  rw [Program.run_bind_except, run_ask]
  simp only [respond]
  rw [Program.run_bind_except, run_ask]
  simp only [respond]
  have hsafe := lawful_server.safe_renew h.leases 0 key (encodeText value)
  have hvalue := value_insert s.entries key (encodeText value) (some (lease (s.granted + 1)))
  cases hold : superseded (lease (s.granted + 1)) (s.entries.get? key) with
  | none => exact ⟨_, rfl, ⟨h.distinct.insert key _, hsafe.apart⟩, hvalue⟩
  | some old =>
    have hattached : server.attached ⟨s, h.distinct⟩ key = some old :=
      (Option.filter_eq_some_iff.1 hold).1
    rw [hattached] at hsafe
    have hrevoke := lawful_server.safe_respond (r := .revokeLease old) (i := ()) hsafe rfl
    refine ⟨_, rfl, ⟨(h.distinct.insert key _).filter _ _, hrevoke.apart⟩, fun other => ?_⟩
    have hentry := lawful_server.entry_revoke (i := ()) hsafe rfl other
    exact (congrArg (Option.map Gateway.Entry.value) hentry).trans (hvalue other)

theorem run_claim (h : Stores s key v) :
    (claim key owner).run.run serve s =
      (.ok (v.all (· == owner)), if v = none then
        { s with entries := s.entries.insert key ⟨encodeText owner, none⟩ } else s) := by
  have hvalue := h.valueOf
  unfold claim
  rw [Program.run_bind_except, run_ask]
  cases v with
  | none =>
    have he : s.entries.get? key = none := Option.map_eq_none_iff.1 h
    simp only [respond, he]
    rfl
  | some x =>
    obtain ⟨e, he, -⟩ := Option.map_eq_some_iff.1 h
    rw [he] at hvalue
    simp only [respond, he]
    change ((do
      let current ← ExceptT.mk (.done (Etcd.valueOf (some e)))
      pure (current == some owner)) : Action Bool).run.run serve s = _
    rw [hvalue]
    rfl

theorem run_release (h : Stores s key v) :
    (release key owner).run.run serve s =
      (.ok (), if v = some owner then { s with entries := s.entries.erase key } else s) := by
  have hstored := h.eq_iff owner
  change (Except.ok (), (respond (.deleteIfEqual key (encodeText owner)) s).2) = _
  simp only [respond, hstored]
  split <;> rfl

end Etcd

end Accounts.Backend
