import Accounts.Backend.Gateway
import Mathlib.Data.List.Nodup

/-!
# Gateways in general

What the programs rely on is not how a gateway is built but what it promises (`Server.Lawful`): what
each request leaves under each key, that a put answers with the entry that it replaces, and that no
lease is granted twice. The store with leases keeps these promises (`lawful_server`).
-/
namespace Accounts.Backend.Gateway

open Accounts.Text

/-- How requests are answered, what is stored, and which leases are never granted again. -/
structure Server (σ : Type) where
  respond : (r : Request) → σ → r.Value × σ
  entry : σ → String → Option Entry
  Granted : σ → String → Prop

/-- What a request leaves under a key, given what is under each key. -/
def Request.leaves (entries : String → Option Entry) (key : String) : Request → Option Entry
  | status | range _ | grantLease _ => entries key
  | put k value lease => if key = k then some ⟨value, lease⟩ else entries key
  | deleteRange k => if key = k then none else entries key
  | revokeLease lease => (entries key).filter fun e => e.lease ≠ some lease
  | createIfAbsent k value =>
    if key = k then some ((entries key).getD ⟨value, none⟩) else entries key
  | deleteIfEqual k value =>
    if key = k then (entries key).filter fun e => e.value ≠ value else entries key

/-- What a gateway promises. The texts that are no leases are never granted. -/
structure Server.Lawful {σ : Type} (server : Server σ) : Prop where
  entry_respond : ∀ r s key,
    server.entry (server.respond r s).2 key = r.leaves (server.entry s) key
  put_reports : ∀ key value lease s,
    (server.respond (.put key value lease) s).1 = server.entry s key
  fresh : ∀ seconds s, ¬ server.Granted s (server.respond (.grantLease seconds) s).1
  granted : ∀ seconds s, server.Granted (server.respond (.grantLease seconds) s).2
    (server.respond (.grantLease seconds) s).1
  granted_mono : ∀ {l s} r, server.Granted s l → server.Granted (server.respond r s).2 l
  named : ∀ {l s}, server.Granted s l → l ≠ "" ∧ l ≠ "0"

/-! ### The store with leases -/

namespace State

/-- The lease has been granted. -/
def Granted (s : State) (l : String) : Prop := ∃ n ≤ s.granted, l = lease n

/-- No key is there twice. -/
def Distinct (s : State) : Prop := s.entries.keys.Nodup

variable {s : State}

theorem lease_injective {m n : Nat} (h : lease m = lease n) : m = n := by
  have hnumbers := congrArg ofDigits (String.ofList_injective h)
  rw [ofDigits_digits, ofDigits_digits] at hnumbers
  omega

theorem not_granted_next (s : State) : ¬ s.Granted (lease (s.granted + 1)) := by
  rintro ⟨n, hn, hl⟩
  have := lease_injective hl
  omega

theorem Distinct.filter (h : s.Distinct) (p : String × Entry → Bool) (n : Nat) :
    Distinct ⟨⟨s.entries.entries.filter p⟩, n⟩ :=
  List.Nodup.sublist (List.filter_sublist.map Prod.fst) h

theorem Distinct.insert (h : s.Distinct) (key : String) (e : Entry) :
    Distinct { s with entries := s.entries.insert key e } := by
  have herased : Distinct ⟨s.entries.erase key, s.granted⟩ := h.filter _ _
  refine List.nodup_cons.2 ⟨fun hkey => ?_, herased⟩
  obtain ⟨f, hf, hfkey⟩ := List.mem_map.1 hkey
  have hne := (List.mem_filter.1 hf).2
  simp [hfkey] at hne

theorem Distinct.respond (h : s.Distinct) (r : Request) : (respond r s).2.Distinct := by
  cases r with
  | status | range | grantLease => exact h
  | put key value lease => exact h.insert key _
  | deleteRange | revokeLease => exact h.filter _ _
  | createIfAbsent key value =>
    simp only [State.respond]
    split
    · exact h
    · exact h.insert key _
  | deleteIfEqual key value =>
    simp only [State.respond]
    split
    · exact h.filter _ _
    · exact h

theorem Distinct.get?_eq_some (h : s.Distinct) {key : String} {e : Entry} :
    s.entries.get? key = some e ↔ (key, e) ∈ s.entries.entries := by
  refine ⟨Table.mem_of_get?, fun hmem => ?_⟩
  cases hget : s.entries.get? key with
  | none =>
    have hnone := List.find?_eq_none.1 (Option.map_eq_none_iff.1 hget) _ hmem
    simp at hnone
  | some f =>
    have hpairs := List.inj_on_of_nodup_map h (Table.mem_of_get? hget) hmem rfl
    exact congrArg (fun p => some p.2) hpairs

theorem Distinct.get?_revoke (h : s.Distinct) (lease key : String) :
    (s.revoke lease).entries.get? key =
      (s.entries.get? key).filter fun e => e.lease ≠ some lease := by
  have hrevoked : (s.revoke lease).Distinct := h.filter _ _
  ext e
  rw [hrevoked.get?_eq_some, Option.filter_eq_some_iff, h.get?_eq_some]
  simp [revoke]

/-- The store, of which no key is there twice. -/
def server : Server { s : State // s.Distinct } where
  respond r s := ((respond r s.1).1, ⟨(respond r s.1).2, s.2.respond r⟩)
  entry s := s.1.entries.get?
  Granted s := s.1.Granted

theorem entry_respond (h : s.Distinct) (r : Request) (key : String) :
    (respond r s).2.entries.get? key = r.leaves s.entries.get? key := by
  cases r with
  | status | range | grantLease => rfl
  | put k value lease => exact Table.get?_insert _ _ _ _
  | deleteRange k => exact Table.get?_erase _ _ _
  | revokeLease lease => exact h.get?_revoke lease key
  | createIfAbsent k value =>
    by_cases hkey : key = k
    · subst hkey
      cases he : s.entries.get? key <;> simp [respond, Request.leaves, he, Table.get?_insert]
    · cases he : s.entries.get? k <;> simp [respond, Request.leaves, he, hkey, Table.get?_insert]
  | deleteIfEqual k value =>
    by_cases hkey : key = k
    · subst hkey
      cases he : s.entries.get? key with
      | none => simp [respond, Request.leaves, he]
      | some e =>
        by_cases hvalue : e.value = value
        · simp [respond, Request.leaves, he, hvalue, Table.get?_erase, Option.filter]
        · simp [respond, Request.leaves, he, hvalue, Option.filter]
    · simp only [respond, Request.leaves]
      split <;> simp [hkey, Table.get?_erase]

theorem granted_respond {l : String} (r : Request) (h : s.Granted l) :
    (respond r s).2.Granted l := by
  obtain ⟨n, hn, hl⟩ := h
  have hle : s.granted ≤ (respond r s).2.granted := by
    cases r with
    | grantLease => exact Nat.le_succ _
    | createIfAbsent | deleteIfEqual =>
      simp only [respond]
      split <;> exact Nat.le_refl _
    | _ => exact Nat.le_refl _
  exact ⟨n, Nat.le_trans hn hle, hl⟩

/-- A lease reads as its number, which is not zero. -/
theorem ofDigits_of_granted {l : String} (h : s.Granted l) : ofDigits l.toList ≠ 0 := by
  obtain ⟨n, -, rfl⟩ := h
  unfold lease
  rw [String.toList_ofList, ofDigits_digits]
  omega

theorem lawful_server : server.Lawful where
  entry_respond r s key := entry_respond s.2 r key
  put_reports _ _ _ _ := rfl
  fresh _ s := s.1.not_granted_next
  granted _ s := ⟨s.1.granted + 1, Nat.le_refl _, rfl⟩
  granted_mono r h := granted_respond r h
  named h := by
    have hnumber := ofDigits_of_granted h
    constructor <;> rintro rfl <;> exact hnumber (by decide)

end State

end Accounts.Backend.Gateway
