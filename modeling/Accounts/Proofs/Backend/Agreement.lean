import Accounts.Backend.Tables
import Accounts.Proofs.Backend.Layout
import Accounts.Proofs.Backend.Leases
import Accounts.Proofs.Program.Simulation

/-!
# Every backend behaves like the tables

A request is about one slot: what it answers and what it leaves there depend on the text in this
slot alone (`Request.answer`, `Request.left`). Each backend reads and writes the key of this slot
and no other (`Storage.serves`). As the keys of two slots differ, a storage that holds what the
tables have goes on doing so, with the same replies (`related_tables`).
-/
namespace Accounts.Backend

open Program

/-! ### One slot -/

namespace Request

/-- The reply when this is in the slot. -/
def answer : (r : Request) → Option String → r.Value
  | record _, v => v
  | setRecord _ _, _ => ()
  | deleteRecord _, _ => ()
  | owner _ _, v => v
  | putEntry _ _ _, _ => ()
  | claimEntry _ _ user, v => v.all (· == user)
  | removeEntry _ _, _ => ()
  | releaseEntry _ _ _, _ => ()

/-- What is in the slot afterwards. -/
def left : Request → Option String → Option String
  | record _, v => v
  | setRecord _ value, _ => some value
  | deleteRecord _, _ => none
  | owner _ _, v => v
  | putEntry _ _ user, _ => some user
  | claimEntry _ _ user, v => some (v.getD user)
  | removeEntry _ _, _ => none
  | releaseEntry _ _ user, v => if v = some user then none else v

end Request

/-- Nothing changes where the old value is put back. -/
theorem eq_ite_self {α β : Type} [DecidableEq α] (f : α → β) (a x : α) :
    f x = if x = a then f a else f x := by
  split
  · next h => rw [h]
  · rfl

namespace Tables

def get? (t : Tables) : Slot → Option String
  | .record id => t.record id
  | .entry index key => t.entry index key

theorem get?_withRecord (t : Tables) (id : String) (value : Option String) (slot : Slot) :
    (t.withRecord id value).get? slot = if slot = .record id then value else t.get? slot := by
  cases slot with
  | record i => simp [get?, withRecord]
  | entry index key => simp [get?, withRecord]

theorem get?_withEntry (t : Tables) (index key : String) (owner : Option String) (slot : Slot) :
    (t.withEntry index key owner).get? slot =
      if slot = .entry index key then owner else t.get? slot := by
  cases slot with
  | record i => simp [get?, withEntry]
  | entry i k => simp [get?, withEntry]

theorem respond_slot (r : Request) (t : Tables) : (respond r t).1 = r.answer (t.get? r.slot) ∧
    ∀ slot, (respond r t).2.get? slot =
      if slot = r.slot then r.left (t.get? r.slot) else t.get? slot := by
  cases r with
  | record id => exact ⟨rfl, eq_ite_self t.get? _⟩
  | setRecord id value => exact ⟨rfl, get?_withRecord t id (some value)⟩
  | deleteRecord id => exact ⟨rfl, get?_withRecord t id none⟩
  | owner index key => exact ⟨rfl, eq_ite_self t.get? _⟩
  | putEntry index key owner => exact ⟨rfl, get?_withEntry t index key (some owner)⟩
  | claimEntry index key owner =>
    have hsame := eq_ite_self t.get? (.entry index key)
    simp only [respond, Request.answer, Request.left, Request.slot]
    cases h : t.get? (.entry index key) with
    | none =>
      rw [show t.entry index key = none from h]
      exact ⟨rfl, get?_withEntry t index key (some owner)⟩
    | some current =>
      rw [h] at hsame
      rw [show t.entry index key = some current from h]
      exact ⟨rfl, hsame⟩
  | removeEntry index key => exact ⟨rfl, get?_withEntry t index key none⟩
  | releaseEntry index key owner =>
    refine ⟨rfl, ?_⟩
    simp only [respond, Request.left, Request.slot, show t.get? (.entry index key) =
      t.entry index key from rfl]
    split
    · exact get?_withEntry t index key none
    · exact eq_ite_self t.get? _

end Tables

namespace Memory

theorem respond_slot (r : Request) (t : Table String) :
    (respond r t).1 = r.answer (t.get? (Layout.flat.address r.slot)) ∧
      ∀ key, (respond r t).2.get? key =
        if key = Layout.flat.address r.slot then r.left (t.get? (Layout.flat.address r.slot))
        else t.get? key := by
  cases r with
  | record id => exact ⟨rfl, eq_ite_self t.get? _⟩
  | setRecord id value => exact ⟨rfl, fun key => t.get?_insert _ key value⟩
  | deleteRecord id => exact ⟨rfl, t.get?_erase _⟩
  | owner index key => exact ⟨rfl, eq_ite_self t.get? _⟩
  | putEntry index key owner => exact ⟨rfl, fun k => t.get?_insert _ k owner⟩
  | claimEntry index key owner =>
    have hsame := eq_ite_self t.get? (flatKey index key)
    have haddress : Layout.flat.address (.entry index key) = flatKey index key := rfl
    simp only [respond, Request.answer, Request.left, Request.slot, haddress]
    cases h : t.get? (flatKey index key) with
    | none => exact ⟨rfl, fun k => t.get?_insert _ k owner⟩
    | some current =>
      rw [h] at hsame
      exact ⟨rfl, hsame⟩
  | removeEntry index key => exact ⟨rfl, t.get?_erase _⟩
  | releaseEntry index key owner =>
    refine ⟨rfl, ?_⟩
    simp only [respond, Request.left, Request.slot, show Layout.flat.address (.entry index key) =
      flatKey index key from rfl]
    split
    · exact t.get?_erase _
    · exact eq_ite_self t.get? _

theorem serve_slot {r : Request} {t : Table String} {v : Option String}
    (hv : t.get? (Layout.flat.address r.slot) = v.map Layout.flat.written) :
    (serve r t).1 = .ok (r.answer v) ∧ ∀ key, (serve r t).2.get? key =
      if key = Layout.flat.address r.slot then (r.left v).map Layout.flat.written
      else t.get? key := by
  have hid (x : Option String) : x.map Layout.flat.written = x := congrFun Option.map_id x
  obtain ⟨hreply, hget⟩ := respond_slot r t
  rw [hid] at hv ⊢
  rw [hv] at hreply hget
  exact ⟨congrArg Except.ok hreply, hget⟩

end Memory

/-- Each command does on the server what the request does in memory. -/
theorem Redis.run_program (r : Request) (t : Table String) :
    (Redis.program r).run Redis.serve t = Memory.serve r t := by
  change (Redis.result r (Redis.serve (Redis.command r) t).1, (Redis.serve (Redis.command r) t).2) =
    (.ok (Memory.respond r t).1, (Memory.respond r t).2)
  cases r with
  | record id =>
    simp only [Redis.command, Redis.serve, Memory.respond]
    cases t.get? (flatKey recordSpace id) <;> rfl
  | owner index key =>
    simp only [Redis.command, Redis.serve, Memory.respond]
    cases t.get? (flatKey index key) <;> rfl
  | claimEntry index key owner =>
    simp only [Redis.command, Redis.serve, Memory.respond]
    cases t.get? (flatKey index key) with
    | none => rfl
    | some current =>
      by_cases h : current = owner
      · simp only [h, beq_self_eq_true]
        rfl
      · simp only [if_neg h, beq_false_of_ne h]
        rfl
  | releaseEntry index key owner =>
    simp only [Redis.command, Redis.serve, Memory.respond]
    split <;> rfl
  | _ => rfl

theorem Etcd.run_program {c : Etcd.Settings} {s : Gateway.State} {r : Request} {v : Option String}
    (hs : s.Apart) (hv : Etcd.Stores s ((Layout.etcd c).address r.slot) v) :
    ∃ s', (Etcd.program c r).run.run Gateway.State.serve s = (.ok (r.answer v), s') ∧
      Etcd.Leaves s ((Layout.etcd c).address r.slot) (r.left v) s' := by
  cases r with
  | record id => exact ⟨s, Etcd.run_get hv, Etcd.leaves_self hs hv⟩
  | setRecord id value =>
    cases hlife : c.timeToLive with
    | none =>
      refine ⟨_, ?_, Etcd.leaves_insert hs _ value⟩
      simp only [Etcd.program, hlife]
      exact Etcd.run_put s _ value
    | some life =>
      simp only [Etcd.program, hlife]
      exact Etcd.run_putLeased hs _ value life
  | deleteRecord id => exact ⟨_, rfl, Etcd.leaves_erase hs _⟩
  | owner index key => exact ⟨s, Etcd.run_get hv, Etcd.leaves_self hs hv⟩
  | putEntry index key owner => exact ⟨_, rfl, Etcd.leaves_insert hs _ owner⟩
  | claimEntry index key owner =>
    refine ⟨_, Etcd.run_claim hv, ?_⟩
    cases v with
    | none => exact Etcd.leaves_insert hs _ owner
    | some current => exact Etcd.leaves_self hs hv
  | removeEntry index key => exact ⟨_, rfl, Etcd.leaves_erase hs _⟩
  | releaseEntry index key owner =>
    refine ⟨_, Etcd.run_release hv, ?_⟩
    simp only [Request.left]
    split
    · exact Etcd.leaves_erase hs _
    · exact Etcd.leaves_self hs hv

/-! ### Storages -/

/-- No two entries share a lease; the other backends have none. -/
def Storage.IsSound : Storage → Prop
  | .memory _ => True
  | .redis _ => True
  | .etcd _ s => s.Apart

/-- The request is answered from what its slot holds, and no other key is changed. -/
structure Serves (s : Storage) (r : Request) (v : Option String) : Prop where
  reply : (Storage.serve r s).1 = .ok (r.answer v)
  sound : (Storage.serve r s).2.IsSound
  layout : (Storage.serve r s).2.layout = s.layout
  get? : ∀ key, (Storage.serve r s).2.get? key =
    if key = s.layout.address r.slot then (r.left v).map s.layout.written else s.get? key

theorem Storage.serves {s : Storage} (hs : s.IsSound) (r : Request) {v : Option String}
    (hv : s.get? (s.layout.address r.slot) = v.map s.layout.written) : Serves s r v := by
  cases s with
  | memory t =>
    obtain ⟨hreply, hget⟩ := Memory.serve_slot hv
    exact ⟨hreply, trivial, rfl, hget⟩
  | redis t =>
    have hserve : serve r (.redis t) = ((Memory.serve r t).1, .redis (Memory.serve r t).2) := by
      simp only [serve, Redis.run_program]
    obtain ⟨hreply, hget⟩ := Memory.serve_slot hv
    exact ⟨hserve ▸ hreply, hserve ▸ trivial, hserve ▸ rfl, hserve ▸ hget⟩
  | etcd c s =>
    obtain ⟨s', hrun, hleaves⟩ := Etcd.run_program (c := c) hs hv
    have hserve : serve r (.etcd c s) = (.ok (r.answer v), .etcd c s') := by
      simp only [serve, hrun]
    exact ⟨hserve ▸ rfl, hserve ▸ hleaves.apart, hserve ▸ rfl, hserve ▸ hleaves.value⟩

/-- The storage has under the address of each slot what the tables have there, and every key that it
has is the address of one slot. The tables have nothing but what is in such slots. -/
structure Layout.Holds (l : Layout) (s : Storage) (t : Tables) : Prop where
  plain : ∀ slot : Slot, t.get? slot ≠ none → slot.IsPlain
  stored : ∀ slot : Slot, slot.IsPlain → s.get? (l.address slot) = (t.get? slot).map l.written
  addressed : ∀ key, s.get? key ≠ none → ∃ slot : Slot, slot.IsPlain ∧ l.address slot = key ∧
    ∀ other : Slot, other.IsPlain → l.address other = key → other = slot

/-- A sound storage with this layout holds the tables. -/
structure Represents (l : Layout) (s : Storage) (t : Tables) : Prop extends l.Holds s t where
  sound : s.IsSound
  layout : s.layout = l

theorem represents_empty {s : Storage} (h : s.keys = []) : Represents s.layout s Tables.empty := by
  have htable {α : Type} {t : Table α} (ht : t.keys = []) (key : String) : t.get? key = none := by
    have hentries : t.entries = [] := List.map_eq_nil_iff.1 ht
    rw [Table.get?, hentries]
    rfl
  have hget (key : String) : s.get? key = none := by
    cases s with
    | memory t => exact htable h key
    | redis t => exact htable h key
    | etcd c s => exact congrArg (Option.map Gateway.Entry.value) (htable h key)
  have htables (slot : Slot) : Tables.empty.get? slot = none := by
    cases slot <;> rfl
  refine ⟨⟨fun slot hslot => absurd (htables slot) hslot, fun slot _ => ?_,
    fun key hkey => absurd (hget key) hkey⟩, ?_, rfl⟩
  · rw [hget, htables]
    rfl
  · cases s with
    | memory t => trivial
    | redis t => trivial
    | etcd c s => exact Gateway.State.apart_of_keys_eq_nil h

/-- A storage that holds the tables answers as they do and goes on holding them. -/
theorem related_tables (l : Layout) :
    Related Request.IsPlain (Represents l) Storage.serve Tables.serve := by
  rintro r s t hr ⟨⟨hplain, hstored, haddressed⟩, hsound, rfl⟩
  have hserves := Storage.serves hsound r (hstored r.slot hr)
  obtain ⟨hreply, hslots⟩ := Tables.respond_slot r t
  refine ⟨hserves.reply.trans (congrArg Except.ok hreply.symm), ⟨?_, fun slot hslot => ?_, ?_⟩,
    hserves.sound, hserves.layout⟩
  · intro slot hslot
    change (Tables.respond r t).2.get? slot ≠ none at hslot
    rw [hslots] at hslot
    by_cases h : slot = r.slot
    · exact h ▸ hr
    · rw [if_neg h] at hslot
      exact hplain slot hslot
  · change _ = ((Tables.respond r t).2.get? slot).map s.layout.written
    rw [hserves.get?, hslots]
    by_cases h : slot = r.slot
    · rw [if_pos h, if_pos (congrArg _ h)]
    · rw [if_neg h, if_neg fun haddress => h (s.layout.address_injective hslot hr haddress)]
      exact hstored slot hslot
  · intro key hkey
    rw [hserves.get?] at hkey
    by_cases h : key = s.layout.address r.slot
    · exact ⟨r.slot, hr, h.symm, fun other hother haddress =>
        s.layout.address_injective hother hr (haddress.trans h)⟩
    · rw [if_neg h] at hkey
      exact haddressed key hkey

end Accounts.Backend
