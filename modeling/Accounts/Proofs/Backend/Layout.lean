import Accounts.Backend.Storage
import Accounts.Text.Fields

/-!
# Where a backend keeps its values

A slot is the place of one record or of one entry. A layout gives each slot the key under which its
value is stored. The name of an index that has no separator in it and is not that of the records is
plain; over such indexes both layouts are injective, also between records and entries and for all
keys, since the first separator ends the name of the space (`flatKey_injective`,
`Etcd.Settings.key_injective`).
-/
namespace Accounts

theorem Text.append_cons_injective {separator : Char} {a b s t : List Char} (ha : separator ∉ a)
    (hb : separator ∉ b) (h : a ++ separator :: s = b ++ separator :: t) : a = b ∧ s = t := by
  have hfields := congrArg (fields separator) h
  rw [fields_append_cons ha, fields_append_cons hb] at hfields
  have hab : a = b := (List.cons.inj hfields).1
  subst hab
  exact ⟨rfl, (List.cons.inj (List.append_cancel_left h)).2⟩

namespace Backend

/-- The place of one value. -/
inductive Slot where
  | record (id : String)
  | entry (index key : String)
  deriving DecidableEq, Repr

namespace Slot

/-- The space of keys that the slot is in. -/
def space : Slot → String
  | record _ => recordSpace
  | entry index _ => index

def key : Slot → String
  | record id => id
  | entry _ key => key

/-- An index has a name without separators that is not the name of the records. -/
def IsPlain : Slot → Prop
  | record _ => True
  | entry index _ => ':' ∉ index.toList ∧ '/' ∉ index.toList ∧ index ≠ recordSpace

instance : DecidablePred IsPlain
  | record _ => isTrue trivial
  | entry index _ =>
    inferInstanceAs (Decidable (':' ∉ index.toList ∧ '/' ∉ index.toList ∧ index ≠ recordSpace))

variable {a b : Slot}

theorem IsPlain.colon (h : a.IsPlain) : ':' ∉ a.space.toList := by
  cases a with
  | record id => exact show ':' ∉ recordSpace.toList by decide
  | entry index key => exact h.1

theorem IsPlain.slash (h : a.IsPlain) : '/' ∉ a.space.toList := by
  cases a with
  | record id => exact show '/' ∉ recordSpace.toList by decide
  | entry index key => exact h.2.1

theorem IsPlain.ext (ha : a.IsPlain) (hb : b.IsPlain) (hspace : a.space = b.space)
    (hkey : a.key = b.key) : a = b := by
  cases a with
  | record i =>
    cases b with
    | record j => exact congrArg record hkey
    | entry index k => exact absurd hspace.symm hb.2.2
  | entry index k =>
    cases b with
    | record j => exact absurd hspace ha.2.2
    | entry index' k' => rw [show index = index' from hspace, show k = k' from hkey]

end Slot

namespace Request

/-- The slot that the request is about. -/
def slot : Request → Slot
  | record id => .record id
  | setRecord id _ => .record id
  | deleteRecord id => .record id
  | owner index key => .entry index key
  | putEntry index key _ => .entry index key
  | claimEntry index key _ => .entry index key
  | removeEntry index key => .entry index key
  | releaseEntry index key _ => .entry index key

def IsPlain (r : Request) : Prop := r.slot.IsPlain

instance : DecidablePred IsPlain := fun r => inferInstanceAs (Decidable r.slot.IsPlain)

end Request

/-! ### The two layouts -/

theorem flatKey_injective {space space' key key' : String} (h : ':' ∉ space.toList)
    (h' : ':' ∉ space'.toList) (heq : flatKey space key = flatKey space' key') :
    space = space' ∧ key = key' := by
  have hchars := congrArg String.toList heq
  simp only [flatKey, String.toList_append, List.append_assoc] at hchars
  obtain ⟨hspace, hkey⟩ := Text.append_cons_injective h h' hchars
  exact ⟨String.toList_inj.1 hspace, String.toList_inj.1 hkey⟩

theorem Etcd.Settings.key_injective {c : Etcd.Settings} {space space' key key' : String}
    (h : '/' ∉ space.toList) (h' : '/' ∉ space'.toList)
    (heq : c.key space key = c.key space' key') :
    space = space' ∧ key = key' := by
  have hchars := congrArg String.toList (Etcd.encodeText_injective heq)
  simp only [String.toList_append, List.append_assoc] at hchars
  have hrest := List.append_cancel_left (List.append_cancel_left hchars)
  obtain ⟨hspace, hkey⟩ := Text.append_cons_injective h h' hrest
  exact ⟨String.toList_inj.1 hspace, String.toList_inj.1 hkey⟩

/-- How values are stored: the key for each slot, and the form of a value. -/
structure Layout where
  address : Slot → String
  written : String → String
  address_injective : ∀ {a b : Slot}, a.IsPlain → b.IsPlain → address a = address b → a = b

namespace Layout

/-- The values as they are, under their keys with the space in front. -/
def flat : Layout where
  address slot := flatKey slot.space slot.key
  written := id
  address_injective ha hb h := by
    obtain ⟨hspace, hkey⟩ := flatKey_injective ha.colon hb.colon h
    exact ha.ext hb hspace hkey

/-- Keys with the prefix and the space in front, and keys and values in base64. -/
def etcd (c : Etcd.Settings) : Layout where
  address slot := c.key slot.space slot.key
  written := Etcd.encodeText
  address_injective ha hb h := by
    obtain ⟨hspace, hkey⟩ := Etcd.Settings.key_injective ha.slash hb.slash h
    exact ha.ext hb hspace hkey

end Layout

example : Layout.flat.address (.entry "emails" "a:b") = "emails:a:b" := by decide

/-- The base64 of `userd/user/u1`. -/
example : (Layout.etcd ⟨"http://localhost:2379", "userd", none⟩).address (.record "u1") =
    "dXNlcmQvdXNlci91MQ==" := by decide +kernel

def Storage.layout : Storage → Layout
  | memory _ | redis _ => .flat
  | etcd c _ => .etcd c

end Backend

end Accounts
