/-!
# Tables from texts to values

A finite map kept as a list of pairs with one pair for each key. `get?` is the view: two laws say
what `insert` and `erase` do to it.
-/
namespace Accounts

structure Table (α : Type) where
  entries : List (String × α)
  deriving Repr, DecidableEq

namespace Table

variable {α : Type}

def empty : Table α := ⟨[]⟩

def get? (t : Table α) (key : String) : Option α :=
  (t.entries.find? fun e => e.1 == key).map Prod.snd

def erase (t : Table α) (key : String) : Table α :=
  ⟨t.entries.filter fun e => e.1 != key⟩

def insert (t : Table α) (key : String) (value : α) : Table α :=
  ⟨(key, value) :: (t.erase key).entries⟩

def keys (t : Table α) : List String := t.entries.map Prod.fst

theorem mem_of_get? {t : Table α} {key : String} {value : α} (h : t.get? key = some value) :
    (key, value) ∈ t.entries := by
  obtain ⟨e, he, rfl⟩ := Option.map_eq_some_iff.1 h
  have hkey : e.1 = key := by simpa using List.find?_some he
  exact hkey ▸ List.mem_of_find?_eq_some he

theorem get?_erase_self (t : Table α) (key : String) : (t.erase key).get? key = none := by
  simp [get?, erase, List.find?_filter]

theorem get?_erase_of_ne (t : Table α) {key other : String} (h : other ≠ key) :
    (t.erase key).get? other = t.get? other := by
  simp only [get?, erase, List.find?_filter]
  congr 2
  funext e
  by_cases he : e.1 = other <;> simp [he, h]

theorem get?_erase (t : Table α) (key other : String) :
    (t.erase key).get? other = if other = key then none else t.get? other := by
  split
  · next h => rw [h, get?_erase_self]
  · next h => exact get?_erase_of_ne t h

theorem get?_insert (t : Table α) (key other : String) (value : α) :
    (t.insert key value).get? other = if other = key then some value else t.get? other := by
  by_cases h : key = other
  · simp [get?, insert, h]
  · have hne : other ≠ key := fun e => h e.symm
    have := get?_erase_of_ne t hne
    simp_all [get?, insert]

end Table

end Accounts
