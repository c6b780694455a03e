/-!
# Fields between separators

A text cut at every separator: one field more than there are separators, possibly empty. Joining
the fields gives the text back (`joined_fields`), and fields without a separator come back from the
text that joins them (`fields_joined`). Parts that are read one by one, each from its one written
form, are read from their written forms (`mapM_eq_some_iff`).
-/
namespace Accounts.Text

/-- Always at least one field. -/
def fields (separator : Char) : List Char → List (List Char)
  | [] => [[]]
  | c :: s =>
    if c = separator then [] :: fields separator s
    else
      match fields separator s with
      | [] => [[c]]
      | f :: fs => (c :: f) :: fs

def joined (separator : Char) : List (List Char) → List Char
  | [] => []
  | [f] => f
  | f :: fs => f ++ separator :: joined separator fs

theorem fields_ne_nil (separator : Char) (s : List Char) : fields separator s ≠ [] := by
  fun_induction fields separator s <;> simp_all

theorem not_mem_of_mem_fields {separator : Char} {s f : List Char}
    (h : f ∈ fields separator s) : separator ∉ f := by
  induction s generalizing f with
  | nil => simp_all [fields]
  | cons c s ih =>
    unfold fields at h
    split at h
    · rcases List.mem_cons.1 h with rfl | h
      · simp
      · exact ih h
    · next hc =>
      split at h
      · rw [List.mem_singleton] at h
        rw [h, List.mem_singleton]
        exact fun e => hc e.symm
      · next g gs hg =>
        rcases List.mem_cons.1 h with rfl | h
        · rw [List.mem_cons, not_or]
          exact ⟨fun e => hc e.symm, ih (hg ▸ List.mem_cons_self)⟩
        · exact ih (hg ▸ List.mem_cons_of_mem _ h)

theorem joined_fields (separator : Char) (s : List Char) :
    joined separator (fields separator s) = s := by
  induction s with
  | nil => rfl
  | cons c s ih =>
    unfold fields
    split
    · next hc =>
      cases hf : fields separator s with
      | nil => exact absurd hf (fields_ne_nil separator s)
      | cons g gs => rw [hf] at ih; simp [joined, ih, hc]
    · split
      · next hf => exact absurd hf (fields_ne_nil separator s)
      · next g gs hf =>
        rw [hf] at ih
        rw [← ih]
        cases gs <;> rfl

theorem mem_joined {separator c : Char} {fs : List (List Char)} (h : c ∈ joined separator fs) :
    c = separator ∨ ∃ f ∈ fs, c ∈ f := by
  fun_induction joined separator fs with
  | case1 => cases h
  | case2 f => exact Or.inr ⟨f, List.mem_singleton_self f, h⟩
  | case3 f fs hfs ih =>
    rcases List.mem_append.1 h with h | h
    · exact Or.inr ⟨f, List.mem_cons_self, h⟩
    rcases List.mem_cons.1 h with rfl | h
    · exact Or.inl rfl
    · exact (ih h).imp_right fun ⟨g, hg, hc⟩ => ⟨g, List.mem_cons_of_mem f hg, hc⟩

theorem fields_of_not_mem {separator : Char} {s : List Char} (h : separator ∉ s) :
    fields separator s = [s] := by
  induction s with
  | nil => rfl
  | cons c s ih =>
    rw [List.mem_cons, not_or] at h
    simp [fields, ih h.2, Ne.symm h.1]

theorem fields_append_cons {separator : Char} {f : List Char} (h : separator ∉ f)
    (s : List Char) : fields separator (f ++ separator :: s) = f :: fields separator s := by
  induction f with
  | nil => simp [fields]
  | cons c f ih =>
    rw [List.mem_cons, not_or] at h
    simp [fields, ih h.2, Ne.symm h.1]

theorem fields_joined {separator : Char} (fs : List (List Char)) (h : fs ≠ [])
    (hs : ∀ f ∈ fs, separator ∉ f) : fields separator (joined separator fs) = fs := by
  fun_induction joined separator fs with
  | case1 => exact absurd rfl h
  | case2 f => exact fields_of_not_mem (hs f (by simp))
  | case3 f fs hfs ih =>
    rw [fields_append_cons (hs f (by simp)), ih (fun e => hfs e) fun g hg => hs g (by simp [hg])]

/-- A text has these fields exactly if it joins them and none of them has a separator. -/
theorem fields_eq_iff {separator : Char} {s : List Char} {fs : List (List Char)} (h : fs ≠ []) :
    fields separator s = fs ↔ s = joined separator fs ∧ ∀ f ∈ fs, separator ∉ f := by
  constructor
  · rintro rfl
    exact ⟨(joined_fields separator s).symm, fun _ => not_mem_of_mem_fields⟩
  · rintro ⟨rfl, hs⟩
    exact fields_joined fs h hs

theorem mapM_eq_some_iff {α β : Type} {read : α → Option β} {write : β → α} {P : β → Prop}
    (h : ∀ a b, read a = some b ↔ a = write b ∧ P b) {as : List α} {bs : List β} :
    as.mapM read = some bs ↔ as = bs.map write ∧ ∀ b ∈ bs, P b := by
  induction as generalizing bs with
  | nil => cases bs <;> simp
  | cons a as ih =>
    simp only [List.mapM_cons, Option.bind_eq_bind, Option.bind_eq_some_iff, h, ih]
    constructor
    · rintro ⟨b, ⟨rfl, hb⟩, bs', ⟨rfl, hbs⟩, ⟨⟩⟩
      exact ⟨rfl, List.forall_mem_cons.2 ⟨hb, hbs⟩⟩
    · rintro ⟨hmap, hall⟩
      cases bs with
      | nil => cases hmap
      | cons b bs =>
        obtain ⟨rfl, rfl⟩ := List.cons.inj hmap
        obtain ⟨hb, hbs⟩ := List.forall_mem_cons.1 hall
        exact ⟨b, ⟨rfl, hb⟩, bs, ⟨rfl, hbs⟩, rfl⟩

end Accounts.Text
