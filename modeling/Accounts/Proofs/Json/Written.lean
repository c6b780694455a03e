import Accounts.Json.Document
import Accounts.Json.Printer
import Mathlib.Data.List.Forall2

/-!
# Reading what was written

Texts, truth values and flat objects of them are read back from their compact text. A document is
not determined by what it means, so reading is stated up to `Means`.
-/
namespace Accounts.Json

/-- The document stands for this text or truth value. -/
inductive Means : Json → Document → Prop
  | string {s : String} {ps : Literal} (h : ps.denote = some s.toList) :
      Means (.string s) (.string ps)
  | bool (b : Bool) : Means (.bool b) (.bool b)

/-- A member of an object and what it is read as. -/
def MemberMeans (m : String × Json) (d : Literal × Document) : Prop :=
  d.1.denote = some m.1.toList ∧ Means m.2 d.2

def IsScalar (v : Json) : Prop := (∃ s, v = .string s) ∨ ∃ b, v = .bool b

namespace Document

theorem skipSpace_cons_of_not {c : Char} (h : isSpace c = false) (s : List Char) :
    skipSpace (c :: s) = c :: s := by
  simp [skipSpace, h]

theorem scan_write (s : String) (rest : List Char) :
    ∃ ps : Literal, Literal.scan (s.toList.flatMap Literal.writeChar ++ '"' :: rest) =
      some (ps, rest) ∧ ps.denote = some s.toList :=
  Literal.scan_write s.toList rest

theorem value_write {v : Json} (hv : IsScalar v) (fuel : Nat) (rest : List Char) :
    ∃ d, value (fuel + 1) (v.write ++ rest) = some (d, rest) ∧ Means v d := by
  rcases hv with ⟨s, rfl⟩ | ⟨b, rfl⟩
  · obtain ⟨ps, hs, hd⟩ := scan_write s rest
    refine ⟨.string ps, ?_, .string hd⟩
    rw [Json.write, Literal.write, List.cons_append, List.append_assoc, List.singleton_append,
      value, skipSpace_cons_of_not (by decide)]
    simp only [hs, Option.map_some]
  · refine ⟨.bool b, ?_, .bool b⟩
    cases b <;>
      rw [Json.write, List.cons_append, value, skipSpace_cons_of_not (by decide)] <;> rfl

theorem length_le_writeMembers (ms : List (String × Json)) :
    ms.length ≤ (writeMembers ms).length := by
  induction ms with
  | nil => exact Nat.zero_le _
  | cons m ms ih =>
    obtain ⟨k, v⟩ := m
    cases ms with
    | nil => simp [writeMembers, Literal.write]
    | cons m' ms =>
      simp only [writeMembers, List.length_cons, List.length_append] at ih ⊢
      omega

/-- A member and what stands after it. -/
theorem members_cons {k : String} {v : Json} (hv : IsScalar v) (fuel : Nat)
    (rest : List Char) :
    ∃ key d, MemberMeans (k, v) (key, d) ∧
      members (fuel + 2) (Literal.write k.toList ++ ':' :: v.write ++ rest) =
        match skipSpace rest with
        | ',' :: s => (members (fuel + 1) s).map fun (ms, s) => ((key, d) :: ms, s)
        | '}' :: s => some ([(key, d)], s)
        | _ => none := by
  obtain ⟨key, hs, hk⟩ := scan_write k (':' :: (v.write ++ rest))
  obtain ⟨d, hd, hm⟩ := value_write hv fuel rest
  refine ⟨key, d, ⟨hk, hm⟩, ?_⟩
  have hw : Literal.write k.toList ++ ':' :: v.write ++ rest =
      '"' :: (k.toList.flatMap Literal.writeChar ++ '"' :: ':' :: (v.write ++ rest)) := by
    simp [Literal.write]
  rw [hw, members, skipSpace_cons_of_not (by decide)]
  simp only [hs, Option.bind_eq_bind, Option.bind_some, skipSpace_cons_of_not
    (show isSpace ':' = false by decide), hd]
  generalize skipSpace rest = after
  cases after with
  | nil => rfl
  | cons c s =>
    by_cases hcomma : c = ','
    · subst hcomma
      change ((members (fuel + 1) s).bind fun ms => some ((key, d) :: ms.1, ms.2)) =
        (members (fuel + 1) s).map fun ms => ((key, d) :: ms.1, ms.2)
      cases members (fuel + 1) s <;> rfl
    · by_cases hbrace : c = '}'
      · subst hbrace
        rfl
      · simp [hcomma, hbrace]

theorem members_write {ms : List (String × Json)} (hne : ms ≠ [])
    (hs : ∀ m ∈ ms, IsScalar m.2) {fuel : Nat} (hf : ms.length < fuel) (rest : List Char) :
    ∃ ds, members fuel (writeMembers ms ++ '}' :: rest) = some (ds, rest) ∧
      List.Forall₂ MemberMeans ms ds := by
  induction ms generalizing fuel with
  | nil => exact absurd rfl hne
  | cons m ms ih =>
    obtain ⟨k, v⟩ := m
    obtain ⟨n, rfl⟩ : ∃ n, fuel = n + 2 := ⟨fuel - 2, by simp at hf; omega⟩
    have hv : IsScalar v := hs (k, v) (by simp)
    cases ms with
    | nil =>
      obtain ⟨key, d, hm, hr⟩ := members_cons (k := k) hv n ('}' :: rest)
      refine ⟨[(key, d)], ?_, .cons hm .nil⟩
      rw [writeMembers, hr, skipSpace_cons_of_not (by decide)]
      rfl
    | cons m' ms =>
      have hlen : (m' :: ms).length < n + 1 := by simpa using hf
      obtain ⟨ds, hds, hms⟩ := ih (by simp) (fun w hw => hs w (List.mem_cons_of_mem _ hw)) hlen
      obtain ⟨key, d, hm, hr⟩ := members_cons (k := k) hv n
        (',' :: (writeMembers (m' :: ms) ++ '}' :: rest))
      refine ⟨(key, d) :: ds, ?_, .cons hm hms⟩
      rw [writeMembers, List.append_assoc, List.cons_append, hr,
        skipSpace_cons_of_not (by decide)]
      · simp only [hds, Option.map_some]
      · exact fun e => by cases e

theorem value_write_object {ms : List (String × Json)} (hne : ms ≠ [])
    (hs : ∀ m ∈ ms, IsScalar m.2) {fuel : Nat} (hf : ms.length < fuel) (rest : List Char) :
    ∃ ds, value (fuel + 1) ((Json.object ms).write ++ rest) = some (.object ds, rest) ∧
      List.Forall₂ MemberMeans ms ds := by
  obtain ⟨ds, hds, hms⟩ := members_write hne hs hf rest
  obtain ⟨s, hq⟩ : ∃ s, writeMembers ms = '"' :: s := by
    match ms, hne with
    | [(k, v)], _ => exact ⟨_, rfl⟩
    | (k, v) :: m :: ms, _ => exact ⟨_, rfl⟩
  refine ⟨ds, ?_, hms⟩
  rw [hq, List.cons_append] at hds
  rw [Json.write, List.cons_append, List.append_assoc, value, skipSpace_cons_of_not (by decide)]
  simp only [hq, List.cons_append, List.nil_append,
    skipSpace_cons_of_not (show isSpace '"' = false by decide)]
  change Option.map _ (members fuel _) = _
  rw [hds]
  rfl

/-- A flat object is read back member by member. -/
theorem read?_write_object {ms : List (String × Json)} (hne : ms ≠ [])
    (hs : ∀ m ∈ ms, IsScalar m.2) :
    ∃ ds, read? (Json.object ms).write = some (.object ds) ∧ List.Forall₂ MemberMeans ms ds := by
  have hlen := length_le_writeMembers ms
  have hf : ms.length < 2 * (Json.object ms).write.length + 1 := by
    simp only [Json.write, List.length_cons, List.length_append]
    omega
  obtain ⟨ds, hds, hms⟩ := value_write_object hne hs hf []
  refine ⟨ds, ?_, hms⟩
  rw [List.append_nil] at hds
  rw [read?, hds]
  rfl

end Document

end Accounts.Json
