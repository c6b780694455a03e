import Accounts.Program

/-!
# Programs that take turns

Several programs on one shared state. At each turn one of them makes its next call; a call that has
no answer, because something is locked, waits for a later turn. A schedule lists whose turn it is.
-/
namespace Accounts

/-- The result of a program that is done. -/
def Program.result? {I : Interface} {α : Type} : Program I α → Option α
  | done a => some a
  | call _ _ => none

theorem Program.eq_done_of_result? {I : Interface} {α : Type} {p : Program I α} {a : α}
    (h : p.result? = some a) : p = .done a := by
  cases p with
  | done b => exact congrArg done (Option.some.inj h)
  | call c next => cases h

/-- The shared state, and what each program still has to do. -/
structure Threads (I : Interface) (ι σ α : Type) where
  shared : σ
  rest : ι → Program I α

namespace Threads

variable {I : Interface} {ι σ α : Type} [DecidableEq ι]

def step (answer : ι → (c : I.Call) → σ → Option (I.Reply c × σ)) (m : Threads I ι σ α) (i : ι) :
    Threads I ι σ α :=
  match m.rest i with
  | .done _ => m
  | .call c next =>
    match answer i c m.shared with
    | none => m
    | some (r, s) => ⟨s, fun j => if j = i then next r else m.rest j⟩

def run (answer : ι → (c : I.Call) → σ → Option (I.Reply c × σ)) (m : Threads I ι σ α)
    (schedule : List ι) : Threads I ι σ α :=
  schedule.foldl (step answer) m

variable {answer : ι → (c : I.Call) → σ → Option (I.Reply c × σ)} {m : Threads I ι σ α} {i : ι}

theorem run_concat (schedule : List ι) (i : ι) :
    m.run answer (schedule ++ [i]) = (m.run answer schedule).step answer i :=
  List.foldl_append

theorem step_of_done {a : α} (h : m.rest i = .done a) : m.step answer i = m := by
  unfold step
  rw [h]

theorem step_of_call {c : I.Call} {next : I.Reply c → Program I α} {r : I.Reply c} {s : σ}
    (h : m.rest i = .call c next) (hanswer : answer i c m.shared = some (r, s)) :
    m.step answer i = ⟨s, fun j => if j = i then next r else m.rest j⟩ := by
  unfold step
  simp only [h, hanswer]

/-- The call that is answered if it is the turn of `i`. -/
def turn (answer : ι → (c : I.Call) → σ → Option (I.Reply c × σ)) (m : Threads I ι σ α) (i : ι) :
    List (ι × I.Call) :=
  match m.rest i with
  | .done _ => []
  | .call c _ => if (answer i c m.shared).isSome then [(i, c)] else []

/-- The calls that are answered, in order, and who makes them. -/
def journal (answer : ι → (c : I.Call) → σ → Option (I.Reply c × σ)) :
    Threads I ι σ α → List ι → List (ι × I.Call)
  | _, [] => []
  | m, i :: schedule => m.turn answer i ++ journal answer (m.step answer i) schedule

theorem journal_concat (schedule : List ι) (i : ι) :
    journal answer m (schedule ++ [i]) =
      journal answer m schedule ++ (m.run answer schedule).turn answer i := by
  induction schedule generalizing m with
  | nil => exact List.append_nil _
  | cons j schedule ih =>
    simp only [List.cons_append, journal, ih, List.append_assoc]
    rfl

/-- A turn passes, or one call is answered and its program goes on with the reply. -/
theorem turn_cases (answer : ι → (c : I.Call) → σ → Option (I.Reply c × σ))
    (m : Threads I ι σ α) (i : ι) :
    (m.step answer i = m ∧ m.turn answer i = []) ∨ ∃ c next r s, m.rest i = .call c next ∧
      answer i c m.shared = some (r, s) ∧
      m.step answer i = ⟨s, fun j => if j = i then next r else m.rest j⟩ ∧
      m.turn answer i = [(i, c)] := by
  unfold step turn
  cases hrest : m.rest i with
  | done a => exact Or.inl ⟨rfl, rfl⟩
  | call c next =>
    cases hanswer : answer i c m.shared with
    | none =>
      left
      simp [hanswer]
    | some rs =>
      right
      simp only [hanswer]
      exact ⟨c, next, rs.1, rs.2, rfl, hanswer, rfl, rfl⟩

theorem step_cases (answer : ι → (c : I.Call) → σ → Option (I.Reply c × σ))
    (m : Threads I ι σ α) (i : ι) :
    m.step answer i = m ∨ ∃ c next r s, m.rest i = .call c next ∧
      answer i c m.shared = some (r, s) ∧
      m.step answer i = ⟨s, fun j => if j = i then next r else m.rest j⟩ := by
  rcases turn_cases answer m i with ⟨hstep, -⟩ | ⟨c, next, r, s, hrest, hanswer, hstep, -⟩
  · exact Or.inl hstep
  · exact Or.inr ⟨c, next, r, s, hrest, hanswer, hstep⟩

end Threads

/-- The last element of a list that is split is the one in the middle or the last of the rest. -/
theorem split_concat {α : Type} {l a b : List α} {x y : α} (h : l ++ [y] = a ++ x :: b) :
    (l = a ∧ y = x ∧ b = []) ∨ ∃ c, b = c ++ [y] ∧ l = a ++ x :: c := by
  rcases List.eq_nil_or_concat b with rfl | ⟨c, z, rfl⟩
  · obtain ⟨hl, hy⟩ := List.append_inj' h rfl
    exact Or.inl ⟨hl, List.head_eq_of_cons_eq hy, rfl⟩
  · have hsplit : l ++ [y] = (a ++ x :: c) ++ [z] := by simpa using h
    obtain ⟨hl, hy⟩ := List.append_inj' hsplit rfl
    obtain rfl : y = z := List.head_eq_of_cons_eq hy
    exact Or.inr ⟨c, List.concat_eq_append, hl⟩

end Accounts
