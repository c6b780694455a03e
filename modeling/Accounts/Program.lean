/-!
# Programs as trees of calls

A `Program` either is done or makes one call and goes on with the reply. What a call means is
left to a `Handler`, so one definition of an operation runs on every backend, under faults, or
interleaved with others. Running a sequence is running its parts one after the other
(`run_bind`), also through a change of interface (`run_embed`); a program that may fail goes on
only after success (`run_bind_except`).
-/
namespace Accounts

/-- The calls a program may make, and what comes back from each. -/
structure Interface where
  Call : Type
  Reply : Call → Type

inductive Program (I : Interface) (α : Type) : Type where
  | done (a : α)
  | call (c : I.Call) (next : I.Reply c → Program I α)

/-- Answers every call of an interface, keeping a state. -/
abbrev Handler (I : Interface) (σ : Type) : Type :=
  (c : I.Call) → σ → I.Reply c × σ

namespace Program

variable {I J : Interface} {α β γ σ : Type}

def bind : Program I α → (α → Program I β) → Program I β
  | done a, f => f a
  | call c next, f => call c fun r => (next r).bind f

instance : Monad (Program I) where
  pure := done
  bind := bind

theorem bind_done (p : Program I α) : p.bind done = p := by
  induction p with
  | done a => rfl
  | call c next ih => simp [bind, ih]

theorem bind_bind (p : Program I α) (f : α → Program I β) (g : β → Program I γ) :
    (p.bind f).bind g = p.bind fun a => (f a).bind g := by
  induction p with
  | done a => rfl
  | call c next ih => simp [bind, ih]

instance : LawfulMonad (Program I) :=
  LawfulMonad.mk' _ bind_done (fun _ _ => rfl) bind_bind

/-- The program that makes one call and returns the reply. -/
def ask (c : I.Call) : Program I (I.Reply c) := call c done

def run (h : Handler I σ) : Program I α → σ → α × σ
  | done a, s => (a, s)
  | call c next, s =>
    let (r, s') := h c s
    (next r).run h s'

theorem run_ask (h : Handler I σ) (c : I.Call) (s : σ) : (ask c).run h s = h c s := rfl

theorem run_bind (h : Handler I σ) (p : Program I α) (f : α → Program I β) (s : σ) :
    (p.bind f).run h s = (f (p.run h s).1).run h (p.run h s).2 := by
  induction p generalizing s with
  | done a => rfl
  | call c next ih => simp [bind, run, ih]

/-- The same program with each call replaced by a program over another interface. -/
def embed (e : (c : I.Call) → Program J (I.Reply c)) : Program I α → Program J α
  | done a => done a
  | call c next => (e c).bind fun r => (next r).embed e

theorem run_embed (h : Handler J σ) (e : (c : I.Call) → Program J (I.Reply c))
    (p : Program I α) (s : σ) :
    (p.embed e).run h s = p.run (fun c s => (e c).run h s) s := by
  induction p generalizing s with
  | done a => rfl
  | call c next ih => simp [embed, run, run_bind, ih]

/-! ### Programs that may fail -/

variable {ε : Type}

theorem run_throw (h : Handler I σ) (e : ε) (s : σ) :
    (throw e : ExceptT ε (Program I) α).run.run h s = (.error e, s) := rfl

theorem run_bind_except (h : Handler I σ) (a : ExceptT ε (Program I) α)
    (f : α → ExceptT ε (Program I) β) (s : σ) :
    (a >>= f).run.run h s =
      match a.run.run h s with
      | (.ok v, s) => (f v).run.run h s
      | (.error e, s) => (.error e, s) := by
  change (Program.bind a.run _).run h s = _
  rw [run_bind]
  rcases a.run.run h s with ⟨_ | _, _⟩ <;> rfl

theorem run_tryCatch (h : Handler I σ) (a : ExceptT ε (Program I) α)
    (f : ε → ExceptT ε (Program I) α) (s : σ) :
    (tryCatch a f).run.run h s =
      match a.run.run h s with
      | (.ok v, s) => (.ok v, s)
      | (.error e, s) => (f e).run.run h s := by
  change (Program.bind a.run _).run h s = _
  rw [run_bind]
  rcases a.run.run h s with ⟨_ | _, _⟩ <;> rfl

end Program

end Accounts
