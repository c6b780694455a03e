import Accounts.Backend.Request
import Accounts.Directory.Error

/-!
# Actions of the directory

An action is a program of requests to the backend that may fail. Taking and giving back the lock
that keeps two saves of one directory apart are calls too, so that an interleaving of several
directories can be stated as one of their calls. Where a directory is alone on a backend the lock
changes nothing (`run_locked`).
-/
namespace Accounts.Directory

inductive Call where
  | backend (r : Backend.Request)
  | lock
  | unlock
  deriving DecidableEq, Repr

def Call.Reply : Call → Type
  | backend r => Except BackendError r.Value
  | lock | unlock => Unit

abbrev interface : Interface := ⟨Call, Call.Reply⟩

abbrev Action (α : Type) : Type := ExceptT DirectoryError (Program interface) α

variable {α σ : Type}

def ask (r : Backend.Request) : Action r.Value :=
  ExceptT.mk ((Program.ask (I := interface) (.backend r)).bind fun reply =>
    .done (reply.mapError .backend))

/-- Runs an action and returns its result with the lock given back. -/
def locked (a : Action α) : Action α :=
  ExceptT.mk ((Program.ask (I := interface) .lock).bind fun _ =>
    a.run.bind fun result => (Program.ask (I := interface) .unlock).bind fun _ => .done result)

/-- An action whose failure does not matter. -/
def attempt (a : Action Unit) : Action Unit :=
  ExceptT.mk (a.run.bind fun _ => .done (.ok ()))

/-- After a failure of `a` does `cleanup`, which does not fail, and fails as `a` did. -/
def orElse (a : Action α) (cleanup : Action Unit) : Action α :=
  tryCatch a fun e => do
    attempt cleanup
    throw e

/-- The only directory on a backend: the lock is always free. -/
def serve (h : Handler Backend.interface σ) : Handler interface σ
  | .backend r, s => h r s
  | .lock, s => ((), s)
  | .unlock, s => ((), s)

theorem run_ask (h : Handler Backend.interface σ) (r : Backend.Request) (s : σ) :
    (ask r).run.run (serve h) s = ((h r s).1.mapError .backend, (h r s).2) := rfl

theorem run_locked (h : Handler Backend.interface σ) (a : Action α) (s : σ) :
    (locked a).run.run (serve h) s = a.run.run (serve h) s := by
  change Program.run (serve h) (Program.bind a.run _) s = _
  rw [Program.run_bind]
  rfl

theorem run_attempt (h : Handler interface σ) (a : Action Unit) (s : σ) :
    (attempt a).run.run h s = (.ok (), (a.run.run h s).2) := by
  change Program.run h (Program.bind a.run _) s = _
  rw [Program.run_bind]
  rfl

theorem run_orElse (h : Handler interface σ) (a : Action α) (cleanup : Action Unit) (s : σ) :
    (orElse a cleanup).run.run h s =
      match a.run.run h s with
      | (.ok v, s) => (.ok v, s)
      | (.error e, s) => (.error e, (cleanup.run.run h s).2) := by
  unfold orElse
  rw [Program.run_tryCatch]
  rcases a.run.run h s with ⟨_ | _, s⟩
  · simp only [Program.run_bind_except, run_attempt, Program.run_throw]
  · rfl

end Accounts.Directory
