import Accounts.Directory.Save

/-!
# Interference

A backend on which others act too and whose calls can fail. Interference is planned for the n-th
call of a kind, before or after the call takes effect; what happens then is a list of acts of other
processes, and the call may be made to fail. Every call is recorded with its reply.
-/
namespace Accounts.Session

open Accounts.Backend (Request interface)

inductive RequestKind where
  | record
  | setRecord
  | deleteRecord
  | owner
  | putEntry
  | claimEntry
  | removeEntry
  | releaseEntry
  deriving DecidableEq, Repr

def kindOf : Request → RequestKind
  | .record _ => .record
  | .setRecord _ _ => .setRecord
  | .deleteRecord _ => .deleteRecord
  | .owner _ _ => .owner
  | .putEntry _ _ _ => .putEntry
  | .claimEntry _ _ _ => .claimEntry
  | .removeEntry _ _ => .removeEntry
  | .releaseEntry _ _ _ => .releaseEntry

/-- What another process does: a request, or a save through a directory of its own. -/
inductive Act where
  | request (r : Request)
  | save (u : User)
  deriving DecidableEq, Repr

structure Interference where
  kind : RequestKind
  nth : Nat
  afterCall : Bool
  acts : List Act
  failure : Option BackendError
  deriving DecidableEq, Repr

structure Recorded where
  request : Request
  reply : Except BackendError request.Value

/-- A backend with the calls made on it so far, the last one first. -/
structure Watched (σ : Type) where
  backend : σ
  calls : List Recorded

variable {σ : Type}

def Act.run (h : Handler interface σ) : Act → σ → σ
  | .request r, s => (h r s).2
  | .save u, s => ((Directory.save u).run.run (Directory.serve h) s).2

/-- Carries out interference in order, up to the first that makes the call fail. -/
def interfere (h : Handler interface σ) : List Interference → σ → Option BackendError × σ
  | [], s => (none, s)
  | i :: rest, s =>
    let s := i.acts.foldl (fun s a => a.run h s) s
    match i.failure with
    | some e => (some e, s)
    | none => interfere h rest s

namespace Watched

def start (s : σ) : Watched σ := ⟨s, []⟩

/-- How many calls of a kind have been made. -/
def count (w : Watched σ) (k : RequestKind) : Nat := w.calls.countP fun c => kindOf c.request == k

/-- Interference after a call happens only if the call has not failed. -/
def respond (h : Handler interface σ) (r : Request) (before after : List Interference) (s : σ) :
    Except BackendError r.Value × σ :=
  match interfere h before s with
  | (some e, s) => (.error e, s)
  | (none, s) =>
    match h r s with
    | (.error e, s) => (.error e, s)
    | (.ok v, s) =>
      match interfere h after s with
      | (some e, s) => (.error e, s)
      | (none, s) => (.ok v, s)

def serve (h : Handler interface σ) (plan : List Interference) :
    Handler interface (Watched σ) := fun r w =>
  let due := plan.filter fun i => i.kind == kindOf r && i.nth == w.count (kindOf r)
  let (before, after) := due.partition fun i => !i.afterCall
  let (reply, s) := respond h r before after w.backend
  (reply, ⟨s, ⟨r, reply⟩ :: w.calls⟩)

end Watched

end Accounts.Session
