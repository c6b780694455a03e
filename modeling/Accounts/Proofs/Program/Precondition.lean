import Accounts.Directory.Action

/-!
# Preconditions of programs

`p.wp Φ Q` holds of the states from which `p` can only end in `Q` when `Φ` says what each call
guarantees. `Φ` may leave the answer to a call open, so one statement covers failures, losses and
the acts of others. A handler that answers within `Φ` ends in `Q` (`wp_run`).
-/
namespace Accounts

/-- For each call, from a condition on the reply and on the state after it, one on the state before
it. -/
abbrev Calls (I : Interface) (σ : Type) : Type :=
  (c : I.Call) → (I.Reply c → σ → Prop) → σ → Prop

class Calls.Monotone {I : Interface} {σ : Type} (Φ : Calls I σ) : Prop where
  mono : ∀ {c : I.Call} {Q R : I.Reply c → σ → Prop} {s : σ},
    (∀ r s', Q r s' → R r s') → Φ c Q s → Φ c R s

namespace Program

variable {I : Interface} {α β ε σ τ : Type} {Φ : Calls I σ}

def wp (Φ : Calls I σ) : Program I α → (α → σ → Prop) → σ → Prop
  | done a, Q => Q a
  | call c next, Q => Φ c fun r => (next r).wp Φ Q

theorem wp_bind (p : Program I α) (f : α → Program I β) (Q : β → σ → Prop) :
    (p.bind f).wp Φ Q = p.wp Φ fun a => (f a).wp Φ Q := by
  induction p with
  | done a => rfl
  | call c next ih =>
    simp only [bind, wp]
    congr 1
    funext r
    exact ih r

theorem wp_mono [Φ.Monotone] {p : Program I α} {Q R : α → σ → Prop} {s : σ}
    (h : ∀ a s', Q a s' → R a s') (hp : p.wp Φ Q s) : p.wp Φ R s := by
  induction p generalizing s with
  | done a => exact h a s hp
  | call c next ih => exact Calls.Monotone.mono (fun r _ hr => ih r hr) hp

/-- A handler whose answers are among those that `Φ` allows, seen through `view`. -/
theorem wp_run {h : Handler I τ} {view : τ → σ}
    (hΦ : ∀ (c : I.Call) (Q : I.Reply c → σ → Prop) (t : τ),
      Φ c Q (view t) → Q (h c t).1 (view (h c t).2))
    {p : Program I α} {Q : α → σ → Prop} {t : τ} (hp : p.wp Φ Q (view t)) :
    Q (p.run h t).1 (view (p.run h t).2) := by
  induction p generalizing t with
  | done a => exact hp
  | call c next ih => exact ih _ (hΦ c _ t hp)

theorem wp_run_self {h : Handler I σ}
    (hΦ : ∀ (c : I.Call) (Q : I.Reply c → σ → Prop) (s : σ),
      Φ c Q s → Q (h c s).1 (h c s).2)
    {p : Program I α} {Q : α → σ → Prop} {s : σ} (hp : p.wp Φ Q s) :
    Q (p.run h s).1 (p.run h s).2 :=
  wp_run (fun c Q t hc => hΦ c Q (id t) hc) (show p.wp Φ Q (id s) from hp)

/-- Two ways to say what calls guarantee, on states that stay related. -/
theorem wp_simulate {Ψ : Calls I τ} [Ψ.Monotone] {R : σ → τ → Prop}
    (hR : ∀ (c : I.Call) (Q : I.Reply c → σ → Prop) (s : σ) (t : τ), R s t → Φ c Q s →
      Ψ c (fun r t' => ∃ s', R s' t' ∧ Q r s') t)
    {p : Program I α} {Q : α → σ → Prop} {s : σ} {t : τ} (h : R s t) (hp : p.wp Φ Q s) :
    p.wp Ψ (fun a t' => ∃ s', R s' t' ∧ Q a s') t := by
  induction p generalizing s t with
  | done a => exact ⟨s, h, hp⟩
  | call c next ih =>
    refine Calls.Monotone.mono ?_ (hR c _ s t h hp)
    rintro r t' ⟨s', hs', hnext⟩
    exact ih r hs' hnext

/-- Each call is answered by a handler. -/
def answered (h : Handler I σ) : Calls I σ := fun c Q s => Q (h c s).1 (h c s).2

instance (h : Handler I σ) : (answered h).Monotone := ⟨fun hQR hc => hQR _ _ hc⟩

/-- What a handler makes of a program is what it has to be shown to end in. -/
theorem wp_answered (h : Handler I σ) (p : Program I α) (Q : α → σ → Prop) (s : σ) :
    p.wp (answered h) Q s = Q (p.run h s).1 (p.run h s).2 := by
  induction p generalizing s with
  | done a => rfl
  | call c next ih => exact ih (h c s).1 (h c s).2

/-- The same calls, each of which has to leave the state in `K`. -/
def keeping (Φ : Calls I σ) (K : σ → Prop) : Calls I σ := fun c Q s =>
  Φ c (fun r s' => K s' ∧ Q r s') s

instance (K : σ → Prop) [Φ.Monotone] : (keeping Φ K).Monotone := by
  refine ⟨fun {c Q R s} hQR h => ?_⟩
  change Φ c (fun r s' => K s' ∧ R r s') s
  exact Calls.Monotone.mono (fun r s' hr => ⟨hr.1, hQR r s' hr.2⟩) h

theorem keeping_of [Φ.Monotone] {K : σ → Prop} {c : I.Call} {Q : I.Reply c → σ → Prop} {s : σ}
    (h : Φ c Q s) (hK : ∀ r s', Q r s' → K s') : keeping Φ K c Q s := by
  change Φ c (fun r s' => K s' ∧ Q r s') s
  exact Calls.Monotone.mono (fun r s' hr => ⟨hK r s' hr, hr⟩) h

theorem wp_of_keeping [Φ.Monotone] {K : σ → Prop} {p : Program I α} {Q : α → σ → Prop} {s : σ}
    (h : p.wp (keeping Φ K) Q s) : p.wp Φ Q s := by
  induction p generalizing s with
  | done a => exact h
  | call c next ih =>
    change Φ c (fun r => (next r).wp Φ Q) s
    exact Calls.Monotone.mono (fun r s' hr => ih r hr.2) h

/-! ### Programs that may fail -/

/-- A condition on the result of a success, and one for all failures. -/
def post (ok : α → σ → Prop) (error : σ → Prop) : Except ε α → σ → Prop
  | .ok a, s => ok a s
  | .error _, s => error s

theorem wp_bind_except (a : ExceptT ε (Program I) α) (f : α → ExceptT ε (Program I) β)
    (Q : Except ε β → σ → Prop) :
    (a >>= f).run.wp Φ Q = a.run.wp Φ fun r =>
      match r with
      | .ok v => (f v).run.wp Φ Q
      | .error e => Q (.error e) := by
  change (Program.bind a.run _).wp Φ Q = _
  rw [wp_bind]
  congr 1
  funext r
  cases r <;> rfl

/-- Goes on after success, in every state that the first part can end in. -/
theorem wp_seq [Φ.Monotone] {a : ExceptT ε (Program I) α}
    {f : α → ExceptT ε (Program I) β} {R : Except ε α → σ → Prop} {Q : Except ε β → σ → Prop}
    {s : σ} (ha : a.run.wp Φ R s) (hok : ∀ v s', R (.ok v) s' → (f v).run.wp Φ Q s')
    (herror : ∀ e s', R (.error e) s' → Q (.error e) s') : (a >>= f).run.wp Φ Q s := by
  rw [wp_bind_except]
  refine wp_mono (fun r s' hr => ?_) ha
  cases r with
  | ok v => exact hok v s' hr
  | error e => exact herror e s' hr

theorem wp_map_except (f : α → β) (a : ExceptT ε (Program I) α) (Q : Except ε β → σ → Prop) :
    (f <$> a).run.wp Φ Q = a.run.wp Φ fun r => Q (r.map f) := by
  rw [map_eq_pure_bind, wp_bind_except]
  congr 1
  funext r
  cases r <;> rfl

theorem wp_tryCatch (a : ExceptT ε (Program I) α) (f : ε → ExceptT ε (Program I) α)
    (Q : Except ε α → σ → Prop) :
    (tryCatch a f).run.wp Φ Q = a.run.wp Φ fun r =>
      match r with
      | .ok v => Q (.ok v)
      | .error e => (f e).run.wp Φ Q := by
  change (Program.bind a.run _).wp Φ Q = _
  rw [wp_bind]
  congr 1
  funext r
  cases r <;> rfl

end Program

namespace Directory

variable {α σ : Type} {Φ : Calls interface σ}

theorem wp_ask (r : Backend.Request) (Q : Except DirectoryError r.Value → σ → Prop) :
    (ask r).run.wp Φ Q = Φ (.backend r) fun reply => Q (reply.mapError .backend) := rfl

theorem wp_attempt (a : Action Unit) (Q : Except DirectoryError Unit → σ → Prop) :
    (attempt a).run.wp Φ Q = a.run.wp Φ fun _ => Q (.ok ()) := by
  change (Program.bind a.run _).wp Φ Q = _
  rw [Program.wp_bind]
  rfl

theorem wp_locked (a : Action α) (Q : Except DirectoryError α → σ → Prop) :
    (locked a).run.wp Φ Q =
      Φ .lock fun _ => a.run.wp Φ fun result => Φ .unlock fun _ => Q result := by
  change Φ .lock (fun _ => (Program.bind a.run _).wp Φ Q) = _
  simp only [Program.wp_bind]
  rfl

theorem wp_orElse [Φ.Monotone] {a : Action α} {cleanup : Action Unit}
    {R Q : Except DirectoryError α → σ → Prop} {s : σ} (ha : a.run.wp Φ R s)
    (hok : ∀ v s', R (.ok v) s' → Q (.ok v) s')
    (herror : ∀ e s', R (.error e) s' → cleanup.run.wp Φ (fun _ => Q (.error e)) s') :
    (orElse a cleanup).run.wp Φ Q s := by
  change (Program.bind a.run _).wp Φ Q s
  rw [Program.wp_bind]
  refine Program.wp_mono (fun r s' hr => ?_) ha
  cases r with
  | ok v => exact hok v s' hr
  | error e =>
    change (attempt cleanup >>= fun _ => throw e).run.wp Φ Q s'
    rw [Program.wp_bind_except, wp_attempt]
    exact herror e s' hr

end Directory

end Accounts
