import Accounts.Directory.Action

/-!
# Programs on related states

`p.Only P` says that a program makes no other calls than those in `P`, whatever it is answered, and
`p.calls h s` lists those that it makes when `h` answers. Two handlers that answer these calls alike
on related states and keep the relation run the program to one result (`run_related`).
-/
namespace Accounts

namespace Program

variable {I : Interface} {α β ε σ τ : Type} {P : I.Call → Prop}

def Only (P : I.Call → Prop) : Program I α → Prop
  | done _ => True
  | call c next => P c ∧ ∀ r, (next r).Only P

theorem only_true (p : Program I α) : p.Only fun _ => True := by
  induction p with
  | done a => trivial
  | call c next ih => exact ⟨trivial, ih⟩

theorem only_ask {c : I.Call} (hc : P c) : (ask c).Only P := ⟨hc, fun _ => trivial⟩

theorem only_bind {p : Program I α} {f : α → Program I β} (hp : p.Only P)
    (hf : ∀ a, (f a).Only P) : (p.bind f).Only P := by
  induction p with
  | done a => exact hf a
  | call c next ih => exact ⟨hp.1, fun r => ih r (hp.2 r)⟩

theorem only_bind_except {a : ExceptT ε (Program I) α} {f : α → ExceptT ε (Program I) β}
    (ha : a.run.Only P) (hf : ∀ v, (f v).run.Only P) : (a >>= f).run.Only P := by
  refine only_bind ha fun r => ?_
  cases r with
  | ok v => exact hf v
  | error e => trivial

theorem only_tryCatch {a : ExceptT ε (Program I) α} {f : ε → ExceptT ε (Program I) α}
    (ha : a.run.Only P) (hf : ∀ e, (f e).run.Only P) : (tryCatch a f).run.Only P := by
  refine only_bind ha fun r => ?_
  cases r with
  | ok v => trivial
  | error e => exact hf e

/-- The calls of a run in their order. -/
def calls (h : Handler I σ) : Program I α → σ → List I.Call
  | done _, _ => []
  | call c next, s => c :: (next (h c s).1).calls h (h c s).2

theorem calls_bind (h : Handler I σ) (p : Program I α) (f : α → Program I β) (s : σ) :
    (p.bind f).calls h s = p.calls h s ++ (f (p.run h s).1).calls h (p.run h s).2 := by
  induction p generalizing s with
  | done a => rfl
  | call c next ih => simp [bind, calls, run, ih]

theorem calls_bind_except (h : Handler I σ) (a : ExceptT ε (Program I) α)
    (f : α → ExceptT ε (Program I) β) (s : σ) :
    (a >>= f).run.calls h s = a.run.calls h s ++
      match a.run.run h s with
      | (.ok v, s) => (f v).run.calls h s
      | (.error _, _) => [] := by
  change (Program.bind a.run _).calls h s = _
  rw [calls_bind]
  rcases a.run.run h s with ⟨_ | _, _⟩ <;> rfl

theorem Only.forall_mem_calls {p : Program I α} (hp : p.Only P) (h : Handler I σ) (s : σ) :
    ∀ c ∈ p.calls h s, P c := by
  induction p generalizing s with
  | done a => nofun
  | call c next ih => exact List.forall_mem_cons.2 ⟨hp.1, ih _ (hp.2 _) _⟩

/-- The two handlers answer the calls in `P` alike on related states and keep the relation. -/
def Related (P : I.Call → Prop) (R : σ → τ → Prop) (h : Handler I σ) (g : Handler I τ) : Prop :=
  ∀ c s t, P c → R s t → (h c s).1 = (g c t).1 ∧ R (h c s).2 (g c t).2

theorem exists_of_related {R : σ → τ → Prop} {x : α × σ} {y : α × τ}
    (h : x.1 = y.1 ∧ R x.2 y.2) : ∃ a s t, x = (a, s) ∧ y = (a, t) ∧ R s t :=
  ⟨x.1, x.2, y.2, rfl, Prod.ext h.1.symm rfl, h.2⟩

theorem run_related {R : σ → τ → Prop} {h : Handler I σ} {g : Handler I τ}
    (hRelated : Related P R h g) {p : Program I α} (hp : p.Only P) {s : σ} {t : τ} (hR : R s t) :
    (p.run h s).1 = (p.run g t).1 ∧ R (p.run h s).2 (p.run g t).2 := by
  induction p generalizing s t with
  | done a => exact ⟨rfl, hR⟩
  | call c next ih =>
    obtain ⟨hreply, hnext⟩ := hRelated c s t hp.1 hR
    simp only [run]
    rw [hreply]
    exact ih _ (hp.2 _) hnext

end Program

namespace Directory

variable {α σ τ : Type} {P : Backend.Request → Prop}

/-- The lock may be taken and given back, and these requests made. -/
def Allows (P : Backend.Request → Prop) : Call → Prop
  | .backend r => P r
  | .lock => True
  | .unlock => True

theorem only_ask {r : Backend.Request} (hr : P r) : (ask r).run.Only (Allows P) :=
  ⟨hr, fun _ => trivial⟩

theorem only_attempt {a : Action Unit} (ha : a.run.Only (Allows P)) :
    (attempt a).run.Only (Allows P) :=
  Program.only_bind ha fun _ => trivial

theorem only_locked {a : Action α} (ha : a.run.Only (Allows P)) :
    (locked a).run.Only (Allows P) := by
  have hcall (c : Call) (hc : Allows P c) : (Program.ask (I := interface) c).Only (Allows P) :=
    Program.only_ask hc
  exact Program.only_bind (hcall .lock trivial) fun _ => Program.only_bind ha fun _ =>
    Program.only_bind (hcall .unlock trivial) fun _ => trivial

theorem only_orElse {a : Action α} {cleanup : Action Unit} (ha : a.run.Only (Allows P))
    (hcleanup : cleanup.run.Only (Allows P)) : (orElse a cleanup).run.Only (Allows P) :=
  Program.only_tryCatch ha fun _ =>
    Program.only_bind_except (only_attempt hcleanup) fun _ => trivial

theorem related_serve {R : σ → τ → Prop} {h : Handler Backend.interface σ}
    {g : Handler Backend.interface τ} (hRelated : Program.Related P R h g) :
    Program.Related (Allows P) R (serve h) (serve g) := by
  intro c s t hc hR
  cases c with
  | backend r => exact hRelated r s t hc hR
  | lock => exact ⟨rfl, hR⟩
  | unlock => exact ⟨rfl, hR⟩

end Directory

end Accounts
