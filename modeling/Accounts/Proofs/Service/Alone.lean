import Accounts.Proofs.Directory.Alone
import Accounts.Proofs.Service.Changes
import Accounts.Service.Environment

/-!
# A service alone on its backend

One operation, no call of the directory failing and nobody else making any. The surroundings of the
service, which are a hasher, a source of identifiers and a clock, answer the other calls as they
please (`outcome`). What is said here of single calls is what the effects of operations are made of.
-/
namespace Accounts.Service

open Backend Program

variable {ε : Type}

/-- The tables, the surroundings of the service and the events of an operation. -/
structure Solo (ε : Type) where
  tables : Tables
  around : ε
  events : List Event

/-- The directory answers alone and the surroundings answer the other calls. -/
def alone (env : Handler interface ε) : Handler interface (Solo ε)
  | .directory c, s => ((Directory.serve Tables.serve c s.tables).1,
      { s with tables := (Directory.serve Tables.serve c s.tables).2 })
  | .publish e, s => ((),
      { s with around := (env (.publish e) s.around).2, events := s.events ++ [e] })
  | c, s => ((env c s.around).1, { s with around := (env c s.around).2 })

/-- The result of an operation in these surroundings and on these tables, and what it leaves. -/
def outcome (env : Handler interface ε) (rules : Rules) (x : ε) (o : Operation) (t : Tables) :
    Except ServiceError Answer × Solo ε :=
  (perform rules o).run.run (alone env) ⟨t, x, []⟩

variable {env : Handler interface ε} {x : ε} {t : Tables} {s : Solo ε}

/-! ### Calls -/

theorem wp_onDirectory_alone {α : Type} (a : Directory.Action α)
    (Q : Except ServiceError α → Solo ε → Prop) :
    (onDirectory a).run.wp (answered (alone env)) Q s =
      Q ((Directory.runAlone a s.tables).1.mapError .directory)
        { s with tables := (Directory.runAlone a s.tables).2 } := by
  rw [wp_onDirectory]
  unfold Directory.runAlone
  generalize a.run = p
  induction p generalizing s with
  | done r => rfl
  | call c next ih => exact ih (Directory.serve Tables.serve c s.tables).1

/-- A look at the tables. -/
theorem wp_look {α : Type} {a : Directory.Action α} (h : ∀ t, (Directory.runAlone a t).2 = t) :
    (onDirectory a).run.wp (answered (alone env)) (fun r s' =>
      r = (Directory.runAlone a s.tables).1.mapError .directory ∧ s' = s) s := by
  rw [wp_onDirectory_alone, h]
  exact ⟨rfl, rfl⟩

theorem wp_find (field : SearchField) :
    (onDirectory (Directory.find field)).run.wp (answered (alone env))
      (fun r s' => s' = s ∧ ∀ u, r = .ok u →
        (Directory.runAlone (Directory.find field) s.tables).1 = .ok u) s := by
  refine wp_mono ?_ (wp_look fun t => Directory.runAlone_find_tables field)
  rintro r s' ⟨rfl, rfl⟩
  refine ⟨rfl, fun u hu => ?_⟩
  cases hr : (Directory.runAlone (Directory.find field) s'.tables).1 with
  | error e =>
    rw [hr] at hu
    cases hu
  | ok v =>
    rw [hr] at hu
    cases hu
    rfl

/-- The tables are as at first and nothing has been announced. -/
structure Untouched (t : Tables) (s : Solo ε) : Prop where
  tables : s.tables = t
  events : s.events = []

/-- A call that is none of the directory and announces nothing. -/
theorem Untouched.ask (h : Untouched t s) {c : Call} (hc : ∀ d, c ≠ .directory d)
    (hquiet : ∀ e, c ≠ .publish e) :
    (ask c).run.wp (answered (alone env)) (fun r s' => r = .ok (env c s.around).1 ∧
      s'.around = (env c s.around).2 ∧ Untouched t s') s := by
  cases c with
  | directory d => exact absurd rfl (hc d)
  | publish e => exact absurd rfl (hquiet e)
  | _ => exact ⟨rfl, rfl, h.tables, h.events⟩

/-- What comes of hashing a password in these surroundings. -/
def Hashed (env : Handler interface ε) (x : ε) (password : String) :
    Except ServiceError String → Prop
  | .ok hash => (env (.hash password) x).1 = some (.ok hash)
  | .error e => e = crashed ∧ (env (.hash password) x).1 = none ∨
    ∃ e', e = .hasher e' ∧ (env (.hash password) x).1 = some (.error e')

theorem Untouched.hashPassword_cases (h : Untouched t s) (password : String) :
    (hashPassword password).run.wp (answered (alone env))
      (fun r s' => Hashed env s.around password r ∧ Untouched t s') s := by
  unfold Service.hashPassword
  refine wp_seq (h.ask (by simp) (by simp)) ?_ (fun _ _ hs' => by cases hs'.1)
  rintro reply s' ⟨hreply, -, hs'⟩
  have hreply := Except.ok.inj hreply
  rcases reply with _ | e | hash
  · exact ⟨Or.inl ⟨rfl, hreply.symm⟩, hs'⟩
  · exact ⟨Or.inr ⟨e, rfl, hreply.symm⟩, hs'⟩
  · exact ⟨hreply.symm, hs'⟩

theorem Untouched.hashPassword (h : Untouched t s) (password : String) :
    (hashPassword password).run.wp (answered (alone env)) (fun _ => Untouched t) s :=
  wp_mono (fun _ _ hs' => hs'.2) (h.hashPassword_cases password)

theorem Untouched.verifyPassword (h : Untouched t s) (password hash : String) :
    (verifyPassword password hash).run.wp (answered (alone env)) (fun _ s' =>
      s'.around = (env (.verify password hash) s.around).2 ∧ Untouched t s') s := by
  unfold Service.verifyPassword
  refine wp_seq (h.ask (by simp) (by simp)) ?_ (fun _ _ hs' => hs'.2)
  rintro x s' ⟨-, hs'⟩
  cases x with
  | none => exact hs'
  | some valid => exact hs'

theorem Untouched.newId (h : Untouched t s) :
    newId.run.wp (answered (alone env)) (fun _ => Untouched t) s := by
  unfold Service.newId
  refine wp_seq (h.ask (by simp) (by simp)) ?_ (fun _ _ hs' => hs'.2.2)
  rintro x s' ⟨-, -, hs'⟩
  cases x with
  | error e => exact hs'
  | ok id => exact hs'

theorem Untouched.newToken (h : Untouched t s) :
    newToken.run.wp (answered (alone env))
      (fun _ s' => s'.around = (env .newToken s.around).2 ∧ Untouched t s') s := by
  unfold Service.newToken
  refine wp_seq (h.ask (by simp) (by simp)) ?_ (fun _ _ hs' => hs'.2)
  rintro x s' ⟨-, hs'⟩
  cases x with
  | error e => exact hs'
  | ok token => exact hs'

theorem Untouched.save (h : Untouched t s) (v : User) :
    (save v).run.wp (answered (alone env)) (fun r s' =>
      r = (Directory.runAlone (Directory.save v) t).1.mapError .directory ∧
      s'.tables = (Directory.runAlone (Directory.save v) t).2 ∧ s'.events = []) s := by
  unfold Service.save
  rw [wp_onDirectory_alone, h.tables]
  exact ⟨rfl, rfl, h.events⟩

theorem wp_publish (e : Event) :
    (publish e).run.wp (answered (alone env)) (fun r s' => r = .ok () ∧ s'.tables = s.tables ∧
      s'.events = s.events ++ [e]) s :=
  ⟨rfl, rfl, rfl⟩

/-! ### Running services -/

/-- How a running service answers the calls that are none of the directory. -/
def Environment.answer : Handler interface Environment := fun c x =>
  let idle : Handler Directory.interface Unit
    | .backend _, u => (.error (.failed "unused"), u)
    | .lock, u => ((), u)
    | .unlock, u => ((), u)
  let (r, _, x) := serve idle c ((), x)
  (r, x)

/-- A service that numbers its users and has given this many ids. -/
def counting (given : Nat) : Environment where
  hasher := .ofPlain ⟨"plain:", ["plain:"], [], [], []⟩
  identifiers := .sequence "user-" given
  entropy := ⟨0⟩
  clock := .ofCount 0
  stream := .discard
  output := .empty

/-- The surroundings of a running service whose clock shows a time that has a date. -/
def Dated : Type := {env : Environment // env.clock.IsDated}

theorem clock_answer (c : Call) (env : Environment) :
    (Environment.answer c env).2.clock = env.clock := by
  cases c <;> rfl

def Dated.answer : Handler interface Dated := fun c env =>
  ((Environment.answer c env.1).1, ⟨(Environment.answer c env.1).2, by
    rw [clock_answer]
    exact env.2⟩)

/-- A service that numbers users and tokens and has given this many, `n` nanoseconds into 1970. -/
def counted (given : Nat) (n : Int) (h : (Instant.ofCount n).IsDated) : Dated :=
  ⟨{ counting given with clock := .ofCount n }, h⟩

end Accounts.Service
