import Accounts.Proofs.Directory.Search
import Accounts.Proofs.Service.Alone
import Accounts.Proofs.Service.LostUpdate
import Accounts.Proofs.Service.Requests

/-!
# What decides a login

Up to the check of the password the directory answers alone. From then on anything may become of a
login: calls fail, others change the tables, the hasher crashes. The stored user, the rules and the
check decide its answer all the same (`login_decided`), since what comes after the check is the
renewal of the hash, whose outcome does not matter.
-/
namespace Accounts.Service

open Backend Program

variable {ε ε' : Type}

/-- The tables, the surroundings, the events, and whether the password has been checked. -/
structure Gate (ε : Type) extends Solo ε where
  checked : Bool

/-- The directory answers alone until the password has been checked, and then as `others` let it. -/
def untilChecked (env : Handler interface ε) (others : Handler Directory.interface (Tables × ε)) :
    Handler interface (Gate ε)
  | .directory c, s =>
    if s.checked then
      ((others c (s.tables, s.around)).1,
        { s with
          tables := (others c (s.tables, s.around)).2.1
          around := (others c (s.tables, s.around)).2.2 })
    else
      ((Directory.serve Tables.serve c s.tables).1,
        { s with tables := (Directory.serve Tables.serve c s.tables).2 })
  | .verify password hash, s => ((env (.verify password hash) s.around).1,
      { s with around := (env (.verify password hash) s.around).2, checked := true })
  | .publish e, s => ((),
      { s with around := (env (.publish e) s.around).2, events := s.events ++ [e] })
  | c, s => ((env c s.around).1, { s with around := (env c s.around).2 })

/-- What a login answers, and what it leaves. -/
def login (env : Handler interface ε) (others : Handler Directory.interface (Tables × ε))
    (rules : Rules) (x : ε) (loginName password : String) (t : Tables) :
    Except ServiceError String × Gate ε :=
  (authenticate rules loginName password).run.run (untilChecked env others) ⟨⟨t, x, []⟩, false⟩

/-- Nobody interferes and no call fails. -/
def undisturbed : Handler Directory.interface (Tables × ε) := fun c s =>
  ((Directory.serve Tables.serve c s.1).1, (Directory.serve Tables.serve c s.1).2, s.2)

/-- A login that nobody disturbs is one alone. -/
theorem login_undisturbed (env : Handler interface ε) (rules : Rules) (x : ε)
    (loginName password : String) (t : Tables) :
    ((login env undisturbed rules x loginName password t).1,
        (login env undisturbed rules x loginName password t).2.toSolo) =
      (authenticate rules loginName password).run.run (alone env) ⟨t, x, []⟩ := by
  have hrelated : Related (fun _ => True) (fun (g : Gate ε) s => g.toSolo = s)
      (untilChecked env undisturbed) (alone env) := by
    rintro c g _ - rfl
    cases c with
    | directory c =>
      simp only [untilChecked, undisturbed, alone]
      split <;> exact ⟨rfl, rfl⟩
    | _ => exact ⟨rfl, rfl⟩
  have hrun := run_related hrelated (only_true (authenticate rules loginName password).run)
    (s := ⟨⟨t, x, []⟩, false⟩) rfl
  exact Prod.ext hrun.1 hrun.2

/-- Whoever has not verified an address is admitted only where that is not required. -/
def Rules.Admits (rules : Rules) (u : User) : Prop :=
  rules.verifiedEmailRequired = true → u.emailVerified = true

instance (rules : Rules) (u : User) : Decidable (rules.Admits u) :=
  inferInstanceAs (Decidable (_ → _))

/-- The user is stored and has the login name. -/
def Stands (t : Tables) (loginName : String) (u : User) : Prop :=
  ∃ id, t.user? id = some u ∧ u.unique? .loginName = some loginName

/-- What a login has to answer, where `verified` is what the hasher says of a hash: nothing, if it
crashes. -/
inductive Verdict (t : Tables) (rules : Rules) (verified : String → Option Bool)
    (loginName : String) : Except ServiceError String → Prop
  | unknown (hnone : ∀ u, ¬ Stands t loginName u) :
    Verdict t rules verified loginName (.error (.directory .notFound))
  | unverified {u : User} (hu : Stands t loginName u) (hnot : ¬ rules.Admits u) :
    Verdict t rules verified loginName (.error .emailNotVerified)
  | crashed {u : User} (hu : Stands t loginName u) (hadmits : rules.Admits u)
    (hcrash : verified u.passwordHash = none) : Verdict t rules verified loginName (.error crashed)
  | refused {u : User} (hu : Stands t loginName u) (hadmits : rules.Admits u)
    (hwrong : verified u.passwordHash = some false) :
    Verdict t rules verified loginName (.error .invalidCredentials)
  | accepted {u : User} (hu : Stands t loginName u) (hadmits : rules.Admits u)
    (hright : verified u.passwordHash = some true) : Verdict t rules verified loginName (.ok u.id)

/-- A login that succeeds is announced, and nothing else is. -/
def announced : Except ServiceError String → List Event
  | .ok id => [.authenticated id]
  | .error _ => []

variable {t : Tables} {rules : Rules} {verified : String → Option Bool}
  {loginName password : String} {u v : User} {env : Handler interface ε}
  {others : Handler Directory.interface (Tables × ε)} {x : ε} {s : Gate ε}

/-! ### One verdict -/

theorem Stands.unique (h : t.Owned) (hu : Stands t loginName u) (hv : Stands t loginName v) :
    u = v := by
  obtain ⟨a, ha, hua⟩ := hu
  obtain ⟨b, hb, hvb⟩ := hv
  obtain rfl : a = b := h.unique ⟨u, ha, hua⟩ ⟨v, hb, hvb⟩
  exact Option.some.inj (ha.symm.trans hb)

/-- The search for a login name finds whoever has it, and fails only if nobody does. -/
theorem find_named (h : t.Readable) (loginName : String) :
    ((∀ u, ¬ Stands t loginName u) ∧
      Directory.runAlone (Directory.find (.loginName loginName)) t = (.error .notFound, t)) ∨
    ∃ u, Stands t loginName u ∧
      Directory.runAlone (Directory.find (.loginName loginName)) t = (.ok u, t) := by
  obtain ⟨r, hrun, hr⟩ := Directory.runAlone_findOwner_answer t .loginName loginName
  cases hr with
  | @found id u howner hu hkey => exact .inr ⟨u, ⟨id, hu, hkey⟩, hrun⟩
  | nobody hlacks =>
    refine .inl ⟨?_, hrun⟩
    rintro u ⟨id, hu, hkey⟩
    have hcarries : t.Carries id .loginName loginName := ⟨u, hu, hkey⟩
    exact (hlacks id (h.owned hcarries)).not_carries hcarries
  | unreadable howner hunreadable =>
    obtain ⟨text, htext, hnone⟩ := hunreadable
    obtain ⟨u, hu⟩ := h.decodes htext
    rw [hu] at hnone
    cases hnone

theorem Verdict.unique (h : t.Readable) {r r' : Except ServiceError String}
    (hr : Verdict t rules verified loginName r) (hr' : Verdict t rules verified loginName r') :
    r = r' := by
  cases hr with
  | unknown hnone =>
    cases hr' with
    | unknown => rfl
    | _ hu => exact absurd hu (hnone _)
  | _ hu =>
    cases hr' with
    | unknown hnone => exact absurd hu (hnone _)
    | _ hv =>
      obtain rfl := hu.unique h.toOwned hv
      simp_all

/-! ### The steps of a login -/

/-- What is left of a login when the password has been found right. -/
def renewAndPublish (u : User) (password : String) : Action String := do
  let outdated : Bool ← ask (.needsRehash u.passwordHash)
  if outdated then tryCatch (rehash u.id u.passwordHash password) fun _ => pure ()
  publish (.authenticated u.id)
  pure u.id

section

variable {σ : Type} {Φ : Calls interface σ} {Q : Except ServiceError String → σ → Prop}
  {R : Except ServiceError User → σ → Prop}

/-- What a login goes on with after the check of the password has come to this. -/
def AfterCheck (Φ : Calls interface σ) (Q : Except ServiceError String → σ → Prop) (u : User)
    (password : String) : Except ServiceError Bool → σ → Prop
  | .ok true => (renewAndPublish u password).run.wp Φ Q
  | .ok false => Q (.error .invalidCredentials)
  | .error e => Q (.error e)

/-- A login searches for its user, asks whether the user is admitted, and checks the password. -/
theorem wp_authenticate_of [Φ.Monotone] {s : σ} (hname : loginName ≠ "") (hpassword : password ≠ "")
    (hfind : (onDirectory (Directory.find (.loginName loginName))).run.wp Φ R s)
    (hunknown : ∀ e s', R (.error e) s' → Q (.error e) s')
    (hunverified : ∀ u s', R (.ok u) s' → ¬ rules.Admits u → Q (.error .emailNotVerified) s')
    (hcheck : ∀ u s', R (.ok u) s' → rules.Admits u →
      (verifyPassword password u.passwordHash).run.wp Φ (AfterCheck Φ Q u password) s') :
    (authenticate rules loginName password).run.wp Φ Q s := by
  unfold authenticate
  rw [wp_require_of_ne hname, wp_require_of_ne hpassword]
  refine wp_seq hfind ?_ hunknown
  intro u s' hu
  split
  · next hcond =>
    exact hunverified u s' hu fun hadmits => by simp_all [Rules.Admits]
  · next hcond =>
    have hadmits : rules.Admits u := by
      simpa [Rules.Admits] using hcond
    refine wp_seq (hcheck u s' hu hadmits) ?_ (fun _ _ hs' => hs')
    intro valid s'' hs''
    cases valid with
    | true => exact hs''
    | false => exact hs''

theorem wp_verifyPassword_answered (h : Handler interface σ) (password hash : String)
    (Q : Except ServiceError Bool → σ → Prop) (s : σ) :
    (verifyPassword password hash).run.wp (answered h) Q s =
      Q ((h (.verify password hash) s).1.elim (.error crashed) .ok)
        (h (.verify password hash) s).2 := by
  change (match (h (.verify password hash) s).1 with
    | none => (throw crashed : Action Bool)
    | some valid => pure valid).run.wp (answered h) Q (h (.verify password hash) s).2 = _
  cases (h (.verify password hash) s).1 <;> rfl

end

/-- Before the check the directory answers alone. -/
theorem wp_onDirectory_unchecked {α : Type} (a : Directory.Action α) (hs : s.checked = false)
    (Q : Except ServiceError α → Gate ε → Prop) :
    (onDirectory a).run.wp (answered (untilChecked env others)) Q s =
      Q ((Directory.runAlone a s.tables).1.mapError .directory)
        { s with tables := (Directory.runAlone a s.tables).2 } := by
  rw [wp_onDirectory]
  unfold Directory.runAlone
  generalize a.run = p
  induction p generalizing s with
  | done r => rfl
  | call c next ih =>
    change (next ((untilChecked env others) (.directory c) s).1).wp _ _ _ = _
    simp only [untilChecked, hs, Bool.false_eq_true, if_false]
    exact ih (Directory.serve Tables.serve c s.tables).1 rfl

/-- A call that announces nothing. -/
def Silent (c : Call) : Prop := ∀ e, c ≠ .publish e

/-- Without an announcement the events stay, whatever is answered. -/
theorem wp_silent {α : Type} {p : Program interface α} (hp : p.Only Silent) (s : Gate ε) :
    p.wp (answered (untilChecked env others)) (fun _ s' => s'.events = s.events) s := by
  induction p generalizing s with
  | done a => rfl
  | call c next ih =>
    have hcall : ((untilChecked env others) c s).2.events = s.events := by
      cases c with
      | publish e => exact absurd rfl (hp.1 e)
      | directory c =>
        simp only [untilChecked]
        split <;> rfl
      | _ => rfl
    refine wp_mono (fun _ _ hs' => hs'.trans hcall) (ih _ (hp.2 _) _)

theorem silent_onDirectory {α : Type} (a : Directory.Action α) : (onDirectory a).run.Only Silent :=
  only_onDirectory (fun _ _ => nofun) (only_true a.run)

theorem silent_rehash (id checked password : String) :
    (rehash id checked password).run.Only Silent := by
  have hhash : (hashPassword password).run.Only Silent := by
    refine only_bind_except ⟨nofun, fun _ => trivial⟩ fun reply => ?_
    rcases reply with _ | _ | hash <;> trivial
  refine only_bind_except hhash fun hash => only_bind_except (silent_onDirectory _) fun u => ?_
  split
  · exact silent_onDirectory _
  · trivial

/-- Once the password has been found right, the login succeeds. -/
theorem wp_renewAndPublish_unchecked (s : Gate ε) (hs : s.events = []) (u : User) :
    (renewAndPublish u password).run.wp (answered (untilChecked env others))
      (fun r s' => r = .ok u.id ∧ s'.events = [.authenticated u.id]) s := by
  have hend (s : Gate ε) (hs : s.events = []) :
      (publish (.authenticated u.id) >>= fun _ => pure u.id : Action String).run.wp
        (answered (untilChecked env others))
        (fun r s' => r = .ok u.id ∧ s'.events = [.authenticated u.id]) s :=
    ⟨rfl, congrArg (· ++ [Event.authenticated u.id]) hs⟩
  unfold renewAndPublish
  refine wp_seq (R := fun r s' => (∃ outdated, r = .ok outdated) ∧ s'.events = [])
    ⟨⟨_, rfl⟩, hs⟩ ?_ (fun _ _ hs' => by cases hs'.1.choose_spec)
  rintro outdated s₁ ⟨-, h₁⟩
  split
  · refine wp_seq (R := fun r s' => r = .ok () ∧ s'.events = []) ?_ (fun _ s' hs' => hend s' hs'.2)
      (fun _ _ hs' => by cases hs'.1)
    rw [wp_tryCatch]
    refine wp_mono (fun r s' hs' => ?_) (wp_silent (silent_rehash u.id u.passwordHash password) s₁)
    cases r with
    | ok _ => exact ⟨rfl, hs'.trans h₁⟩
    | error _ => exact ⟨rfl, hs'.trans h₁⟩
  · exact hend s₁ h₁

theorem wp_authenticate_unchecked (h : t.Readable) (env : Handler interface ε)
    (others : Handler Directory.interface (Tables × ε)) (rules : Rules) (x : ε)
    (hname : loginName ≠ "") (hpassword : password ≠ "") :
    (authenticate rules loginName password).run.wp (answered (untilChecked env others))
      (fun r s => Verdict t rules (fun hash => (env (.verify password hash) x).1) loginName r ∧
        s.events = announced r) ⟨⟨t, x, []⟩, false⟩ := by
  have hfind : (onDirectory (Directory.find (.loginName loginName))).run.wp
      (answered (untilChecked env others)) (fun r s => s = ⟨⟨t, x, []⟩, false⟩ ∧
        (r = .error (.directory .notFound) ∧ (∀ u, ¬ Stands t loginName u) ∨
          ∃ u, r = .ok u ∧ Stands t loginName u)) ⟨⟨t, x, []⟩, false⟩ := by
    rw [wp_onDirectory_unchecked _ rfl]
    rcases find_named h loginName with ⟨hnone, hrun⟩ | ⟨u, hu, hrun⟩
    · rw [hrun]
      exact ⟨rfl, .inl ⟨rfl, hnone⟩⟩
    · rw [hrun]
      exact ⟨rfl, .inr ⟨u, rfl, hu⟩⟩
  refine wp_authenticate_of hname hpassword hfind ?_ ?_ ?_
  · rintro e _ ⟨rfl, ⟨⟨⟩, hnone⟩ | ⟨u, ⟨⟩, -⟩⟩
    exact ⟨.unknown hnone, rfl⟩
  · rintro u _ ⟨rfl, ⟨⟨⟩, -⟩ | ⟨_, ⟨⟩, hu⟩⟩ hnot
    exact ⟨.unverified hu hnot, rfl⟩
  · rintro u _ ⟨rfl, ⟨⟨⟩, -⟩ | ⟨_, ⟨⟩, hu⟩⟩ hadmits
    rw [wp_verifyPassword_answered]
    change AfterCheck _ _ u password ((env (.verify password u.passwordHash) x).1.elim _ _) _
    cases hverify : (env (.verify password u.passwordHash) x).1 with
    | none => exact ⟨.crashed hu hadmits hverify, rfl⟩
    | some valid =>
      cases valid with
      | false => exact ⟨.refused hu hadmits hverify, rfl⟩
      | true =>
        refine wp_mono ?_ (wp_renewAndPublish_unchecked _ rfl u)
        rintro _ s ⟨rfl, hs⟩
        exact ⟨.accepted hu hadmits hverify, hs⟩

/-! ### The answer of a login -/

/-- On readable tables the stored user, the rules and the check decide what a login answers and
announces: who has the login name, may log in and gave the right password is let in. A failing
renewal of the hash, whether calls fail or others interfere, makes no difference. -/
theorem login_decided (h : t.Readable) (env : Handler interface ε)
    (others : Handler Directory.interface (Tables × ε)) (rules : Rules) (x : ε)
    {loginName password : String} (hname : loginName ≠ "") (hpassword : password ≠ "") :
    let verified := fun hash => (env (.verify password hash) x).1
    let after := login env others rules x loginName password t
    (∀ r, after.1 = r ↔ Verdict t rules verified loginName r) ∧
      (∀ id, after.1 = .ok id ↔ ∃ u, Stands t loginName u ∧ u.id = id ∧ rules.Admits u ∧
        verified u.passwordHash = some true) ∧
      after.2.events = announced after.1 ∧
      ∀ (ε' : Type) (env' : Handler interface ε')
        (others' : Handler Directory.interface (Tables × ε')) (x' : ε'),
        (∀ hash, (env' (.verify password hash) x').1 = verified hash) →
        (login env' others' rules x' loginName password t).1 = after.1 ∧
          (login env' others' rules x' loginName password t).2.events = after.2.events := by
  have hrun {ε' : Type} (env' : Handler interface ε')
      (others' : Handler Directory.interface (Tables × ε')) (x' : ε') :
      Verdict t rules (fun hash => (env' (.verify password hash) x').1) loginName
          (login env' others' rules x' loginName password t).1 ∧
        (login env' others' rules x' loginName password t).2.events =
          announced (login env' others' rules x' loginName password t).1 := by
    have hwp := wp_authenticate_unchecked h env' others' rules x' hname hpassword
    rwa [wp_answered] at hwp
  intro verified after
  obtain ⟨hverdict, hevents⟩ : Verdict t rules verified loginName after.1 ∧
    after.2.events = announced after.1 := hrun env others x
  refine ⟨fun r => ⟨fun hr => hr ▸ hverdict, fun hr => hverdict.unique h hr⟩, fun id => ⟨?_, ?_⟩,
    hevents, fun ε' env' others' x' hsame => ?_⟩
  · intro hid
    rw [hid] at hverdict
    cases hverdict with
    | accepted hu hadmits hright => exact ⟨_, hu, rfl, hadmits, hright⟩
  · rintro ⟨u, hu, rfl, hadmits, hright⟩
    exact hverdict.unique h (.accepted hu hadmits hright)
  · obtain ⟨hverdict', hevents'⟩ := hrun env' others' x'
    rw [funext hsame] at hverdict'
    have hr := hverdict'.unique h hverdict
    exact ⟨hr, hevents'.trans (by rw [hr, hevents])⟩

/-- From here on no call of the directory succeeds. -/
def stopped : Handler Directory.interface (Tables × ε)
  | .backend _, s => (.error (.failed "stopped"), s)
  | .lock, s => ((), s)
  | .unlock, s => ((), s)

theorem isDated_member : member.IsDated := Directory.isDated_of_unissued rfl

theorem readable_withMember : withMember.Readable :=
  (Directory.indexed_saved_empty isDated_member).toReadable

/-- Alice's hash is outdated. She is let in although its renewal cannot even read her record. -/
theorem login_decided_member :
    (surroundings (.needsRehash member.passwordHash) ()).1 = true ∧
      (login surroundings stopped .standard () "alice" "secret" withMember).1 = .ok "a" ∧
      (login surroundings stopped .standard () "alice" "secret" withMember).2.events =
        [.authenticated "a"] ∧
      ∀ others,
        (login surroundings others .standard () "alice" "secret" withMember).1 = .ok "a" := by
  have houtdated : marker.needsRehash member.passwordHash = true := by decide +kernel
  have hverified : marker.verify "secret" member.passwordHash = some true := by decide +kernel
  have hstands : Stands withMember "alice" member :=
    ⟨"a", Tables.user?_saved isDated_member "a", by decide⟩
  have hdecided := login_decided readable_withMember surroundings stopped .standard ()
    (show "alice" ≠ "" by decide) (show "secret" ≠ "" by decide)
  have hok := (hdecided.2.1 "a").2 ⟨member, hstands, rfl, by decide, hverified⟩
  refine ⟨houtdated, hok, hdecided.2.2.1.trans (by rw [hok]; rfl), fun others => ?_⟩
  exact (hdecided.2.2.2 Unit surroundings others () fun _ => rfl).1.trans hok

end Accounts.Service
