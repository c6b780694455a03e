import Accounts.Proofs.Service.Alone

/-!
# The effect of an operation

An operation alone saves one user at most: a new one, or one made from the stored user that all its
searches find. If it fails it has saved nobody; if it succeeds its answer and its event tell of that
user (`outcome_effect`).
-/
namespace Accounts

/-- The user with a token that was issued at this time. -/
def User.withToken (u : User) (token : String) (time : Instant) : User :=
  { u with resetToken := some token, resetTokenIssued := some time }

/-- The user with new credentials and no token. -/
def User.withCredentials (u : User) (loginName hash : String) : User :=
  { u with
    loginName := loginName, passwordHash := hash, resetToken := none, resetTokenIssued := none }

namespace Service

open Backend Program

variable {ε : Type}

/-! ### What an operation makes of a user -/

/-- What the operation looks up to find its user. -/
def Operation.searches : Operation → List SearchField
  | .createUser _ _ _ _ => []
  | .getUser id => [.id id]
  | .changeCredentials id _ _ => [.id id]
  | .changePassword id _ => [.id id]
  | .changeProfileName id _ => [.id id]
  | .changeEmail id _ => [.id id]
  | .authenticate loginName _ => [.loginName loginName]
  | .setEmailVerified id => [.id id]
  | .confirmEmail id _ => [.id id]
  | .newToken fields => fields
  | .resetCredentials token _ _ => [.resetToken token]

/-- The stored user that all the searches of the operation find. -/
structure Reaches (t : Tables) (o : Operation) (u : User) : Prop where
  stored : t.user? u.id = some u
  asked : o.searches ≠ []
  found : ∀ f ∈ o.searches, (Directory.runAlone (Directory.find f) t).1 = .ok u

/-- The hasher calls the hash outdated, asked when it has checked the password against it. -/
def Outdated (env : Handler interface ε) (x : ε) (password hash : String) : Prop :=
  (env (.needsRehash hash) (env (.verify password hash) x).2).1 = true

/-- What the operation stores in place of its user. -/
inductive Alters (env : Handler interface ε) (x : ε) : Operation → User → User → Prop
  | credentials (id loginName password : String) (u : User) (hash : String) :
    Alters env x (.changeCredentials id loginName password) u
      { u with loginName := loginName, passwordHash := hash }
  | password (id password : String) (u : User) (hash : String) :
    Alters env x (.changePassword id password) u { u with passwordHash := hash }
  | profileName (id profileName : String) (u : User) :
    Alters env x (.changeProfileName id profileName) u { u with profileName := profileName }
  | email (id email : String) (u : User) :
    Alters env x (.changeEmail id email) u { u with email := email }
  | renewed (loginName password : String) {u : User} (hold : Outdated env x password u.passwordHash)
    (hash : String) :
    Alters env x (.authenticate loginName password) u { u with passwordHash := hash }
  | verified (id : String) (u : User) :
    Alters env x (.setEmailVerified id) u { u with emailVerified := true }
  | confirmed (id : String) {email : String} {u : User} (hemail : u.email = email) :
    Alters env x (.confirmEmail id email) u { u with emailVerified := true }
  | issued (fields : List SearchField) (u : User) (token : String) :
    Alters env x (.newToken fields) u (u.withToken token (env .now (env .newToken x).2).1)
  | redeemed {token : String} (loginName password : String) {u : User}
    (htoken : u.unique? .resetToken = some token) (hash : String) :
    Alters env x (.resetCredentials token loginName password) u (u.withCredentials loginName hash)

/-- The user that the operation may save on these tables. -/
inductive Writes (env : Handler interface ε) (x : ε) (t : Tables) : Operation → User → Prop
  | created (profileName email loginName password id hash : String) :
    Writes env x t (.createUser profileName email loginName password)
      (.create id profileName email loginName hash)
  | altered {o : Operation} {u v : User} (hu : Reaches t o u) (hv : Alters env x o u v) :
    Writes env x t o v

/-- What the operation answers when this is its user. -/
def Operation.answer : Operation → User → Answer
  | .createUser _ _ _ _, u => .text u.id
  | .getUser _, u => .user u
  | .authenticate _ _, u => .text u.id
  | .newToken _, u => .text (u.resetToken.getD "")
  | .resetCredentials _ _ _, u => .text u.id
  | _, _ => .done

/-- What the operation announces when this is its user. -/
def Operation.event? : Operation → User → Option Event
  | .createUser _ email loginName _, u => some (.created u.id email loginName)
  | .getUser _, _ => none
  | .changeCredentials id loginName _, _ => some (.credentialsChanged id loginName)
  | .changePassword id _, _ => some (.passwordChanged id)
  | .changeProfileName id profileName, _ => some (.profileNameChanged id profileName)
  | .changeEmail id email, _ => some (.emailChanged id email)
  | .authenticate _ _, u => some (.authenticated u.id)
  | .setEmailVerified id, u => some (.emailVerified id u.email)
  | .confirmEmail id email, _ => some (.emailVerified id email)
  | .newToken _, u => some (.tokenCreated u.id)
  | .resetCredentials _ loginName _, u => some (.credentialsReset u.id loginName)

/-- The operation can succeed without a save. -/
def Operation.isLook : Operation → Bool
  | .getUser _ => true
  | .authenticate _ _ => true
  | _ => false

/-- The tables are as at first, or a save of the operation has been refused on them. -/
def Spared (env : Handler interface ε) (x : ε) (t : Tables) (o : Operation) (t' : Tables) : Prop :=
  t' = t ∨ ∃ v e, Writes env x t o v ∧ Directory.runAlone (Directory.save v) t = (.error e, t')

/-- All that an operation can come to. -/
inductive Effect (env : Handler interface ε) (x : ε) (t : Tables) (o : Operation) :
    Except ServiceError Answer → Solo ε → Prop
  | failed {e : ServiceError} {s : Solo ε} (hspared : Spared env x t o s.tables)
    (hevents : s.events = []) : Effect env x t o (.error e) s
  | looked {u : User} {s : Solo ε} (hlook : o.isLook = true) (hu : Reaches t o u)
    (hspared : Spared env x t o s.tables) (hevents : s.events = (o.event? u).toList) :
    Effect env x t o (.ok (o.answer u)) s
  | written {v : User} {s : Solo ε} (hv : Writes env x t o v)
    (hsaved : Directory.runAlone (Directory.save v) t = (.ok (), s.tables))
    (hevents : s.events = (o.event? v).toList) : Effect env x t o (.ok (o.answer v)) s

variable {env : Handler interface ε} {x : ε} {o : Operation} {t : Tables} {s : Solo ε} {u v : User}

/-! ### How operations end -/

theorem Untouched.failed (h : Untouched t s) (e : ServiceError) :
    Effect env x t o (.error e) s :=
  .failed (Or.inl h.tables) h.events

/-- The user has been saved, and nothing announced. -/
structure Saved (env : Handler interface ε) (x : ε) (t : Tables) (o : Operation) (v : User)
    (s : Solo ε) : Prop where
  writes : Writes env x t o v
  tables : Directory.runAlone (Directory.save v) t = (.ok (), s.tables)
  events : s.events = []

/-- No user has been saved, and nothing announced. -/
structure Unsaved (env : Handler interface ε) (x : ε) (t : Tables) (o : Operation)
    (s : Solo ε) : Prop where
  spared : Spared env x t o s.tables
  events : s.events = []

theorem Untouched.unsaved (h : Untouched t s) : Unsaved env x t o s := ⟨Or.inl h.tables, h.events⟩

theorem Untouched.save_writes (h : Untouched t s) (hv : Writes env x t o v) :
    (Service.save v).run.wp (answered (alone env))
      (post (fun _ => Saved env x t o v) (Unsaved env x t o)) s := by
  refine wp_mono ?_ (h.save v)
  rintro r s' ⟨rfl, htables, hevents⟩
  cases hsave : (Directory.runAlone (Directory.save v) t).1 with
  | ok _ => exact ⟨hv, Prod.ext hsave htables.symm, hevents⟩
  | error e => exact ⟨Or.inr ⟨v, e, hv, Prod.ext hsave htables.symm⟩, hevents⟩

/-- The last step of an operation that has saved a user. -/
theorem Saved.publish (h : Saved env x t o v s) {e : Event} (hevent : o.event? v = some e) :
    (Service.publish e).run.wp (answered (alone env))
      (fun r s' => r = .ok () ∧ Effect env x t o (.ok (o.answer v)) s') s := by
  refine wp_mono ?_ (wp_publish e)
  rintro r s' ⟨rfl, htables, hevents⟩
  refine ⟨rfl, .written h.writes (h.tables.trans (by rw [htables])) ?_⟩
  rw [hevents, h.events, hevent]
  rfl

/-- The last steps of an operation: it saves a user, announces that, and answers. -/
theorem Untouched.save_publish (h : Untouched t s) (hv : Writes env x t o v) {e : Event}
    (hevent : o.event? v = some e) {α : Type} {b : α} {f : α → Answer}
    (hanswer : f b = o.answer v) :
    (Service.save v >>= fun _ => Service.publish e >>= fun _ => pure b).run.wp
      (answered (alone env)) (fun r => Effect env x t o (r.map f)) s := by
  refine wp_seq (h.save_writes hv) ?_ (fun _ _ hs' => .failed hs'.spared hs'.events)
  intro _ s₁ hsaved
  refine wp_seq (Saved.publish hsaved hevent) ?_ (fun _ _ hs' => by cases hs'.1)
  rintro _ s₂ ⟨-, heffect⟩
  rw [← hanswer] at heffect
  exact heffect

/-- The searches of an operation that makes one find its user. -/
theorem reaches_of_find (h : t.Named) {f : SearchField} (hsearches : o.searches = [f])
    (hu : (Directory.runAlone (Directory.find f) t).1 = .ok u) : Reaches t o u := by
  obtain ⟨id, hid⟩ := Directory.exists_user?_of_runAlone_find hu
  have hname : u.id = id := h.id_eq hid
  rw [← hname] at hid
  refine ⟨hid, by simp [hsearches], ?_⟩
  simpa [hsearches] using hu

theorem Untouched.update (h : Untouched t s) (hnamed : t.Named) {id : String}
    (hsearches : o.searches = [.id id]) {change : User → Except ServiceError User}
    (hchange : ∀ u v, change u = .ok v → Alters env x o u v) :
    (update id change).run.wp (answered (alone env))
      (post (fun v => Saved env x t o v) (Unsaved env x t o)) s := by
  unfold Service.update
  refine wp_require_seq ?_ (fun _ => h.unsaved)
  refine wp_seq (wp_find (.id id)) ?_ (fun _ _ hs' => hs'.1 ▸ h.unsaved)
  rintro u _ ⟨rfl, hu⟩
  cases hv : change u with
  | error e => exact h.unsaved
  | ok v =>
    have hfound := hu u rfl
    rw [h.tables] at hfound
    have hwrites : Writes env x t o v :=
      .altered (reaches_of_find hnamed hsearches hfound) (hchange u v hv)
    change (Service.save v >>= fun _ => pure v).run.wp _ _ _
    exact wp_seq (h.save_writes hwrites) (fun _ _ hs' => hs') (fun _ _ hs' => hs')

theorem Untouched.update_publish (h : Untouched t s) (hnamed : t.Named) {id : String}
    (hsearches : o.searches = [.id id]) {change : User → Except ServiceError User}
    (hchange : ∀ u v, change u = .ok v → Alters env x o u v) {e : User → Event}
    (hevent : ∀ v, o.event? v = some (e v)) (hanswer : ∀ v, o.answer v = .done) :
    (Service.update id change >>= fun u => Service.publish (e u)).run.wp (answered (alone env))
      (fun r => Effect env x t o (r.map fun _ => .done)) s := by
  refine wp_seq (h.update hnamed hsearches hchange) ?_
    (fun _ _ hs' => .failed hs'.spared hs'.events)
  intro v s₁ hsaved
  refine wp_mono ?_ (Saved.publish hsaved (hevent v))
  rintro r s₂ ⟨rfl, heffect⟩
  rw [hanswer] at heffect
  exact heffect

/-! ### The operations -/

theorem effect_createUser (h : Untouched t s) (profileName email loginName password : String) :
    (createUser profileName email loginName password).run.wp (answered (alone env)) (fun r =>
      Effect env x t (.createUser profileName email loginName password) (r.map Answer.text)) s := by
  unfold createUser
  refine wp_require_seq ?_ (fun e => h.failed e)
  refine wp_require_seq ?_ (fun e => h.failed e)
  refine wp_require_seq ?_ (fun e => h.failed e)
  refine wp_require_seq ?_ (fun e => h.failed e)
  refine wp_seq (h.hashPassword password) ?_ (fun e _ hs' => Untouched.failed hs' e)
  intro hash s₁ h₁
  refine wp_seq (Untouched.newId h₁) ?_ (fun e _ hs' => Untouched.failed hs' e)
  intro id s₂ h₂
  exact Untouched.save_publish h₂ (.created profileName email loginName password id hash) rfl rfl

theorem effect_getUser (h : Untouched t s) (hnamed : t.Named) (id : String) :
    (getUser id).run.wp (answered (alone env))
      (fun r => Effect env x t (.getUser id) (r.map Answer.user)) s := by
  refine wp_require_seq ?_ (fun e => h.failed e)
  refine wp_mono ?_ (wp_find (.id id))
  rintro r _ ⟨rfl, hu⟩
  cases r with
  | error e => exact h.failed e
  | ok u =>
    have hfound := hu u rfl
    rw [h.tables] at hfound
    exact .looked rfl (reaches_of_find hnamed rfl hfound) (Or.inl h.tables) h.events

theorem effect_changeCredentials (h : Untouched t s) (hnamed : t.Named)
    (id loginName password : String) :
    (changeCredentials id loginName password).run.wp (answered (alone env))
      (fun r => Effect env x t (.changeCredentials id loginName password) (r.map fun _ => .done))
      s := by
  refine wp_require_seq ?_ (fun e => h.failed e)
  refine wp_require_seq ?_ (fun e => h.failed e)
  refine wp_seq (h.hashPassword password) ?_ (fun e _ hs' => Untouched.failed hs' e)
  intro hash s₁ h₁
  refine Untouched.update_publish h₁ hnamed rfl ?_ (fun _ => rfl) (fun _ => rfl)
  rintro u _ ⟨⟩
  exact .credentials id loginName password u hash

theorem effect_changePassword (h : Untouched t s) (hnamed : t.Named) (id password : String) :
    (changePassword id password).run.wp (answered (alone env))
      (fun r => Effect env x t (.changePassword id password) (r.map fun _ => .done)) s := by
  refine wp_require_seq ?_ (fun e => h.failed e)
  refine wp_seq (h.hashPassword password) ?_ (fun e _ hs' => Untouched.failed hs' e)
  intro hash s₁ h₁
  refine Untouched.update_publish h₁ hnamed rfl ?_ (fun _ => rfl) (fun _ => rfl)
  rintro u _ ⟨⟩
  exact .password id password u hash

theorem effect_changeProfileName (h : Untouched t s) (hnamed : t.Named) (id profileName : String) :
    (changeProfileName id profileName).run.wp (answered (alone env))
      (fun r => Effect env x t (.changeProfileName id profileName) (r.map fun _ => .done)) s := by
  refine wp_require_seq ?_ (fun e => h.failed e)
  refine h.update_publish hnamed rfl ?_ (fun _ => rfl) (fun _ => rfl)
  rintro u _ ⟨⟩
  exact .profileName id profileName u

theorem effect_changeEmail (h : Untouched t s) (hnamed : t.Named) (id email : String) :
    (changeEmail id email).run.wp (answered (alone env))
      (fun r => Effect env x t (.changeEmail id email) (r.map fun _ => .done)) s := by
  refine wp_require_seq ?_ (fun e => h.failed e)
  refine h.update_publish hnamed rfl ?_ (fun _ => rfl) (fun _ => rfl)
  rintro u _ ⟨⟩
  exact .email id email u

theorem effect_setEmailVerified (h : Untouched t s) (hnamed : t.Named) (id : String) :
    (setEmailVerified id).run.wp (answered (alone env))
      (fun r => Effect env x t (.setEmailVerified id) (r.map fun _ => .done)) s := by
  refine h.update_publish hnamed rfl ?_ (fun _ => rfl) (fun _ => rfl)
  rintro u _ ⟨⟩
  exact .verified id u

theorem effect_confirmEmail (h : Untouched t s) (hnamed : t.Named) (id email : String) :
    (confirmEmail id email).run.wp (answered (alone env))
      (fun r => Effect env x t (.confirmEmail id email) (r.map fun _ => .done)) s := by
  refine wp_require_seq ?_ (fun e => h.failed e)
  refine h.update_publish hnamed rfl (fun u v hv => ?_) (fun _ => rfl) (fun _ => rfl)
  split at hv
  · next hemail =>
    cases hv
    exact .confirmed id hemail
  · cases hv

/-- A login that renews the hash saves the user that it has found. -/
theorem Untouched.rehash (h : Untouched t s) {loginName password : String}
    (hu : Reaches t (.authenticate loginName password) u)
    (hold : Outdated env x password u.passwordHash) :
    (rehash u.id u.passwordHash password).run.wp (answered (alone env)) (fun _ s' =>
      (∃ hash,
        Saved env x t (.authenticate loginName password) { u with passwordHash := hash } s') ∨
        Unsaved env x t (.authenticate loginName password) s') s := by
  unfold Service.rehash
  refine wp_seq (h.hashPassword password) ?_ (fun _ _ hs' => Or.inr (Untouched.unsaved hs'))
  intro hash s₁ h₁
  have h₁ : Untouched t s₁ := h₁
  refine wp_seq (wp_find (.id u.id)) ?_ (fun _ _ hs' => Or.inr (hs'.1 ▸ h₁.unsaved))
  rintro w _ ⟨rfl, hw⟩
  obtain rfl : w = u := by
    have hstored := Directory.user?_of_runAlone_get (hw w rfl)
    rw [h₁.tables, hu.stored] at hstored
    exact (Option.some.inj hstored).symm
  split
  · refine wp_mono (fun r s' hs' => ?_)
      (h₁.save_writes (.altered hu (.renewed loginName password hold hash)))
    cases r with
    | ok _ => exact Or.inl ⟨hash, hs'⟩
    | error _ => exact Or.inr hs'
  · exact Or.inr h₁.unsaved

theorem effect_authenticate (h : Untouched t s) (haround : s.around = x) (hnamed : t.Named)
    (rules : Rules) (loginName password : String) :
    (authenticate rules loginName password).run.wp (answered (alone env))
      (fun r => Effect env x t (.authenticate loginName password) (r.map Answer.text)) s := by
  unfold authenticate
  refine wp_require_seq ?_ (fun e => h.failed e)
  refine wp_require_seq ?_ (fun e => h.failed e)
  refine wp_seq (wp_find (.loginName loginName)) ?_ (fun e _ hs' => hs'.1 ▸ h.failed e)
  rintro u _ ⟨rfl, hfound⟩
  have hu : Reaches t (.authenticate loginName password) u := by
    have hfound := hfound u rfl
    rw [h.tables] at hfound
    exact reaches_of_find hnamed rfl hfound
  -- the end of a login, whatever has become of the hash
  have hend {s' : Solo ε} (hs' : (∃ hash,
      Saved env x t (.authenticate loginName password) { u with passwordHash := hash } s') ∨
        Unsaved env x t (.authenticate loginName password) s') :
      (Service.publish (.authenticated u.id) >>= fun _ => pure u.id).run.wp (answered (alone env))
        (fun r => Effect env x t (.authenticate loginName password) (r.map Answer.text)) s' := by
    rcases hs' with ⟨hash, hsaved⟩ | hunsaved
    · refine wp_seq (hsaved.publish rfl) ?_ (fun _ _ hs'' => by cases hs''.1)
      exact fun _ _ hs'' => hs''.2
    · refine wp_seq (wp_publish _) ?_ (fun _ _ hs'' => by cases hs''.1)
      rintro _ s'' ⟨-, htables, hevents⟩
      rw [hunsaved.events] at hevents
      exact .looked rfl hu (htables ▸ hunsaved.spared) hevents
  split
  · exact h.failed _
  refine wp_seq (h.verifyPassword password u.passwordHash) ?_ (fun e _ hs' => hs'.2.failed e)
  rintro valid s₁ ⟨haround₁, h₁⟩
  split
  · exact h₁.failed _
  refine wp_seq (h₁.ask (by simp) (by simp)) ?_ (fun e _ hs' => hs'.2.2.failed e)
  rintro outdated s₂ ⟨houtdated, -, h₂⟩
  split
  · next hyes =>
    have hold : Outdated env x password u.passwordHash := by
      rw [haround₁, haround] at houtdated
      exact (Except.ok.inj houtdated).symm.trans hyes
    refine wp_seq (R := fun r s' => r = .ok () ∧ ((∃ hash,
      Saved env x t (.authenticate loginName password) { u with passwordHash := hash } s') ∨
        Unsaved env x t (.authenticate loginName password) s')) ?_ (fun _ _ hs' => hend hs'.2)
      (fun _ _ hs' => by cases hs'.1)
    rw [wp_tryCatch]
    refine wp_mono (fun r s' hs' => ?_) (h₂.rehash hu hold)
    cases r with
    | ok _ => exact ⟨rfl, hs'⟩
    | error _ => exact ⟨rfl, hs'⟩
  · exact hend (Or.inr h₂.unsaved)

/-- All the fields find the one user. -/
theorem wp_findByAll_alone (hnamed : s.tables.Named) (fields : List SearchField)
    {known : Option User} (hknown : ∀ k, known = some k → s.tables.user? k.id = some k) :
    (findByAll known fields).run.wp (answered (alone env)) (fun r s' => s' = s ∧
      ∀ u, r = .ok (some u) → s.tables.user? u.id = some u ∧ (known = some u ∨ fields ≠ []) ∧
        (∀ k, known = some k → k = u) ∧
        ∀ f ∈ fields, (Directory.runAlone (Directory.find f) s.tables).1 = .ok u) s := by
  induction fields generalizing known with
  | nil =>
    refine ⟨rfl, fun u hu => ?_⟩
    have hu : known = some u := Except.ok.inj hu
    refine ⟨hknown u hu, Or.inl hu, fun k hk => ?_, by simp⟩
    rw [hu] at hk
    exact (Option.some.inj hk).symm
  | cons f fields ih =>
    unfold findByAll
    refine wp_seq wp_requireField ?_ (fun _ _ hs' => ⟨hs', fun _ h => by cases h⟩)
    rintro _ _ rfl
    refine wp_seq (wp_find f) ?_ (fun _ _ hs' => ⟨hs'.1, fun _ h => by cases h⟩)
    rintro w _ ⟨rfl, hw⟩
    have hfound := hw w rfl
    obtain ⟨id, hstored⟩ := Directory.exists_user?_of_runAlone_find hfound
    have hname : w.id = id := hnamed.id_eq hstored
    rw [← hname] at hstored
    split
    · exact ⟨rfl, fun _ h => by cases h⟩
    · next hsame =>
      -- whoever is known already has the id of the user found, and so is that user
      have hone (k : User) (hk : known = some k) : k = w := by
        have hid : k.id = w.id := by
          simpa [hk] using hsame
        have hkstored := hknown k hk
        rw [hid, hstored] at hkstored
        exact (Option.some.inj hkstored).symm
      have hgetD : known.getD w = w := by
        cases known with
        | none => rfl
        | some k => exact hone k rfl
      rw [hgetD]
      refine wp_mono ?_ (ih fun k hk => by cases hk; exact hstored)
      rintro r s' ⟨hs', hr⟩
      refine ⟨hs', fun u hu => ?_⟩
      obtain ⟨hu', -, hwu, hall⟩ := hr u hu
      obtain rfl : w = u := hwu w rfl
      exact ⟨hu', Or.inr (List.cons_ne_nil _ _), hone, List.forall_mem_cons.2 ⟨hfound, hall⟩⟩

theorem effect_newTokenBy (h : Untouched t s) (haround : s.around = x) (hnamed : t.Named)
    (fields : List SearchField) :
    (newTokenBy fields).run.wp (answered (alone env))
      (fun r => Effect env x t (.newToken fields) (r.map Answer.text)) s := by
  have hnamed' : s.tables.Named := by rwa [h.tables]
  unfold newTokenBy
  refine wp_seq (wp_findByAll_alone hnamed' fields nofun) ?_ (fun e _ hs' => hs'.1 ▸ h.failed e)
  rintro found _ ⟨rfl, hfound⟩
  cases found with
  | none => exact h.failed _
  | some u =>
    obtain ⟨hstored, hsome, -, hall⟩ := hfound u rfl
    rw [h.tables] at hstored hall
    have hu : Reaches t (.newToken fields) u := ⟨hstored, hsome.resolve_left nofun, hall⟩
    refine wp_seq h.newToken ?_ (fun e _ hs' => hs'.2.failed e)
    rintro token s₁ ⟨haround₁, h₁⟩
    refine wp_seq (h₁.ask (by simp) (by simp)) ?_ (fun e _ hs' => hs'.2.2.failed e)
    rintro now s₂ ⟨hnow, -, h₂⟩
    rw [haround₁, haround] at hnow
    cases hnow
    exact h₂.save_publish (.altered hu (.issued fields u token)) rfl rfl

theorem wp_findByToken_alone (token : String) :
    (findByToken token).run.wp (answered (alone env)) (fun r s' => s' = s ∧ ∀ u, r = .ok u →
      (Directory.runAlone (Directory.find (.resetToken token)) s.tables).1 = .ok u) s := by
  unfold findByToken
  rw [wp_tryCatch]
  refine wp_mono ?_ (wp_find (.resetToken token))
  rintro r _ ⟨rfl, hr⟩
  cases r with
  | ok u => exact ⟨rfl, hr⟩
  | error e =>
    simp only
    split
    · exact ⟨rfl, nofun⟩
    · exact ⟨rfl, nofun⟩

theorem Untouched.isExpired (h : Untouched t s) (rules : Rules) (issued : Option Instant) :
    (isExpired rules issued).run.wp (answered (alone env)) (fun _ => Untouched t) s := by
  unfold Service.isExpired
  cases issued with
  | none => exact h
  | some issued =>
    exact wp_seq (h.ask (by simp) (by simp)) (fun _ _ hs' => hs'.2.2) (fun _ _ hs' => hs'.2.2)

theorem effect_resetCredentials (h : Untouched t s) (hnamed : t.Named) (rules : Rules)
    (token loginName password : String) :
    (resetCredentials rules token loginName password).run.wp (answered (alone env)) (fun r =>
      Effect env x t (.resetCredentials token loginName password) (r.map Answer.text)) s := by
  unfold resetCredentials
  refine wp_require_seq ?_ (fun e => h.failed e)
  refine wp_require_seq ?_ (fun e => h.failed e)
  refine wp_require_seq ?_ (fun e => h.failed e)
  refine wp_seq (wp_findByToken_alone token) ?_ (fun e _ hs' => hs'.1 ▸ h.failed e)
  rintro u _ ⟨rfl, hfound⟩
  have hfound := hfound u rfl
  rw [h.tables] at hfound
  have hu : Reaches t (.resetCredentials token loginName password) u :=
    reaches_of_find hnamed rfl hfound
  obtain ⟨-, -, -, htoken⟩ := Directory.runAlone_findOwner_eq_ok_iff_entry.1 hfound
  refine wp_seq (h.isExpired rules u.resetTokenIssued) ?_ (fun e _ hs' => Untouched.failed hs' e)
  intro expired s₁ h₁
  cases expired with
  | true => exact Untouched.failed h₁ _
  | false =>
    refine wp_seq (Untouched.hashPassword h₁ password) ?_ (fun e _ hs' => Untouched.failed hs' e)
    intro hash s₂ h₂
    exact Untouched.save_publish h₂ (.altered hu (.redeemed loginName password htoken hash)) rfl rfl

/-! ### All operations -/

/-- An operation fails and has saved nobody, or it has found or saved its user and tells so. -/
theorem outcome_effect (hnamed : t.Named) (env : Handler interface ε) (rules : Rules) (x : ε)
    (o : Operation) :
    Effect env x t o (outcome env rules x o t).1 (outcome env rules x o t).2 := by
  have h : Untouched t (⟨t, x, []⟩ : Solo ε) := ⟨rfl, rfl⟩
  unfold outcome
  rw [← wp_answered (alone env) _ (Effect env x t o)]
  cases o with
  | createUser profileName email loginName password =>
    rw [perform, wp_map_except]
    exact effect_createUser h profileName email loginName password
  | getUser id =>
    rw [perform, wp_map_except]
    exact effect_getUser h hnamed id
  | changeCredentials id loginName password =>
    rw [perform, wp_map_except]
    exact effect_changeCredentials h hnamed id loginName password
  | changePassword id password =>
    rw [perform, wp_map_except]
    exact effect_changePassword h hnamed id password
  | changeProfileName id profileName =>
    rw [perform, wp_map_except]
    exact effect_changeProfileName h hnamed id profileName
  | changeEmail id email =>
    rw [perform, wp_map_except]
    exact effect_changeEmail h hnamed id email
  | authenticate loginName password =>
    rw [perform, wp_map_except]
    exact effect_authenticate h rfl hnamed rules loginName password
  | setEmailVerified id =>
    rw [perform, wp_map_except]
    exact effect_setEmailVerified h hnamed id
  | confirmEmail id email =>
    rw [perform, wp_map_except]
    exact effect_confirmEmail h hnamed id email
  | newToken fields =>
    rw [perform, wp_map_except]
    exact effect_newTokenBy h rfl hnamed fields
  | resetCredentials token loginName password =>
    rw [perform, wp_map_except]
    exact effect_resetCredentials h hnamed rules token loginName password

end Service

end Accounts
