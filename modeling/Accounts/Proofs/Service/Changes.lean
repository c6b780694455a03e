import Accounts.Proofs.Service.Course

/-!
# The course of each operation

Each operation that changes a stored user saves one user, made from one that it has looked up, and
has stored it with the values that it was asked to set when it returns (`wp_perform`). Only the
renewal of a hash in the course of a login may leave everything as it is.
-/
namespace Accounts.Service

open Backend Program

/-- The user has the values that the operation was asked to set, or has told its caller. -/
def Operation.Sets : Operation → Answer → User → Prop
  | .changeCredentials _ loginName _, _, u => u.loginName = loginName
  | .changeProfileName _ profileName, _, u => u.profileName = profileName
  | .changeEmail _ email, _, u => u.email = email
  | .setEmailVerified _, _, u => u.emailVerified = true
  | .confirmEmail _ email, _, u => u.email = email ∧ u.emailVerified = true
  | .newToken _, a, u => ∃ token, a = .text token ∧ u.resetToken = some token
  | .resetCredentials _ loginName _, _, u =>
    u.loginName = loginName ∧ u.resetToken = none ∧ u.resetTokenIssued = none
  | _, _, _ => True

def Operation.isLogin : Operation → Bool
  | .authenticate _ _ => true
  | _ => false

/-- A success, except of a login, means that the operation has stored what it sets. -/
def Achieved (o : Operation) (i : Bool) : Except ServiceError Answer → View → Prop :=
  post (fun a s => o.isLogin = false → ∃ u, Stored i u s.past ∧ o.Sets a u) fun _ => True

variable {t : Tables} {o : Operation} {i : Bool} {n : Nat} {id : String} {u : User}
  {known : List (Nat × String × User)} {s : View}

theorem Found.isDated {past : Journal} (h : Found t i n id u past) : u.IsDated := by
  obtain ⟨before, after, -, -, hu⟩ := h
  obtain ⟨text, -, hd⟩ := Option.bind_eq_some_iff.1 hu
  exact User.isDated_of_decode? hd

/-! ### Parts of operations -/

theorem wp_require {σ : Type} {Φ : Calls interface σ} {name value : String} {s : σ} :
    (require name value).run.wp Φ (fun _ s' => s' = s) s := by
  unfold require
  split <;> rfl

/-- What comes after an argument is checked starts where the check does. -/
theorem wp_require_seq {σ α : Type} {Φ : Calls interface σ} [Φ.Monotone] {name value : String}
    {f : Unit → Action α} {Q : Except ServiceError α → σ → Prop} {s : σ}
    (hok : (f ()).run.wp Φ Q s) (herror : ∀ e, Q (.error e) s) :
    (require name value >>= f).run.wp Φ Q s := by
  refine wp_seq wp_require ?_ ?_
  · rintro _ _ rfl
    exact hok
  · rintro e _ rfl
    exact herror e

section

variable {σ α : Type} {Φ : Calls interface σ} {name value : String} {f : Unit → Action α}
  {Q : Except ServiceError α → σ → Prop} {s : σ}

theorem wp_require_of_ne (h : value ≠ "") :
    (require name value >>= f).run.wp Φ Q s = (f ()).run.wp Φ Q s := by
  unfold require
  rw [if_neg h]
  rfl

theorem wp_require_of_eq (h : value = "") :
    (require name value >>= f).run.wp Φ Q s =
      Q (.error (.invalidArguments (name ++ " must not be empty"))) s := by
  unfold require
  rw [if_pos h]
  rfl

end

/-- A call that is none of the directory. -/
theorem Ready.ask (h : Ready t i n known s) {c : Call} (hc : ∀ d, c ≠ .directory d) :
    (ask c).run.wp (course t o i) (post (fun reply s' => Ready t i n known s' ∧
      Possible t [] c reply) fun _ => True) s := by
  intro others hothers
  have hafter : Ready t i n known (s.after others i c) := by
    cases c with
    | directory d => exact absurd rfl (hc d)
    | hash password => exact h.after (c := .hash password) hothers rfl rfl
    | verify password hash => exact h.after (c := .verify password hash) hothers rfl rfl
    | needsRehash hash => exact h.after (c := .needsRehash hash) hothers rfl rfl
    | newId => exact h.after (c := .newId) hothers rfl rfl
    | newToken => exact h.after (c := .newToken) hothers rfl rfl
    | now => exact h.after (c := .now) hothers rfl rfl
    | publish e => exact h.after (c := .publish e) hothers rfl rfl
  cases c with
  | directory d => exact absurd rfl (hc d)
  | _ => exact ⟨trivial, fun reply hreply => ⟨hafter, hreply⟩⟩

theorem Stored.publish (h : Stored i u s.past) (e : Event) :
    (publish e).run.wp (course t o i) (post (fun _ s' => Stored i u s'.past) fun _ => True) s :=
  fun others _ => ⟨trivial, fun _ _ => (h.append others).append _⟩

theorem Ready.hashPassword (h : Ready t i n known s) (password : String) :
    (hashPassword password).run.wp (course t o i) (post (fun _ => Ready t i n known) fun _ => True)
      s := by
  unfold Service.hashPassword
  refine wp_seq (h.ask (by simp)) ?_ (fun _ _ _ => trivial)
  rintro x s' ⟨hs', -⟩
  rcases x with _ | _ | hash
  · trivial
  · trivial
  · exact hs'

theorem Ready.verifyPassword (h : Ready t i n known s) (password hash : String) :
    (verifyPassword password hash).run.wp (course t o i)
      (post (fun _ => Ready t i n known) fun _ => True) s := by
  unfold Service.verifyPassword
  refine wp_seq (h.ask (by simp)) ?_ (fun _ _ _ => trivial)
  rintro x s' ⟨hs', -⟩
  cases x with
  | none => trivial
  | some valid => exact hs'

theorem Ready.newToken (h : Ready t i n known s) :
    newToken.run.wp (course t o i) (post (fun _ => Ready t i n known) fun _ => True) s := by
  unfold Service.newToken
  refine wp_seq (h.ask (by simp)) ?_ (fun _ _ _ => trivial)
  rintro x s' ⟨hs', -⟩
  cases x with
  | error e => trivial
  | ok token => exact hs'

theorem Ready.update (h : Ready t i 0 [] s) (hbase : o.lookupsBefore = 0)
    (htarget : o.target? = some id) {change : User → Except ServiceError User}
    (hchange : ∀ b u, change b = .ok u →
      (∀ f, f ∉ o.fields → b.SameAt u f) ∧ (b.IsDated → u.IsDated)) :
    (update id change).run.wp (course t o i)
      (post (fun u s' => Stored i u s'.past ∧ ∃ b, change b = .ok u) fun _ => True) s := by
  unfold Service.update
  refine wp_require_seq ?_ (fun _ => trivial)
  refine wp_seq (wp_onDirectory_post (h.get id)) ?_ (fun _ _ _ => trivial)
  intro b s₁ h₁
  cases hb : change b with
  | error e => trivial
  | ok u =>
    obtain ⟨hsame, hdated⟩ := hchange b u hb
    have hfound := h₁.known _ List.mem_cons_self
    change (Service.save u >>= fun _ => pure u).run.wp _ _ _
    have hknown : (o.lookupsBefore, id, b) ∈ [(0, id, b)] := by
      rw [hbase]
      exact List.mem_cons_self
    have hid (target : String) (ht : o.target? = some target) : id = target :=
      Option.some.inj (htarget.symm.trans ht)
    refine wp_seq (h₁.save hknown hid hsame (hdated hfound.isDated)) ?_ (fun _ _ _ => trivial)
    exact fun _ s₂ h₂ => ⟨h₂, b, hb⟩

/-! ### The operations -/

/-- An update and then an event: what is stored is what the change makes of some user. -/
theorem Ready.update_publish (h : Ready t i 0 [] s) (hbase : o.lookupsBefore = 0)
    (htarget : o.target? = some id) {change : User → Except ServiceError User}
    (hchange : ∀ b u, change b = .ok u →
      ((∀ f, f ∉ o.fields → b.SameAt u f) ∧ (b.IsDated → u.IsDated)) ∧ o.Sets .done u)
    (e : User → Event) :
    (Service.update id change >>= fun u => Service.publish (e u)).run.wp (course t o i)
      (fun r => Achieved o i (r.map fun _ => .done)) s := by
  refine wp_seq (h.update hbase htarget fun b u hb => (hchange b u hb).1) ?_ (fun _ _ _ => trivial)
  rintro u s₁ ⟨hstored, b, hb⟩
  refine wp_mono (fun r s₂ hr => ?_) (hstored.publish (e u))
  cases r with
  | error _ => trivial
  | ok _ => exact fun _ => ⟨u, hr, (hchange b u hb).2⟩

theorem wp_changeProfileName (h : Ready t i 0 [] s) (profileName : String) :
    (changeProfileName id profileName).run.wp (course t (.changeProfileName id profileName) i)
      (fun r => Achieved (.changeProfileName id profileName) i (r.map fun _ => .done)) s := by
  refine wp_require_seq ?_ (fun _ => trivial)
  refine h.update_publish rfl rfl ?_ _
  rintro b _ ⟨⟩
  refine ⟨⟨fun f hf => ?_, fun hb => hb⟩, rfl⟩
  cases f <;> simp_all [Operation.fields, User.SameAt]

theorem wp_changeEmail (h : Ready t i 0 [] s) (email : String) :
    (changeEmail id email).run.wp (course t (.changeEmail id email) i)
      (fun r => Achieved (.changeEmail id email) i (r.map fun _ => .done)) s := by
  refine wp_require_seq ?_ (fun _ => trivial)
  refine h.update_publish rfl rfl ?_ _
  rintro b _ ⟨⟩
  refine ⟨⟨fun f hf => ?_, fun hb => hb⟩, rfl⟩
  cases f <;> simp_all [Operation.fields, User.SameAt]

theorem wp_setEmailVerified (h : Ready t i 0 [] s) :
    (setEmailVerified id).run.wp (course t (.setEmailVerified id) i)
      (fun r => Achieved (.setEmailVerified id) i (r.map fun _ => .done)) s := by
  refine h.update_publish rfl rfl ?_ _
  rintro b _ ⟨⟩
  refine ⟨⟨fun f hf => ?_, fun hb => hb⟩, rfl⟩
  cases f <;> simp_all [Operation.fields, User.SameAt]

theorem wp_confirmEmail (h : Ready t i 0 [] s) (email : String) :
    (confirmEmail id email).run.wp (course t (.confirmEmail id email) i)
      (fun r => Achieved (.confirmEmail id email) i (r.map fun _ => .done)) s := by
  refine wp_require_seq ?_ (fun _ => trivial)
  refine h.update_publish rfl rfl (fun b u hb => ?_) _
  split at hb
  · next hemail =>
    cases hb
    refine ⟨⟨fun f hf => ?_, fun hb => hb⟩, hemail, rfl⟩
    cases f <;> simp_all [Operation.fields, User.SameAt]
  · cases hb

theorem wp_changePassword (h : Ready t i 0 [] s) (password : String) :
    (changePassword id password).run.wp (course t (.changePassword id password) i)
      (fun r => Achieved (.changePassword id password) i (r.map fun _ => .done)) s := by
  refine wp_require_seq ?_ (fun _ => trivial)
  refine wp_seq (h.hashPassword password) ?_ (fun _ _ _ => trivial)
  intro hash s₁ h₁
  refine Ready.update_publish h₁ rfl rfl ?_ _
  rintro b _ ⟨⟩
  refine ⟨⟨fun f hf => ?_, fun hb => hb⟩, trivial⟩
  cases f <;> simp_all [Operation.fields, User.SameAt]

theorem wp_changeCredentials (h : Ready t i 0 [] s) (loginName password : String) :
    (changeCredentials id loginName password).run.wp
      (course t (.changeCredentials id loginName password) i)
      (fun r => Achieved (.changeCredentials id loginName password) i (r.map fun _ => .done))
      s := by
  refine wp_require_seq ?_ (fun _ => trivial)
  refine wp_require_seq ?_ (fun _ => trivial)
  refine wp_seq (h.hashPassword password) ?_ (fun _ _ _ => trivial)
  intro hash s₁ h₁
  refine Ready.update_publish h₁ rfl rfl ?_ _
  rintro b _ ⟨⟩
  refine ⟨⟨fun f hf => ?_, fun hb => hb⟩, rfl⟩
  cases f <;> simp_all [Operation.fields, User.SameAt]

theorem wp_requireField {σ : Type} {Φ : Calls interface σ} {f : SearchField} {s : σ} :
    (requireField f).run.wp Φ (fun _ s' => s' = s) s := by
  cases f <;> exact wp_require

/-- The user that all the fields lead to is the first one that was looked up. -/
theorem wp_findByAll {first : Option User} {fields : List SearchField} (h : Ready t i n known s)
    (hnone : first = none → n = 0) (hsome : ∀ u, first = some u → ∃ id, (0, id, u) ∈ known) :
    (findByAll first fields).run.wp (course t o i) (post (fun r s' => ∀ u, r = some u →
      ∃ n known id, Ready t i n known s' ∧ (0, id, u) ∈ known) fun _ => True) s := by
  induction fields generalizing first n known s with
  | nil =>
    intro u hu
    obtain ⟨id, hid⟩ := hsome u hu
    exact ⟨n, known, id, h, hid⟩
  | cons f fields ih =>
    unfold findByAll
    refine wp_seq wp_requireField ?_ (fun _ _ _ => trivial)
    rintro _ _ rfl
    refine wp_seq (wp_onDirectory_post (h.find f)) ?_ (fun _ _ _ => trivial)
    rintro u s₁ ⟨id, h₁⟩
    split
    · trivial
    · refine ih h₁ (fun hnone => by cases hnone) ?_
      rintro _ ⟨⟩
      cases first with
      | none =>
        rw [hnone rfl]
        exact ⟨id, List.mem_cons_self⟩
      | some v =>
        obtain ⟨id', hid'⟩ := hsome v rfl
        exact ⟨id', List.mem_cons_of_mem _ hid'⟩

theorem wp_newTokenBy (h : Ready t i 0 [] s) (fields : List SearchField) :
    (newTokenBy fields).run.wp (course t (.newToken fields) i)
      (fun r => Achieved (.newToken fields) i (r.map Answer.text)) s := by
  unfold newTokenBy
  refine wp_seq (wp_findByAll h (fun _ => rfl) nofun) ?_ (fun _ _ _ => trivial)
  intro x s₁ h₁
  cases x with
  | none => trivial
  | some b =>
    obtain ⟨n, known, id, h₁, hb⟩ := h₁ b rfl
    refine wp_seq (h₁.newToken) ?_ (fun _ _ _ => trivial)
    intro token s₂ h₂
    refine wp_seq (Ready.ask h₂ (by simp)) ?_ (fun _ _ _ => trivial)
    rintro now s₃ ⟨h₃, hnow⟩
    refine wp_seq (h₃.save hb nofun (fun f hf => ?_) ?_) ?_ (fun _ _ _ => trivial)
    · cases f <;> simp_all [Operation.fields, User.SameAt]
    · rintro _ ⟨⟩
      exact hnow
    intro _ s₄ h₄
    refine wp_seq (Stored.publish h₄ _) ?_ (fun _ _ _ => trivial)
    exact fun _ s₅ h₅ _ => ⟨_, h₅, token, rfl, rfl⟩

theorem wp_findByToken (h : Ready t i n known s) (token : String) :
    (findByToken token).run.wp (course t o i) (post (fun u s' =>
      ∃ id, Ready t i (n + 1) ((n, id, u) :: known) s') fun _ => True) s := by
  unfold findByToken
  rw [wp_tryCatch]
  refine wp_mono (fun r s' hr => ?_) (wp_onDirectory_post (h.find (.resetToken token)))
  cases r with
  | ok u => exact hr
  | error e =>
    simp only
    split <;> trivial

theorem wp_isExpired (h : Ready t i n known s) (rules : Rules) (issued : Option Instant) :
    (isExpired rules issued).run.wp (course t o i) (post (fun _ => Ready t i n known) fun _ => True)
      s := by
  unfold isExpired
  cases issued with
  | none => exact h
  | some issued => exact wp_seq (h.ask (by simp)) (fun _ _ hs' => hs'.1) (fun _ _ _ => trivial)

theorem wp_resetCredentials (h : Ready t i 0 [] s) (rules : Rules)
    (token loginName password : String) :
    (resetCredentials rules token loginName password).run.wp
      (course t (.resetCredentials token loginName password) i) (fun r =>
        Achieved (.resetCredentials token loginName password) i (r.map Answer.text)) s := by
  unfold resetCredentials
  refine wp_require_seq ?_ (fun _ => trivial)
  refine wp_require_seq ?_ (fun _ => trivial)
  refine wp_require_seq ?_ (fun _ => trivial)
  refine wp_seq (wp_findByToken h token) ?_ (fun _ _ _ => trivial)
  rintro b s₁ ⟨id, h₁⟩
  refine wp_seq (wp_isExpired h₁ rules b.resetTokenIssued) ?_ (fun _ _ _ => trivial)
  intro expired s₂ h₂
  cases expired with
  | true => trivial
  | false =>
    refine wp_seq (Ready.hashPassword h₂ password) ?_ (fun _ _ _ => trivial)
    intro hash s₃ h₃
    refine wp_seq (Ready.save h₃ List.mem_cons_self nofun (fun f hf => ?_) nofun) ?_
      (fun _ _ _ => trivial)
    · cases f <;> simp_all [Operation.fields, User.SameAt]
    intro _ s₄ h₄
    refine wp_seq (Stored.publish h₄ _) ?_ (fun _ _ _ => trivial)
    exact fun _ s₅ h₅ _ => ⟨_, h₅, rfl, rfl, rfl⟩

/-- After it has checked the password, a login renews the hash of the record as it is then. -/
theorem wp_rehash {loginName password : String} {b : User} (h : Ready t i 1 [(0, id, b)] s) :
    (rehash b.id b.passwordHash password).run.wp (course t (.authenticate loginName password) i)
      (fun _ _ => True) s := by
  unfold rehash
  refine wp_seq (h.hashPassword password) ?_ (fun _ _ _ => trivial)
  intro hash s₁ h₁
  refine wp_seq (wp_onDirectory_post (Ready.get h₁ b.id)) ?_ (fun _ _ _ => trivial)
  intro u s₂ h₂
  split
  · have hfound := h₂.known _ List.mem_cons_self
    refine wp_mono (fun _ _ _ => trivial) (Ready.save h₂ List.mem_cons_self nofun
      (fun f hf => ?_) hfound.isDated)
    cases f <;> simp_all [Operation.fields, User.SameAt]
  · trivial

theorem wp_authenticate (h : Ready t i 0 [] s) (rules : Rules) (loginName password : String) :
    (authenticate rules loginName password).run.wp (course t (.authenticate loginName password) i)
      (fun _ _ => True) s := by
  unfold authenticate
  refine wp_require_seq ?_ (fun _ => trivial)
  refine wp_require_seq ?_ (fun _ => trivial)
  refine wp_seq (wp_onDirectory_post (h.find (.loginName loginName))) ?_ (fun _ _ _ => trivial)
  rintro b s₁ ⟨id, h₁⟩
  have hend (s : View) : (publish (.authenticated b.id) >>= fun _ => pure b.id).run.wp
      (course t (.authenticate loginName password) i) (fun _ _ => True) s :=
    fun others _ => ⟨trivial, fun _ _ => trivial⟩
  split
  · trivial
  refine wp_seq (Ready.verifyPassword h₁ password b.passwordHash) ?_ (fun _ _ _ => trivial)
  intro valid s₂ h₂
  split
  · trivial
  refine wp_seq (Ready.ask h₂ (by simp)) ?_ (fun _ _ _ => trivial)
  rintro outdated s₃ ⟨h₃, -⟩
  split
  · refine wp_seq (R := fun _ _ => True) ?_ (fun _ s' _ => hend s') (fun _ _ _ => trivial)
    rw [wp_tryCatch]
    refine wp_mono (fun r s' _ => ?_) (wp_rehash h₃)
    cases r <;> trivial
  · exact hend s₃

/-! ### All operations -/

theorem wp_perform (rules : Rules) (hfields : o.fields ≠ []) (t : Tables) (i : Bool) :
    (perform rules o).run.wp (course t o i) (Achieved o i) ⟨[], false⟩ := by
  have h := ready_start t i
  cases o with
  | createUser profileName email loginName password => exact absurd rfl hfields
  | getUser id => exact absurd rfl hfields
  | changeCredentials id loginName password =>
    rw [perform, wp_map_except]
    exact wp_changeCredentials h loginName password
  | changePassword id password =>
    rw [perform, wp_map_except]
    exact wp_changePassword h password
  | changeProfileName id profileName =>
    rw [perform, wp_map_except]
    exact wp_changeProfileName h profileName
  | changeEmail id email =>
    rw [perform, wp_map_except]
    exact wp_changeEmail h email
  | authenticate loginName password =>
    rw [perform, wp_map_except]
    refine wp_mono (fun r s _ => ?_) (wp_authenticate h rules loginName password)
    cases r with
    | ok _ => exact nofun
    | error _ => trivial
  | setEmailVerified id =>
    rw [perform, wp_map_except]
    exact wp_setEmailVerified h
  | confirmEmail id email =>
    rw [perform, wp_map_except]
    exact wp_confirmEmail h email
  | newToken fields =>
    rw [perform, wp_map_except]
    exact wp_newTokenBy h fields
  | resetCredentials token loginName password =>
    rw [perform, wp_map_except]
    exact wp_resetCredentials h rules token loginName password

end Accounts.Service
