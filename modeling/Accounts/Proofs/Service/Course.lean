import Accounts.Proofs.Directory.SoleWrite
import Accounts.Service.Operation

/-!
# An operation among the calls of another

Two operations on one service whose directory has one lock. The journal of their calls tells what
the tables are, which records an operation has looked up and what it has stored. `course` lets the
other operation make any calls between two calls of this one, except that it cannot change the
tables while this one has the lock, and asks of this one that it changes nothing without the lock
and stores one record, made from one that it has looked up by changes of its own fields only.
-/
namespace Accounts

/-- The two users have the same value of the field. -/
def User.SameAt (u v : User) : User.Field → Prop
  | .id => u.id = v.id
  | .profileName => u.profileName = v.profileName
  | .loginName => u.loginName = v.loginName
  | .passwordHash => u.passwordHash = v.passwordHash
  | .email => u.email = v.email
  | .emailVerified => u.emailVerified = v.emailVerified
  | .resetToken => u.resetToken = v.resetToken
  | .resetTokenIssued => u.resetTokenIssued = v.resetTokenIssued

instance (u v : User) (f : User.Field) : Decidable (u.SameAt v f) := by
  cases f <;> exact inferInstanceAs (Decidable (_ = _))

theorem User.SameAt.refl (u : User) (f : User.Field) : u.SameAt u f := by
  cases f <;> rfl

theorem User.SameAt.trans {u v w : User} {f : User.Field} (h : u.SameAt v f) (h' : v.SameAt w f) :
    u.SameAt w f := by
  cases f <;> exact Eq.trans h h'

theorem User.SameAt.symm {u v : User} {f : User.Field} (h : u.SameAt v f) : v.SameAt u f := by
  cases f <;> exact Eq.symm h

namespace Service

open Backend Program

/-! ### What an operation changes -/

/-- The fields of a stored user that the operation changes. -/
def Operation.fields : Operation → List User.Field
  | .changeCredentials _ _ _ => [.loginName, .passwordHash]
  | .changePassword _ _ => [.passwordHash]
  | .changeProfileName _ _ => [.profileName]
  | .changeEmail _ _ => [.email]
  | .authenticate _ _ => [.passwordHash]
  | .setEmailVerified _ => [.emailVerified]
  | .confirmEmail _ _ => [.emailVerified]
  | .newToken _ => [.resetToken, .resetTokenIssued]
  | .resetCredentials _ _ _ => [.loginName, .passwordHash, .resetToken, .resetTokenIssued]
  | .createUser _ _ _ _ => []
  | .getUser _ => []

/-- The id of the user that the operation is asked to change. -/
def Operation.target? : Operation → Option String
  | .changeCredentials id _ _ => some id
  | .changePassword id _ => some id
  | .changeProfileName id _ => some id
  | .changeEmail id _ => some id
  | .setEmailVerified id => some id
  | .confirmEmail id _ => some id
  | _ => none

/-- How many records the operation looks up before the one that it changes. -/
def Operation.lookupsBefore : Operation → Nat
  | .authenticate _ _ => 1
  | _ => 0

/-! ### What a journal tells -/

/-- Calls, each with the one of two operations that made it. -/
abbrev Journal : Type := List (Bool × Call)

/-- The tables after these calls. -/
def replay (t : Tables) (past : Journal) : Tables :=
  past.foldl (fun t e => match e.2 with
    | .directory (.backend r) => (Tables.respond r t).2
    | _ => t) t

def isLook : Request → Bool
  | .record _ => true
  | .owner _ _ => true
  | _ => false

/-- The call does not change the tables. -/
def Call.isQuiet : Call → Bool
  | .directory (.backend r) => isLook r
  | _ => true

def Call.isLookup : Call → Bool
  | .directory (.backend (.record _)) => true
  | _ => false

def Call.altersRecords : Call → Bool
  | .directory (.backend r) => Directory.altersRecords r
  | _ => false

/-- The user that the call stores. -/
def Call.stored? : Call → Option User
  | .directory (.backend (.setRecord _ text)) => User.decode? text
  | _ => none

/-- How many records the operation has looked up. -/
def lookups (i : Bool) (past : Journal) : Nat := past.countP fun e => e.1 = i && e.2.isLookup

def Stored (i : Bool) (u : User) (past : Journal) : Prop :=
  ∃ c, (i, c) ∈ past ∧ c.stored? = some u

def Unwritten (i : Bool) (past : Journal) : Prop := ∀ c, (i, c) ∈ past → c.altersRecords = false

/-- After `n` others the operation has looked up the record of this id and found this user. -/
def Found (t : Tables) (i : Bool) (n : Nat) (id : String) (u : User) (past : Journal) : Prop :=
  ∃ before after, past = before ++ (i, .directory (.backend (.record id))) :: after ∧
    lookups i before = n ∧ (replay t before).user? id = some u

/-- The user is one that the operation has found, with changes in its own fields only. -/
def MadeFrom (t : Tables) (o : Operation) (i : Bool) (past : Journal) (u : User) : Prop :=
  ∃ id base, Found t i o.lookupsBefore id base past ∧
    (∀ target, o.target? = some target → id = target) ∧
    ∀ f, f ∉ o.fields → base.SameAt u f

variable {t : Tables} {o : Operation} {i : Bool} {n : Nat} {id : String} {u b : User}
  {past others : Journal} {c : Call}

theorem replay_append (past others : Journal) :
    replay t (past ++ others) = replay (replay t past) others := List.foldl_append

theorem replay_concat_backend (r : Request) :
    replay t (past ++ [(i, .directory (.backend r))]) =
      (Tables.respond r (replay t past)).2 := replay_append past _

theorem respond_of_isLook {r : Request} (hr : isLook r = true) :
    (Tables.respond r t).2 = t := by
  cases r with
  | record id => rfl
  | owner index key => rfl
  | _ => cases hr

theorem replay_concat_of_isQuiet (hc : c.isQuiet = true) :
    replay t (past ++ [(i, c)]) = replay t past := by
  rw [replay_append]
  cases c with
  | directory c =>
    cases c with
    | backend r => exact respond_of_isLook hc
    | lock => rfl
    | unlock => rfl
  | _ => rfl

theorem replay_append_of_isQuiet (hothers : ∀ e ∈ others, e.2.isQuiet = true) :
    replay t (past ++ others) = replay t past := by
  induction others generalizing past with
  | nil => rw [List.append_nil]
  | cons e others ih =>
    obtain ⟨he, hrest⟩ := List.forall_mem_cons.1 hothers
    rw [List.append_cons, ih hrest]
    exact replay_concat_of_isQuiet he

theorem lookups_append (past others : Journal) :
    lookups i (past ++ others) = lookups i past + lookups i others := List.countP_append

theorem lookups_eq_zero (hothers : ∀ e ∈ others, e.1 ≠ i) : lookups i others = 0 := by
  refine List.countP_eq_zero.2 fun e he => ?_
  simp [hothers e he]

theorem Stored.append (h : Stored i u past) (others : Journal) : Stored i u (past ++ others) := by
  obtain ⟨c, hc, hu⟩ := h
  exact ⟨c, List.mem_append_left _ hc, hu⟩

theorem Unwritten.append (h : Unwritten i past) (hothers : Unwritten i others) :
    Unwritten i (past ++ others) :=
  fun c hc => (List.mem_append.1 hc).elim (h c) (hothers c)

theorem Found.append (h : Found t i n id u past) (others : Journal) :
    Found t i n id u (past ++ others) := by
  obtain ⟨before, after, rfl, hn, hu⟩ := h
  exact ⟨before, after ++ others, by simp, hn, hu⟩

theorem MadeFrom.append (h : MadeFrom t o i past u) (others : Journal) :
    MadeFrom t o i (past ++ others) u := by
  obtain ⟨id, base, hfound, hrest⟩ := h
  exact ⟨id, base, hfound.append others, hrest⟩

/-! ### The course of an operation -/

/-- The calls so far, and whether the operation has the lock. -/
structure View where
  past : Journal
  inside : Bool

/-- Calls of the other operation, which change nothing while this one has the lock. -/
structure Elsewhere (i : Bool) (inside : Bool) (others : Journal) : Prop where
  other : ∀ e ∈ others, e.1 ≠ i
  quiet : inside = true → ∀ e ∈ others, e.2.isQuiet = true

/-- What the operation may do: look without the lock, and with it store one user. -/
def Permitted (t : Tables) (o : Operation) (i : Bool) (s : View) : Call → Prop
  | .directory (.backend r) => (s.inside = false → isLook r = true) ∧
    (Directory.altersRecords r = true → Unwritten i s.past ∧
      ∃ u, u.IsDated ∧ r = .setRecord u.id u.encode ∧ MadeFrom t o i s.past u)
  | .directory .lock => s.inside = false
  | .directory .unlock => s.inside = true
  | _ => True

/-- The replies that a call may get: no call of the directory fails. -/
def Possible (t : Tables) (past : Journal) : (c : Call) → c.Reply → Prop
  | .directory (.backend r), reply => reply = .ok (Tables.respond r (replay t past)).1
  | .now, now => Instant.IsDated now
  | _, _ => True

def Call.inside : Call → Bool → Bool
  | .directory .lock, _ => true
  | .directory .unlock, _ => false
  | _, inside => inside

def View.after (s : View) (others : Journal) (i : Bool) (c : Call) : View :=
  ⟨s.past ++ others ++ [(i, c)], c.inside s.inside⟩

def course (t : Tables) (o : Operation) (i : Bool) : Calls interface View := fun c Q s =>
  ∀ others, Elsewhere i s.inside others → Permitted t o i ⟨s.past ++ others, s.inside⟩ c ∧
    ∀ reply, Possible t (s.past ++ others) c reply → Q reply (s.after others i c)

instance (t : Tables) (o : Operation) (i : Bool) : (course t o i).Monotone where
  mono hQR h others hothers :=
    ⟨(h others hothers).1, fun reply hreply => hQR _ _ ((h others hothers).2 reply hreply)⟩

theorem Elsewhere.append {inside : Bool} {others others' : Journal}
    (h : Elsewhere i inside others) (h' : Elsewhere i inside others') :
    Elsewhere i inside (others ++ others') where
  other e he := (List.mem_append.1 he).elim (h.other e) (h'.other e)
  quiet hi e he := (List.mem_append.1 he).elim (h.quiet hi e) (h'.quiet hi e)

/-- Calls of the other operation may come first. -/
theorem wp_elsewhere {α : Type} {p : Program interface α} {Q : α → View → Prop} {inside : Bool}
    (hQ : ∀ a past others, Q a ⟨past, inside⟩ → Q a ⟨past ++ others, inside⟩)
    (h : p.wp (course t o i) Q ⟨past, inside⟩) (hothers : Elsewhere i inside others) :
    p.wp (course t o i) Q ⟨past ++ others, inside⟩ := by
  cases p with
  | done a => exact hQ a past others h
  | call c next =>
    intro others' hothers'
    have hnext := h (others ++ others') (hothers.append hothers')
    simp only [View.after, ← List.append_assoc] at hnext
    exact hnext

/-! ### Calls without the lock -/

/-- Before it saves: the operation has no lock and has stored nothing. It has looked up `n` records
and found these users. -/
structure Ready (t : Tables) (i : Bool) (n : Nat) (known : List (Nat × String × User))
    (s : View) : Prop where
  outside : s.inside = false
  unwritten : Unwritten i s.past
  lookups : lookups i s.past = n
  known : ∀ k ∈ known, Found t i k.1 k.2.1 k.2.2 s.past

theorem ready_start (t : Tables) (i : Bool) : Ready t i 0 [] ⟨[], false⟩ :=
  ⟨rfl, by simp [Unwritten], rfl, by simp⟩

variable {known : List (Nat × String × User)} {s : View}

/-- After a call that alters no records. -/
theorem Ready.after (h : Ready t i n known s) (hothers : Elsewhere i s.inside others)
    (hc : c.altersRecords = false) (hinside : c.inside false = false) :
    Ready t i (n + if c.isLookup then 1 else 0) known (s.after others i c) where
  outside := by
    unfold View.after
    rw [h.outside, hinside]
  unwritten := by
    refine (h.unwritten.append fun c hc => absurd rfl (hothers.other _ hc)).append fun d hd => ?_
    obtain ⟨-, rfl⟩ := Prod.ext_iff.1 (List.mem_singleton.1 hd)
    exact hc
  lookups := by
    simp only [View.after, lookups_append, h.lookups, lookups_eq_zero hothers.other]
    cases hl : c.isLookup <;> simp [Service.lookups, hl]
  known k hk := ((h.known k hk).append others).append _

/-- What `Φ` says of the calls of the directory. -/
def directoryCalls {σ : Type} (Φ : Calls interface σ) : Calls Directory.interface σ :=
  fun c Q s => Φ (.directory c) Q s

instance {σ : Type} (Φ : Calls interface σ) [Φ.Monotone] : (directoryCalls Φ).Monotone where
  mono {c _ _ _} hQR h := Calls.Monotone.mono (Φ := Φ) (c := .directory c) hQR h

theorem wp_onDirectory {α σ : Type} {Φ : Calls interface σ} (a : Directory.Action α)
    (Q : Except ServiceError α → σ → Prop) :
    (onDirectory a).run.wp Φ Q =
      a.run.wp (directoryCalls Φ) fun r => Q (r.mapError .directory) := by
  unfold onDirectory
  generalize a.run = p
  induction p with
  | done r => rfl
  | call c next ih =>
    change Φ (.directory c) _ = Φ (.directory c) _
    congr 1
    funext r
    exact ih r

theorem wp_onDirectory_post {α σ : Type} {Φ : Calls interface σ} [Φ.Monotone]
    {a : Directory.Action α} {ok : α → σ → Prop} {error : σ → Prop} {s : σ}
    (h : a.run.wp (directoryCalls Φ) (post ok error) s) :
    (onDirectory a).run.wp Φ (post ok error) s := by
  rw [wp_onDirectory]
  refine wp_mono (fun r s' hr => ?_) h
  cases r with
  | ok v => exact hr
  | error e => exact hr

namespace Ready

theorem record (h : Ready t i n known s) (id : String) :
    (Directory.ask (.record id)).run.wp (directoryCalls (course t o i)) (fun r s' =>
      ∃ x, r = .ok x ∧ Ready t i (n + 1) known s' ∧
        ∀ u, x.bind User.decode? = some u → Found t i n id u s'.past) s := by
  rw [Directory.wp_ask]
  refine fun others hothers => ⟨⟨fun _ => rfl, nofun⟩, ?_⟩
  rintro _ rfl
  refine ⟨_, rfl, h.after (c := .directory (.backend (.record id))) hothers rfl rfl,
    fun u hu => ⟨s.past ++ others, [], rfl, ?_, hu⟩⟩
  rw [lookups_append, h.lookups, lookups_eq_zero hothers.other, Nat.add_zero]

theorem load (h : Ready t i n known s) (id : String) :
    (Directory.load id).run.wp (directoryCalls (course t o i)) (post (fun x s' =>
      ∀ u, x = some u → Ready t i (n + 1) ((n, id, u) :: known) s') fun _ => True) s := by
  unfold Directory.load
  refine wp_seq (h.record id) ?_ (fun _ _ _ => trivial)
  rintro x s' ⟨_, hx, hs', hfound⟩
  cases hx
  cases x with
  | none => exact nofun
  | some text =>
    simp only
    cases hd : User.decode? text with
    | none => trivial
    | some v =>
      rintro u ⟨⟩
      refine ⟨hs'.outside, hs'.unwritten, hs'.lookups, ?_⟩
      exact List.forall_mem_cons.2 ⟨hfound v hd, hs'.known⟩

theorem owner (h : Ready t i n known s) (index key : String) :
    (Directory.ask (.owner index key)).run.wp (directoryCalls (course t o i)) (post (fun _ s' =>
      Ready t i n known s') fun _ => True) s := by
  rw [Directory.wp_ask]
  refine fun others hothers => ⟨⟨fun _ => rfl, nofun⟩, ?_⟩
  rintro _ rfl
  exact h.after (c := .directory (.backend (.owner index key))) hothers rfl rfl

theorem get (h : Ready t i n known s) (id : String) :
    (Directory.get id).run.wp (directoryCalls (course t o i)) (post (fun u s' =>
      Ready t i (n + 1) ((n, id, u) :: known) s') fun _ => True) s := by
  unfold Directory.get
  by_cases hid : id = ""
  · rw [if_pos hid]
    trivial
  · rw [if_neg hid]
    refine wp_seq (h.load id) ?_ (fun _ _ _ => trivial)
    intro x s' hx
    cases x with
    | none => trivial
    | some u => exact hx u rfl

theorem findOwner (h : Ready t i n known s) (f : UniqueField) (key : String) :
    (Directory.findOwner f key).run.wp (directoryCalls (course t o i)) (post (fun u s' =>
      ∃ id, Ready t i (n + 1) ((n, id, u) :: known) s') fun _ => True) s := by
  unfold Directory.findOwner
  refine wp_seq (h.owner f.index key) ?_ (fun _ _ _ => trivial)
  intro x s' hs'
  cases x with
  | none => trivial
  | some id =>
    refine wp_seq (Ready.load hs' id) ?_ (fun _ _ _ => trivial)
    intro x s'' hx
    cases x with
    | none => trivial
    | some u =>
      simp only
      split
      · exact ⟨id, hx u rfl⟩
      · trivial

theorem find (h : Ready t i n known s) (field : SearchField) :
    (Directory.find field).run.wp (directoryCalls (course t o i)) (post (fun u s' =>
      ∃ id, Ready t i (n + 1) ((n, id, u) :: known) s') fun _ => True) s := by
  cases field with
  | id id =>
    refine wp_mono (fun r s' hr => ?_) (h.get id)
    cases r with
    | ok u => exact ⟨id, hr⟩
    | error e => trivial
  | loginName key => exact h.findOwner .loginName key
  | email key => exact h.findOwner .email key
  | resetToken key => exact h.findOwner .resetToken key

end Ready

/-! ### The save -/

/-- While the operation has the lock: the tables are what the calls have made of them, and `u` is
stored once it is written. -/
structure Saving (t : Tables) (o : Operation) (i : Bool) (u : User) (scene : Directory.Scene)
    (s : View) : Prop where
  inside : s.inside = true
  tables : scene.tables = replay t s.past
  madeFrom : MadeFrom t o i s.past u
  unwritten : scene.written = false → Unwritten i s.past
  stored : scene.written = true → Stored i u s.past

/-- A call of a save that nobody disturbs is permitted. -/
theorem Saving.call (hu : u.IsDated) (c : Directory.Call)
    (Q : c.Reply → Directory.Scene → Prop) (scene : Directory.Scene) (s : View)
    (h : Saving t o i u scene s) (hc : Directory.soleWrite u c Q scene) :
    directoryCalls (course t o i) c (fun r s' => ∃ scene', Saving t o i u scene' s' ∧ Q r scene')
      s := by
  cases c with
  | lock => exact hc.elim
  | unlock => exact hc.elim
  | backend r =>
    obtain ⟨halters, hnext⟩ := hc
    intro others hothers
    have htables : replay t (s.past ++ others) = scene.tables := by
      rw [h.tables, replay_append_of_isQuiet (hothers.quiet h.inside)]
    have hstill (hw : scene.written = false) : Unwritten i (s.past ++ others) :=
      (h.unwritten hw).append fun d hd => absurd rfl (hothers.other _ hd)
    refine ⟨⟨fun hout => absurd (h.inside.symm.trans hout) (by decide), fun hr => ?_⟩, ?_⟩
    · obtain ⟨hw, rfl⟩ := halters hr
      exact ⟨hstill hw, u, hu, rfl, h.madeFrom.append others⟩
    · rintro _ rfl
      refine ⟨_, ⟨h.inside, ?_, (h.madeFrom.append others).append _, ?_, ?_⟩,
        by rw [htables]; exact hnext⟩
      · change (Tables.respond r scene.tables).2 =
          replay t (s.past ++ others ++ [(i, .directory (.backend r))])
        rw [replay_concat_backend, htables]
      · intro hw
        obtain ⟨hw, hwrite⟩ := Bool.or_eq_false_iff.1 hw
        refine (hstill hw).append fun d hd => ?_
        obtain ⟨-, rfl⟩ := Prod.ext_iff.1 (List.mem_singleton.1 hd)
        cases hr : Directory.altersRecords r with
        | false => exact hr
        | true =>
          obtain ⟨-, rfl⟩ := halters hr
          cases hwrite
      · intro hw
        rcases Bool.or_eq_true_iff.1 hw with hw | hwrite
        · exact ((h.stored hw).append others).append _
        · obtain ⟨-, rfl⟩ := halters (Directory.altersRecords_of_isWrite hwrite)
          exact ⟨_, List.mem_append_right _ (List.mem_singleton_self _), User.decode?_encode hu⟩

/-- A user that is made from one that the operation has found is stored by a save that succeeds. -/
theorem Ready.save (h : Ready t i n known s) (hid : (o.lookupsBefore, id, b) ∈ known)
    (htarget : ∀ target, o.target? = some target → id = target)
    (hsame : ∀ f, f ∉ o.fields → b.SameAt u f) (hu : u.IsDated) :
    (save u).run.wp (course t o i) (post (fun _ s' => Stored i u s'.past) fun _ => True) s := by
  refine wp_onDirectory_post ?_
  unfold Directory.save
  cases hvalid : Directory.validate u with
  | error e => trivial
  | ok _ =>
    change (Directory.locked (Directory.saveLocked u)).run.wp _ _ _
    rw [Directory.wp_locked]
    intro others hothers
    refine ⟨h.outside, fun _ _ => ?_⟩
    have hstart : Saving t o i u ⟨replay t (s.after others i (.directory .lock)).past, false⟩
        (s.after others i (.directory .lock)) := by
      refine ⟨rfl, rfl, ?_, fun _ => ?_, nofun⟩
      · exact ⟨id, b, ((h.known _ hid).append others).append _, htarget, hsame⟩
      · refine (h.unwritten.append fun d hd => absurd rfl (hothers.other _ hd)).append
          fun d hd => ?_
        obtain ⟨-, rfl⟩ := Prod.ext_iff.1 (List.mem_singleton.1 hd)
        rfl
    refine wp_mono ?_ (wp_simulate (Saving.call hu) hstart (Directory.wp_saveLocked_sole _))
    rintro r s' ⟨scene, hs', hr⟩ others' hothers'
    refine ⟨hs'.inside, fun _ _ => ?_⟩
    cases r with
    | error e => trivial
    | ok _ => exact ((hs'.stored (hr.1 rfl)).append others').append _

end Service

end Accounts
