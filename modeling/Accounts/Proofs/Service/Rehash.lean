import Accounts.Proofs.Service.Frame
import Accounts.Proofs.Service.Login
import Accounts.Proofs.Service.Visits

/-!
# The renewal of a hash

A login that finds the hash of its user outdated looks the record up again, since others may have
saved it in the meantime, and renews the hash that it has checked and nothing else. It leaves a
record alone that has another hash by then, is gone or cannot be saved; after a renewal the next
login has nothing to renew (`rehash_converges`).
-/
namespace Accounts

/-- The user with another hash. -/
def User.withHash (u : User) (hash : String) : User := { u with passwordHash := hash }

theorem User.isIncomplete_withHash {u : User} {hash : String} :
    (u.withHash hash).IsIncomplete ↔ u.IsIncomplete := Iff.rfl

theorem User.isDated_withHash {u : User} {hash : String} :
    (u.withHash hash).IsDated ↔ u.IsDated := Iff.rfl

namespace Service

open Backend Program

variable {ε : Type} {env : Handler interface ε} {plan : Nat → List Visit} {s : Logged ε}
  {t : Tables} {x : ε} {n : Nat} {u v w : User} {rules : Rules} {loginName password fresh : String}

/-! ### Steps among visits -/

theorem Quiet.load (h : Quiet t x n s) (id : String) :
    (Directory.load id).run.wp (directoryCalls (answered (visited env plan))) (fun r s' =>
      Directory.LoadAnswer (hosted t (plan n)) id r ∧ Quiet (hosted t (plan n)) x (n + 1) s')
      s := by
  unfold Directory.load
  refine wp_seq (h.look rfl) ?_ (fun _ _ hs' => by cases hs'.1)
  rintro reply s' ⟨hreply, hs'⟩
  cases hreply
  simp only [Tables.respond]
  cases hrecord : (hosted t (plan n)).record id with
  | none => exact ⟨.absent hrecord, hs'⟩
  | some text =>
    simp only
    cases hd : User.decode? text with
    | none => exact ⟨.unreadable ⟨text, hrecord, hd⟩, hs'⟩
    | some u => exact ⟨.found (by simp [Tables.user?, hrecord, hd]), hs'⟩

/-- The first look-ups of a login, before anybody visits. -/
theorem Quiet.find_named (h : Quiet t x 0 s) (howner : plan 0 = []) (hrecord : plan 1 = [])
    (ht : t.Coherent) (hu : t.user? u.id = some u) (hname : u.unique? .loginName = some loginName) :
    (onDirectory (Directory.find (.loginName loginName))).run.wp (answered (visited env plan))
      (fun r s' => r = .ok u ∧ Quiet t x 2 s') s := by
  rw [wp_onDirectory, Directory.find]
  unfold Directory.findOwner
  refine wp_seq (h.look rfl) ?_ (fun _ _ hs' => by cases hs'.1)
  rintro reply s₁ ⟨hreply, h₁⟩
  rw [howner] at hreply h₁
  cases hreply
  have hentry : t.entry UniqueField.loginName.index loginName = some u.id :=
    ht.owned ⟨u, hu, hname⟩
  simp only [hosted, List.foldl_nil, Tables.respond, hentry]
  refine wp_seq (Quiet.load h₁ u.id) ?_ ?_
  · rintro found s₂ ⟨hfound, h₂⟩
    rw [hrecord] at hfound h₂
    cases hfound with
    | absent hnone =>
      simp [Tables.user?, show t.record u.id = none from hnone] at hu
    | found hv =>
      cases (show t.user? u.id = _ from hv).symm.trans hu
      simp only [hname, if_true]
      exact ⟨rfl, h₂⟩
  · rintro e s₂ ⟨hfound, -⟩
    rw [hrecord] at hfound
    cases hfound with
    | unreadable hbad =>
      rw [Tables.Unreadable.user?_eq_none (t := t) hbad] at hu
      cases hu

/-- The record is looked up again. -/
theorem Quiet.get (h : Quiet t x n s) {id : String} (hid : id ≠ "") :
    (onDirectory (Directory.get id)).run.wp (answered (visited env plan)) (fun r s' =>
      Quiet (hosted t (plan n)) x (n + 1) s' ∧
        ((∃ w, r = .ok w ∧ (hosted t (plan n)).user? id = some w) ∨
          (∃ e, r = .error e) ∧ (hosted t (plan n)).user? id = none)) s := by
  rw [wp_onDirectory]
  unfold Directory.get
  rw [if_neg hid]
  refine wp_seq (Quiet.load h id) ?_ ?_
  · rintro found s' ⟨hfound, hs'⟩
    cases hfound with
    | absent hnone => exact ⟨hs', Or.inr ⟨⟨_, rfl⟩, by simp [Tables.user?, hnone]⟩⟩
    | found hw => exact ⟨hs', Or.inl ⟨_, rfl, hw⟩⟩
  · rintro e s' ⟨hfound, hs'⟩
    cases hfound with
    | unreadable hbad => exact ⟨hs', Or.inr ⟨⟨_, rfl⟩, hbad.user?_eq_none⟩⟩

theorem Quiet.hashPassword (h : Quiet t x n s)
    (hhash : (env (.hash password) x).1 = some (.ok fresh)) :
    (hashPassword password).run.wp (answered (visited env plan)) (fun r s' => r = .ok fresh ∧
      Quiet (hosted t (plan n)) (env (.hash password) x).2 (n + 1) s') s := by
  unfold Service.hashPassword
  refine wp_seq (h.ask (by simp) (by simp)) ?_ (fun _ _ hs' => by cases hs'.1)
  rintro reply s' ⟨hreply, hs'⟩
  rw [hhash] at hreply
  cases hreply
  exact ⟨rfl, hs'⟩

/-! ### The renewal -/

/-- What becomes of the user that the renewal meets when it looks the record up again. -/
inductive Renewal (met : Tables) (u : User) (fresh : String) (s : Logged ε) : Prop
  | kept (hwhy : ∀ w, met.user? u.id = some w → w.passwordHash = u.passwordHash → w.IsIncomplete)
    (hquiet : ∀ c ∈ s.log, c.isQuiet = true)
  | replaced {w : User} (hw : met.user? u.id = some w) (hsame : w.passwordHash = u.passwordHash)
    (hcomplete : ¬ w.IsIncomplete)
    (htables : s.tables = met.withRecord u.id (some (w.withHash fresh).encode))
    (hcalls : 6 ≤ s.log.length)

/-- A save of a user of whom nothing is changed but the hash. -/
theorem runAlone_save_withHash (ht : t.Coherent) (hw : t.user? w.id = some w)
    (hcomplete : ¬ w.IsIncomplete) (fresh : String) :
    Directory.runAlone (Directory.save (w.withHash fresh)) t =
      (.ok (), t.withRecord w.id (some (w.withHash fresh).encode)) := by
  have hread : ¬ t.Unreadable (w.withHash fresh).id := by
    intro hbad
    have hnone : t.user? w.id = none := hbad.user?_eq_none
    rw [hw] at hnone
    cases hnone
  have hsaved : t.saved (w.withHash fresh) = t.withRecord w.id (some (w.withHash fresh).encode) :=
    Tables.saved_eq_withRecord ht hw rfl
  rw [Directory.runAlone_save_of_claimable ht (User.isIncomplete_withHash.not.2 hcomplete) hread,
    hsaved]
  rintro ⟨f, key⟩ hm
  exact ht.claimable ⟨w, hw, User.mem_uniqueValues.1 hm⟩

theorem Quiet.save_withHash (h : Quiet t x 6 s) (hlate : ∀ n, 6 ≤ n → plan n = [])
    (ht : t.Coherent) (hw : t.user? u.id = some w) (hsame : w.passwordHash = u.passwordHash) :
    (save (w.withHash fresh)).run.wp (answered (visited env plan))
      (fun _ => Renewal t u fresh) s := by
  have hid : w.id = u.id := ht.id_eq hw
  by_cases hcomplete : w.IsIncomplete
  · have hrefused : (w.withHash fresh).IsIncomplete := User.isIncomplete_withHash.2 hcomplete
    obtain ⟨reason, hdone⟩ := Directory.run_save_eq_done_iff.2 hrefused
    unfold Service.save
    rw [wp_onDirectory, hdone]
    refine .kept (fun v hv _ => ?_) h.quiet
    cases hw.symm.trans hv
    exact hcomplete
  · have hcalls := h.calls
    have hcalm : ∀ n, s.log.length ≤ n → plan n = [] := fun n hn => hlate n (by omega)
    refine wp_mono ?_ (wp_onDirectory_calm (only_true _) hcalm)
    rintro _ _ ⟨calls, -, -, rfl⟩
    rw [← hid] at hw
    have hrun := runAlone_save_withHash ht hw hcomplete fresh
    rw [hid] at hw hrun
    refine .replaced hw hsame hcomplete ?_ ?_
    · simp only [h.tables, hrun]
    · simp only [List.length_append]
      omega

theorem Quiet.rehash (h : Quiet t x 4 s) (hlate : ∀ n, 6 ≤ n → plan n = [])
    (ht : (hosted (hosted t (plan 4)) (plan 5)).Coherent)
    (hhash : (env (.hash password) x).1 = some (.ok fresh)) :
    (rehash u.id u.passwordHash password).run.wp (answered (visited env plan))
      (fun _ => Renewal (hosted (hosted t (plan 4)) (plan 5)) u fresh) s := by
  unfold Service.rehash
  refine wp_seq (h.hashPassword hhash) ?_ (fun _ _ hs' => by cases hs'.1)
  rintro _ s₁ ⟨⟨⟩, h₁⟩
  by_cases hid : u.id = ""
  · rw [Directory.get, if_pos hid]
    exact .kept (fun w hw _ => Or.inl ((ht.id_eq hw).trans hid)) h₁.quiet
  refine wp_seq (Quiet.get h₁ hid) ?_ ?_
  · rintro w s₂ ⟨h₂, ⟨_, ⟨⟩, hw⟩ | ⟨⟨e, ⟨⟩⟩, -⟩⟩
    split
    · next hsame => exact Quiet.save_withHash h₂ hlate ht hw hsame
    · next hother =>
      refine .kept (fun w' hw' hsame => ?_) h₂.quiet
      cases hw.symm.trans hw'
      exact absurd hsame hother
  · rintro e s₂ ⟨h₂, ⟨w, ⟨⟩, -⟩ | ⟨-, hgone⟩⟩
    refine .kept (fun w hw _ => ?_) h₂.quiet
    rw [hgone] at hw
    cases hw

theorem Renewal.publish {met : Tables} (h : Renewal met u fresh s)
    (hlate : ∀ n, 6 ≤ n → plan n = []) (e : Event) :
    (Service.publish e).run.wp (answered (visited env plan))
      (fun r s' => r = .ok () ∧ Renewal met u fresh s') s := by
  refine ⟨rfl, ?_⟩
  cases h with
  | kept hwhy hquiet => exact .kept hwhy (forall_mem_concat_quiet hquiet rfl)
  | replaced hw hsame hcomplete htables hcalls =>
    refine .replaced hw hsame hcomplete ?_ ?_
    · change hosted s.tables (plan s.log.length) = _
      rw [hlate _ hcalls]
      exact htables
    · exact Nat.le_trans hcalls (List.length_append ▸ Nat.le_add_right _ _)

theorem Quiet.renewAndPublish (h : Quiet t x 3 s) (hlate : ∀ n, 6 ≤ n → plan n = [])
    (ht : (hosted (hosted (hosted t (plan 3)) (plan 4)) (plan 5)).Coherent)
    (houtdated : (env (.needsRehash u.passwordHash) x).1 = true)
    (hhash : (env (.hash password) (env (.needsRehash u.passwordHash) x).2).1 = some (.ok fresh)) :
    (renewAndPublish u password).run.wp (answered (visited env plan)) (fun r s' =>
      r = .ok u.id ∧ Renewal (hosted (hosted (hosted t (plan 3)) (plan 4)) (plan 5)) u fresh s')
      s := by
  unfold Service.renewAndPublish
  refine wp_seq (h.ask (by simp) (by simp)) ?_ (fun _ _ hs' => by cases hs'.1)
  rintro outdated s₁ ⟨hreply, h₁⟩
  rw [houtdated] at hreply
  cases hreply
  refine wp_seq (R := fun r s' => r = .ok () ∧
    Renewal (hosted (hosted (hosted t (plan 3)) (plan 4)) (plan 5)) u fresh s') ?_ ?_
    (fun _ _ hs' => by cases hs'.1)
  · rw [wp_tryCatch]
    refine wp_mono (fun r s₂ h₂ => ?_) (Quiet.rehash h₁ hlate ht hhash)
    cases r with
    | ok _ => exact ⟨rfl, h₂⟩
    | error _ => exact ⟨rfl, h₂⟩
  · rintro _ s₂ ⟨-, h₂⟩
    exact wp_seq (Renewal.publish h₂ hlate _) (fun _ _ hs' => ⟨rfl, hs'.2⟩)
      (fun _ _ hs' => by cases hs'.1)

/-! ### The login -/

/-- What a login among these visits answers, and what it leaves. -/
def loginAmong (env : Handler interface ε) (plan : Nat → List Visit) (rules : Rules) (x : ε)
    (loginName password : String) (t : Tables) : Except ServiceError String × Logged ε :=
  (authenticate rules loginName password).run.run (visited env plan) ⟨⟨t, x, []⟩, []⟩

/-- The password is right, its hash is outdated, and a fresh one can be made. -/
structure Renewable (env : Handler interface ε) (x : ε) (password : String) (u : User)
    (fresh : String) : Prop where
  verified : (env (.verify password u.passwordHash) x).1 = some true
  outdated : Outdated env x password u.passwordHash
  hashed : (env (.hash password) (env (.needsRehash u.passwordHash)
    (env (.verify password u.passwordHash) x).2).2).1 = some (.ok fresh)

/-- Somebody who has a login name has one to give. -/
theorem ne_empty_of_unique? {f : UniqueField} {key : String} (h : u.unique? f = some key) :
    key ≠ "" := by
  rintro rfl
  have hkey := (Option.filter_eq_some_iff.1 h).2
  simp at hkey

/-- A right password leads through two looks and the check to the rest of the login, unless the user
is not admitted. -/
theorem wp_authenticate_found (h₀ : plan 0 = []) (h₁ : plan 1 = []) (ht : t.Coherent)
    (hu : t.user? u.id = some u) (hname : u.unique? .loginName = some loginName)
    (hpassword : password ≠ "") (hverify : (env (.verify password u.passwordHash) x).1 = some true)
    {Q : Except ServiceError String → Logged ε → Prop}
    (hrefused : ∀ s, Quiet t x 2 s → ¬ rules.Admits u → Q (.error .emailNotVerified) s)
    (hright : ∀ s, Quiet (hosted t (plan 2)) (env (.verify password u.passwordHash) x).2 3 s →
      rules.Admits u → (renewAndPublish u password).run.wp (answered (visited env plan)) Q s) :
    (authenticate rules loginName password).run.wp (answered (visited env plan)) Q
      ⟨⟨t, x, []⟩, []⟩ := by
  refine wp_authenticate_of (ne_empty_of_unique? hname) hpassword
    ((quiet_start t x).find_named h₀ h₁ ht hu hname) ?_ ?_ ?_
  · rintro e s ⟨⟨⟩, -⟩
  · rintro _ s ⟨⟨⟩, h⟩ hnot
    exact hrefused s h hnot
  · rintro _ s ⟨⟨⟩, h⟩ hadmits
    unfold verifyPassword
    refine wp_seq (h.ask (by simp) (by simp)) ?_ (fun _ _ hs' => by cases hs'.1)
    rintro valid s' ⟨hvalid, h'⟩
    rw [hverify] at hvalid
    cases hvalid
    exact hright s' h' hadmits

/-- A login that is refused changes nothing; one that succeeds renews what it meets. -/
theorem wp_authenticate_among (ht : t.Coherent) (hu : t.user? u.id = some u)
    (hname : u.unique? .loginName = some loginName)
    (hplan : ∀ n, plan n ≠ [] → 2 ≤ n ∧ n ≤ 5) (hdated : ∀ n, ∀ v ∈ plan n, v.IsDated)
    (hrenewable : Renewable env x password u fresh) (hpassword : password ≠ "") (rules : Rules) :
    (authenticate rules loginName password).run.wp (answered (visited env plan)) (fun r s =>
      (rules.Admits u → r = .ok u.id ∧
        Renewal (hosted t (plan 2 ++ plan 3 ++ plan 4 ++ plan 5)) u fresh s) ∧
      (¬ rules.Admits u → ∀ c ∈ s.log, c.isQuiet = true)) ⟨⟨t, x, []⟩, []⟩ := by
  have hearly (n : Nat) (hn : n < 2) : plan n = [] := by
    by_contra hne
    have := hplan n hne
    omega
  have hlate (n : Nat) (hn : 6 ≤ n) : plan n = [] := by
    by_contra hne
    have := hplan n hne
    omega
  have hmet : (hosted (hosted (hosted (hosted t (plan 2)) (plan 3)) (plan 4)) (plan 5)).Coherent :=
    coherent_hosted (coherent_hosted (coherent_hosted (coherent_hosted ht (hdated 2)) (hdated 3))
      (hdated 4)) (hdated 5)
  refine wp_authenticate_found (hearly 0 (by omega)) (hearly 1 (by omega)) ht hu hname hpassword
    hrenewable.verified (fun s h hnot => ⟨fun hadmits => absurd hadmits hnot, fun _ => h.quiet⟩) ?_
  intro s h hadmits
  refine wp_mono ?_ (Quiet.renewAndPublish h hlate hmet hrenewable.outdated hrenewable.hashed)
  rintro r s' ⟨rfl, h'⟩
  refine ⟨fun _ => ⟨rfl, ?_⟩, fun hnot => absurd hadmits hnot⟩
  simpa only [hosted_append] using h'

/-- A login of a user whose hash is up to date. -/
theorem wp_authenticate_settled (ht : t.Coherent) (hv : t.user? v.id = some v)
    (hname : v.unique? .loginName = some loginName) (hpassword : password ≠ "")
    (hverify : ∀ y, (env (.verify password v.passwordHash) y).1 = some true)
    (hcurrent : ∀ y, (env (.needsRehash v.passwordHash) y).1 = false) (rules : Rules) (x : ε) :
    (authenticate rules loginName password).run.wp (answered (visited env unvisited)) (fun r s =>
      (rules.Admits v → r = .ok v.id) ∧ s.tables = t ∧ ∀ c ∈ s.log, c.isQuiet = true)
      ⟨⟨t, x, []⟩, []⟩ := by
  refine wp_authenticate_found rfl rfl ht hv hname hpassword (hverify x)
    (fun s h hnot => ⟨fun hadmits => absurd hadmits hnot, h.tables, h.quiet⟩) ?_
  intro s h _
  unfold renewAndPublish
  refine wp_seq (Quiet.ask h (by simp) (by simp)) ?_ (fun _ _ hs' => by cases hs'.1)
  rintro outdated s' ⟨houtdated, h'⟩
  rw [hcurrent] at houtdated
  cases houtdated
  exact ⟨fun _ => rfl, h'.tables, forall_mem_concat_quiet h'.quiet rfl⟩

/-- The record of the user is as it was met but for the hash, and the rest of the tables is, too. -/
structure Upgraded (met t' : Tables) (w : User) (fresh : String) : Prop where
  user : t'.user? w.id = some (w.withHash fresh)
  entry : t'.entry = met.entry
  others : ∀ other, other ≠ w.id → t'.record other = met.record other

theorem upgraded_withRecord {met : Tables} (hw : w.IsDated) (fresh : String) :
    Upgraded met (met.withRecord w.id (some (w.withHash fresh).encode)) w fresh where
  user := by
    rw [Tables.user?_withRecord, if_pos rfl, Option.bind_some]
    exact User.decode?_encode (User.isDated_withHash.2 hw)
  entry := rfl
  others other hother := if_neg hother

theorem Upgraded.coherent {met t' : Tables} (h : Upgraded met t' w fresh) (hmet : met.Coherent)
    (hw : met.user? w.id = some w) : t'.Coherent := by
  have huser {id : String} (hid : id ≠ w.id) : t'.user? id = met.user? id := by
    unfold Tables.user?
    rw [h.others id hid]
  refine ⟨⟨?_⟩, ⟨?_⟩⟩
  · intro id v hv
    by_cases hid : id = w.id
    · rw [hid, h.user] at hv
      cases hv
      exact hid.symm
    · exact hmet.id_eq (huser hid ▸ hv)
  · rintro id f key ⟨v, hv, hkey⟩
    rw [h.entry]
    by_cases hid : id = w.id
    · rw [hid, h.user] at hv
      cases hv
      exact hid ▸ hmet.owned ⟨w, hw, hkey⟩
    · exact hmet.owned ⟨v, huser hid ▸ hv, hkey⟩

/-- The next login with the name that the user has by then finds nothing to renew. -/
theorem Upgraded.settled {met t' : Tables} (h : Upgraded met t' w fresh) (hmet : met.Coherent)
    (hw : met.user? w.id = some w) (hcomplete : ¬ w.IsIncomplete) (hpassword : password ≠ "")
    (hverify : ∀ y, (env (.verify password fresh) y).1 = some true)
    (hcurrent : ∀ y, (env (.needsRehash fresh) y).1 = false) (rules : Rules) (y : ε) :
    let next := loginAmong env unvisited rules y w.loginName password t'
    (∀ c ∈ next.2.log, c.isQuiet = true) ∧ next.2.tables = t' ∧
      (rules.Admits w → next.1 = .ok w.id) := by
  have hlogin : (w.withHash fresh).unique? .loginName = some w.loginName := by
    have hne : w.loginName ≠ "" := fun hempty => hcomplete (Or.inr (Or.inr (Or.inl hempty)))
    simp [User.unique?, User.withHash, hne]
  have hwp := wp_authenticate_settled (h.coherent hmet hw) (v := w.withHash fresh) h.user hlogin
    hpassword hverify hcurrent rules y
  rw [wp_answered] at hwp
  exact ⟨hwp.2.2, hwp.2.1, hwp.1⟩

/-- A login with an outdated hash among whole visits of others between its first look at the record
and its second one. It changes nothing if it is refused, or if by then the user has another hash, is
gone or lacks what every stored user needs. Otherwise it replaces the hash of the user that it meets
and nothing else; and if the hasher accepts its fresh hashes, the next login changes nothing. -/
theorem rehash_converges (ht : t.Coherent) (hu : t.user? u.id = some u)
    (hname : u.unique? .loginName = some loginName)
    (hplan : ∀ n, plan n ≠ [] → 2 ≤ n ∧ n ≤ 5) (hdated : ∀ n, ∀ v ∈ plan n, v.IsDated)
    (hrenewable : Renewable env x password u fresh) (rules : Rules) :
    let met := hosted t (plan 2 ++ plan 3 ++ plan 4 ++ plan 5)
    let after := loginAmong env plan rules x loginName password t
    ((password = "" ∨ ¬ rules.Admits u ∨
        ∀ w, met.user? u.id = some w → w.passwordHash = u.passwordHash → w.IsIncomplete) →
      ∀ c ∈ after.2.log, c.isQuiet = true) ∧
    ∀ w, password ≠ "" → rules.Admits u → met.user? u.id = some w →
      w.passwordHash = u.passwordHash → ¬ w.IsIncomplete →
      after.1 = .ok u.id ∧ Upgraded met after.2.tables w fresh ∧
      ((∀ y, (env (.verify password fresh) y).1 = some true) →
        (∀ y, (env (.needsRehash fresh) y).1 = false) → ∀ (rules' : Rules) (y : ε),
        let next := loginAmong env unvisited rules' y w.loginName password after.2.tables
        (∀ c ∈ next.2.log, c.isQuiet = true) ∧ next.2.tables = after.2.tables ∧
          (rules'.Admits w → next.1 = .ok u.id)) := by
  intro met after
  have hvisits : ∀ v ∈ plan 2 ++ plan 3 ++ plan 4 ++ plan 5, v.IsDated := by
    simp only [List.mem_append]
    rintro v (((hv | hv) | hv) | hv)
    · exact hdated 2 v hv
    · exact hdated 3 v hv
    · exact hdated 4 v hv
    · exact hdated 5 v hv
  have hmet : met.Coherent := coherent_hosted ht hvisits
  have hafter (hpassword : password ≠ "") :
      (rules.Admits u → after.1 = .ok u.id ∧ Renewal met u fresh after.2) ∧
        (¬ rules.Admits u → ∀ c ∈ after.2.log, c.isQuiet = true) := by
    have hwp := wp_authenticate_among ht hu hname hplan hdated hrenewable hpassword rules
    rwa [wp_answered] at hwp
  constructor
  · intro hkept
    by_cases hpassword : password = ""
    · have hlog : (authenticate rules loginName password).run.wp (answered (visited env plan))
          (fun _ s => s.log = []) ⟨⟨t, x, []⟩, []⟩ := by
        unfold authenticate
        rw [wp_require_of_ne (ne_empty_of_unique? hname), wp_require_of_eq hpassword]
      rw [wp_answered] at hlog
      have hnone : after.2.log = [] := hlog
      simp [hnone]
    by_cases hadmits : rules.Admits u
    · have hwhy := (hkept.resolve_left hpassword).resolve_left (not_not.2 hadmits)
      cases ((hafter hpassword).1 hadmits).2 with
      | kept _ hquiet => exact hquiet
      | replaced hw hsame hcomplete => exact absurd (hwhy _ hw hsame) hcomplete
    · exact (hafter hpassword).2 hadmits
  · intro w hpassword hadmits hw hsame hcomplete
    obtain ⟨hok, hrenewal⟩ := (hafter hpassword).1 hadmits
    have hid : w.id = u.id := hmet.id_eq hw
    cases hrenewal with
    | kept hwhy => exact absurd (hwhy w hw hsame) hcomplete
    | replaced hw' _ _ htables =>
      cases hw.symm.trans hw'
      rw [← hid] at hw htables
      have hupgraded : Upgraded met after.2.tables w fresh := by
        rw [htables]
        exact upgraded_withRecord (isDated_of_user? hw) fresh
      refine ⟨hok, hupgraded, fun hverify hcurrent rules' y => ?_⟩
      rw [← hid]
      exact hupgraded.settled hmet hw hcomplete hpassword hverify hcurrent rules' y

/-- Alice with another address. -/
def moved : User := { member with email := "new@example.com" }

/-- Alice's address is changed while her new hash is made. -/
def moveWhileHashing (n : Nat) : List Visit := if n = 5 then [.saved moved] else []

/-- What is asked of the hasher and of the fresh hash holds of the marking hasher. -/
theorem renewable_surroundings {u : User} (hu : u.passwordHash = "old:secret") :
    Renewable surroundings () "secret" u "plain:secret" := by
  have hverified : marker.verify "secret" "old:secret" = some true := by decide +kernel
  have houtdated : marker.needsRehash "old:secret" = true := by decide +kernel
  have hhashed : marker.hash [] "secret" = some (.ok "plain:secret") := by decide +kernel
  refine ⟨?_, ?_, hhashed⟩
  · rw [hu]
    exact hverified
  · unfold Outdated
    rw [hu]
    exact houtdated

/-- Alice keeps the address that she was given during her login, and her new hash lets her in. -/
theorem rehash_converges_moved :
    let after := loginAmong surroundings moveWhileHashing .standard () "alice" "secret" withMember
    after.1 = .ok "a" ∧ after.2.tables.user? "a" = some (moved.withHash "plain:secret") ∧
      (loginAmong surroundings unvisited .standard () "alice" "secret" after.2.tables).1 =
        .ok "a" := by
  have hmember : withMember.user? "a" = some member := Tables.user?_saved isDated_member "a"
  have hindexed : withMember.Indexed := Directory.indexed_saved_empty isDated_member
  have hmoved : moved.IsDated := Directory.isDated_of_unissued rfl
  have hcomplete : ¬ moved.IsIncomplete := by decide
  have hfree : ∀ f, ¬ withMember.Clashes moved f := by
    rintro f ⟨key, -, other, hother, v, hv, -⟩
    have hnone : withMember.user? other = none :=
      (Tables.user?_saved isDated_member other).trans (if_neg hother)
    rw [hnone] at hv
    cases hv
  have hmet : (hosted withMember (moveWhileHashing 2 ++ moveWhileHashing 3 ++ moveWhileHashing 4 ++
      moveWhileHashing 5)).user? "a" = some moved := by
    change (Directory.runAlone (Directory.save moved) withMember).2.user? "a" = some moved
    rw [Directory.runAlone_save_of_free hindexed hcomplete hfree]
    exact Tables.user?_saved hmoved "a"
  have hplan (n : Nat) (hn : moveWhileHashing n ≠ []) : 2 ≤ n ∧ n ≤ 5 := by
    unfold moveWhileHashing at hn
    split at hn
    · omega
    · exact absurd rfl hn
  have hdated (n : Nat) (v : Visit) (hv : v ∈ moveWhileHashing n) : v.IsDated := by
    unfold moveWhileHashing at hv
    split at hv
    · obtain rfl := List.mem_singleton.1 hv
      exact hmoved
    · cases hv
  have hverify : marker.verify "secret" "plain:secret" = some true := by decide +kernel
  have hcurrent : marker.needsRehash "plain:secret" = false := by decide +kernel
  have hname : member.unique? .loginName = some "alice" := by decide
  have hadmits : Rules.standard.Admits member := by decide
  obtain ⟨hok, hupgraded, hnext⟩ :=
    (rehash_converges (u := member) hindexed.toCoherent hmember hname hplan hdated
      (renewable_surroundings rfl) .standard).2 moved (by decide) hadmits hmet rfl hcomplete
  exact ⟨hok, hupgraded.user, (hnext (fun _ => hverify) (fun _ => hcurrent) .standard ()).2.2
    (by decide)⟩

/-- Alice before her address is verified. -/
def unverified : User := { member with emailVerified := false }

def withUnverified : Tables := Tables.empty.saved unverified

/-- Alice without an address. -/
def addressless : User := { member with email := "" }

def withAddressless : Tables :=
  (Tables.empty.withRecord "a" (some addressless.encode)).withEntry "login_name" "alice" (some "a")

theorem user?_withAddressless (id : String) :
    withAddressless.user? id = if id = "a" then some addressless else none := by
  have hread : User.decode? addressless.encode = some addressless :=
    User.decode?_encode (Directory.isDated_of_unissued rfl)
  have huser : withAddressless.user? id =
      if id = "a" then (some addressless.encode).bind User.decode? else none :=
    Tables.user?_withRecord "a" _ id
  rwa [Option.bind_some, hread] at huser

theorem coherent_withAddressless : withAddressless.Coherent := by
  refine ⟨⟨?_⟩, ⟨?_⟩⟩
  · intro id u hu
    rw [user?_withAddressless] at hu
    split at hu
    · next hid =>
      cases hu
      exact hid.symm
    · cases hu
  · rintro id f key ⟨u, hu, hkey⟩
    rw [user?_withAddressless] at hu
    split at hu
    · next hid =>
      cases hu
      subst hid
      cases f with
      | loginName =>
        have hsame : addressless.unique? .loginName = some "alice" := by decide
        cases hsame.symm.trans hkey
        rfl
      | email => cases hkey
      | resetToken => cases hkey
    · cases hu

/-- A right password does not renew an outdated hash, although nobody interferes, if the login is
refused or the user has lost the address that every save asks for. -/
theorem outdated_hash_kept :
    (withUnverified.Coherent ∧ withUnverified.user? "a" = some unverified ∧
      Renewable surroundings () "secret" unverified "plain:secret" ∧
      (loginAmong surroundings unvisited .standard () "alice" "secret"
        withUnverified).2.tables.user? "a" = some unverified) ∧
    withAddressless.Coherent ∧ withAddressless.user? "a" = some addressless ∧
      Renewable surroundings () "secret" addressless "plain:secret" ∧
      (loginAmong surroundings unvisited .standard () "alice" "secret"
        withAddressless).1 = .ok "a" ∧
      (loginAmong surroundings unvisited .standard () "alice" "secret"
        withAddressless).2.tables.user? "a" = some addressless := by
  have hdated : unverified.IsDated := Directory.isDated_of_unissued rfl
  have hunverified : withUnverified.Indexed := Directory.indexed_saved_empty hdated
  have hstored : withUnverified.user? "a" = some unverified := Tables.user?_saved hdated "a"
  refine ⟨⟨hunverified.toCoherent, hstored, renewable_surroundings rfl, ?_⟩,
    coherent_withAddressless, user?_withAddressless "a", renewable_surroundings rfl, ?_, ?_⟩
  · decide +kernel
  · decide +kernel
  · decide +kernel

end Service

end Accounts
