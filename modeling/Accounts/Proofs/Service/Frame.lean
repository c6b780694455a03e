import Accounts.Proofs.Directory.Records
import Accounts.Proofs.Directory.RefusedSave
import Accounts.Proofs.Service.Effect

/-!
# What an operation leaves alone

On coherent tables, with leftover entries and records that are no users, an operation that fails
changes the answer of no search, and one that succeeds changes one user, who is the one that it
names, in its own fields (`operation_frame`).
-/
namespace Accounts.Service

open Backend

variable {ε : Type} {env : Handler interface ε} {x : ε} {o : Operation} {t t' : Tables} {u v : User}

/-- What more is asked of the changes of some fields: an address is only ever marked as verified,
and on confirmation only the one that is stored; a used token is cleared; a login renews the hash
only if the hasher calls it outdated. -/
def Operation.Proviso (env : Handler interface ε) (x : ε) : Operation → User → User → Prop
  | .setEmailVerified _, _, v => v.emailVerified = true
  | .confirmEmail _ email, u, v => u.email = email ∧ v.emailVerified = true
  | .resetCredentials _ _ _, _, v => v.resetToken = none ∧ v.resetTokenIssued = none
  | .authenticate _ password, u, v =>
    v.passwordHash ≠ u.passwordHash → Outdated env x password u.passwordHash
  | _, _, _ => True

/-- What becomes of the one user that the operation names: it is new, or it is the one that all the
searches of the operation find, with changes in the fields of the operation only. -/
inductive Confined (env : Handler interface ε) (x : ε) (t : Tables) : Operation → User → Prop
  | created (profileName email loginName password id hash : String) :
    Confined env x t (.createUser profileName email loginName password)
      (.create id profileName email loginName hash)
  | changed {o : Operation} {u v : User} (hu : Reaches t o u) (hid : v.id = u.id)
    (hsame : ∀ f, f ∉ o.fields → u.SameAt v f) (hproviso : o.Proviso env x u v) :
    Confined env x t o v

/-! ### Changes of a user -/

theorem Alters.sameAt (h : Alters env x o u v) (f : User.Field) (hf : f ∉ o.fields) :
    u.SameAt v f := by
  cases h <;> cases f <;> simp_all [Operation.fields, User.SameAt, User.withToken,
    User.withCredentials]

theorem Alters.proviso (h : Alters env x o u v) : o.Proviso env x u v := by
  cases h with
  | renewed loginName password hold hash => exact fun _ => hold
  | verified id u => exact rfl
  | confirmed id hemail => exact ⟨hemail, rfl⟩
  | redeemed loginName password htoken hash => exact ⟨rfl, rfl⟩
  | _ => trivial

theorem Alters.id_eq (h : Alters env x o u v) : v.id = u.id := by
  cases h <;> rfl

theorem Alters.isDated (hclock : ∀ x, Instant.IsDated (env .now x).1) (h : Alters env x o u v)
    (hu : u.IsDated) : v.IsDated := by
  cases h with
  | issued fields u token =>
    intro time htime
    cases htime
    exact hclock _
  | redeemed loginName password htoken hash => exact nofun
  | _ => exact hu

theorem isDated_of_user? {id : String} (hu : t.user? id = some u) : u.IsDated := by
  obtain ⟨text, -, hd⟩ := Option.bind_eq_some_iff.1 hu
  exact User.isDated_of_decode? hd

theorem Writes.isDated (hclock : ∀ x, Instant.IsDated (env .now x).1) (h : Writes env x t o v) :
    v.IsDated := by
  cases h with
  | created => exact Directory.isDated_create
  | altered hu hv => exact hv.isDated hclock (isDated_of_user? hu.stored)

theorem Writes.confined (h : Writes env x t o v) : Confined env x t o v := by
  cases h with
  | created profileName email loginName password id hash =>
    exact .created profileName email loginName password id hash
  | altered hu hv => exact .changed hu hv.id_eq hv.sameAt hv.proviso

/-- Who is only looked at is not changed. -/
theorem Reaches.confined (h : Reaches t o u) (hlook : o.isLook = true) : Confined env x t o u := by
  refine .changed h rfl (fun f _ => .refl u f) ?_
  cases o with
  | getUser id => trivial
  | authenticate loginName password => exact fun hne => absurd rfl hne
  | _ => cases hlook

/-! ### Changes of the tables -/

theorem Spared.pruned (h : Spared env x t o t') : t.Pruned t' := by
  rcases h with rfl | ⟨v, e, -, hrefused⟩
  · exact .refl t'
  · have hpruned := Directory.pruned_of_runAlone_save (congrArg Prod.fst hrefused)
    rwa [hrefused] at hpruned

/-- What a save that succeeds has done to the records. -/
theorem records_of_saved (hv : v.IsDated)
    (hsaved : Directory.runAlone (Directory.save v) t = (.ok (), t')) :
    t'.user? v.id = some v ∧ ∀ other, other ≠ v.id → t'.record other = t.record other := by
  have huser := Directory.user?_runAlone_save hv (congrArg Prod.fst hsaved)
  have hcases := Directory.record_runAlone_save v t
  rw [hsaved] at huser hcases
  rcases hcases with ⟨-, hrecord⟩ | ⟨e, hfailed, -⟩
  · refine ⟨huser, fun other hother => ?_⟩
    rw [hrecord, Tables.record_withRecord, if_neg hother]
  · cases hfailed

/-- An operation alone on coherent tables leaves them coherent. If it fails, every search answers as
before, in the same failure if it fails. If it succeeds, the record of nobody but its user changes,
and of that user only what the operation is to change. -/
theorem operation_frame (ht : t.Coherent) (hclock : ∀ x, Instant.IsDated (env .now x).1)
    (rules : Rules) (x : ε) (o : Operation) :
    let after := outcome env rules x o t
    after.2.tables.Coherent ∧
      ((∃ e, after.1 = .error e) → ∀ field,
        (Directory.runAlone (Directory.find field) after.2.tables).1 =
          (Directory.runAlone (Directory.find field) t).1) ∧
      ∀ a, after.1 = .ok a → ∃ v, a = o.answer v ∧ Confined env x t o v ∧
        after.2.tables.user? v.id = some v ∧
        ∀ other, other ≠ v.id → after.2.tables.record other = t.record other := by
  intro after
  have heffect : Effect env x t o after.1 after.2 := outcome_effect ht.toNamed env rules x o
  rcases after with ⟨r, s⟩
  cases heffect with
  | failed hspared hevents =>
    refine ⟨hspared.pruned.coherent ht, fun _ field => ?_, nofun⟩
    exact Directory.runAlone_find_of_pruned hspared.pruned field
  | @looked u _ hlook hu hspared hevents =>
    have hrecord := hspared.pruned.record
    refine ⟨hspared.pruned.coherent ht, nofun, ?_⟩
    rintro _ ⟨⟩
    refine ⟨u, rfl, hu.confined hlook, ?_, fun other _ => congrFun hrecord other⟩
    rw [Tables.user?_congr hrecord]
    exact hu.stored
  | @written v _ hv hsaved hevents =>
    have hdated := hv.isDated hclock
    have hcoherent := Directory.coherent_runAlone_save ht hdated
    rw [hsaved] at hcoherent
    refine ⟨hcoherent, nofun, ?_⟩
    rintro _ ⟨⟩
    exact ⟨v, rfl, hv.confined, records_of_saved hdated hsaved⟩

/-- Somebody else signs up with Alice's address. -/
def sameAddress : Operation := .createUser "Carol" "alice@example.com" "carol" "secret"

/-- Alice takes the name of which a leftover entry tells. -/
def takesName : Operation := .changeCredentials "a" "bob" "secret"

/-- The sign-up is refused and changes no answer; the new name changes only Alice's name and
hash. -/
theorem operation_frame_alice :
    (outcome Dated.answer .standard (counted 0 0 rfl) sameAddress Directory.aliceAndLeftover).1 =
        .error (.directory (.taken .email)) ∧
      (∀ field, (Directory.runAlone (Directory.find field) (outcome Dated.answer .standard
        (counted 0 0 rfl) sameAddress Directory.aliceAndLeftover).2.tables).1 =
          (Directory.runAlone (Directory.find field) Directory.aliceAndLeftover).1) ∧
      ∃ v, (outcome Dated.answer .standard (counted 0 0 rfl) takesName
          Directory.aliceAndLeftover).2.tables.user? v.id = some v ∧
        ∀ f, f ∉ takesName.fields → Directory.alice.SameAt v f := by
  have ht : Directory.aliceAndLeftover.Coherent := Directory.indexed_aliceAndLeftover.toCoherent
  have hclock (x : Dated) : Instant.IsDated (Dated.answer .now x).1 := x.2
  have hrefused : (outcome Dated.answer .standard (counted 0 0 rfl) sameAddress
      Directory.aliceAndLeftover).1 = .error (.directory (.taken .email)) := by decide +kernel
  have hdone : (outcome Dated.answer .standard (counted 0 0 rfl) takesName
      Directory.aliceAndLeftover).1 = .ok .done := by decide +kernel
  obtain ⟨v, -, hv, huser, -⟩ :=
    (operation_frame ht hclock .standard (counted 0 0 rfl) takesName).2.2 .done hdone
  refine ⟨hrefused, (operation_frame ht hclock .standard (counted 0 0 rfl) sameAddress).2.1
    ⟨_, hrefused⟩, v, huser, ?_⟩
  generalize ho : takesName = o at hv ⊢
  cases hv with
  | created => cases ho
  | @changed _ u _ hu hid hfields hproviso =>
    subst ho
    have hfound := hu.found (.id "a") (List.mem_singleton_self _)
    have halice : Directory.aliceAndLeftover.user? "a" = some Directory.alice :=
      Directory.user?_aliceAndLeftover
    obtain rfl : Directory.alice = u :=
      Option.some.inj (halice.symm.trans (Directory.user?_of_runAlone_get hfound))
    exact hfields

end Accounts.Service
