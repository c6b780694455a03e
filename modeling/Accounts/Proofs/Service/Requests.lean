import Accounts.Proofs.Backend.Layout
import Accounts.Proofs.Program.Simulation
import Accounts.Service.Environment
import Accounts.Service.Operation

/-!
# The requests that operations make

Whatever it is answered, an operation of the service calls its backend for records and for entries
of the indexes of unique fields only, and the names of these are plain (`only_perform`).
-/
namespace Accounts

open Backend (Request)
open Program

namespace Directory

/-- A call that is no request for an index with a separator in its name. -/
abbrev Plain : Call → Prop := Allows Request.IsPlain

variable {P : Request → Prop} {f : UniqueField} {key id owner : String} {u : User}
  {old values acquired : List (UniqueField × String)}

/-! ### Finding -/

/-- The requests that a search makes. -/
structure IncludesLooks (P : Request → Prop) : Prop where
  record : ∀ id, P (.record id)
  owner : ∀ (f : UniqueField) (key : String), P (.owner f.index key)

theorem only_load_of (h : IncludesLooks P) : (load id).run.Only (Allows P) := by
  refine only_bind_except (only_ask (h.record id)) fun x => ?_
  cases x with
  | none => trivial
  | some text =>
    simp only
    cases User.decode? text <;> trivial

theorem only_get (h : IncludesLooks P) : (get id).run.Only (Allows P) := by
  unfold get
  by_cases hid : id = ""
  · rw [if_pos hid]
    trivial
  · rw [if_neg hid]
    refine only_bind_except (only_load_of h) fun x => ?_
    cases x <;> trivial

theorem only_findOwner (h : IncludesLooks P) : (findOwner f key).run.Only (Allows P) := by
  refine only_bind_except (only_ask (h.owner f key)) fun x => ?_
  cases x with
  | none => trivial
  | some id =>
    refine only_bind_except (only_load_of h) fun x => ?_
    cases x with
    | none => trivial
    | some u =>
      simp only
      split <;> trivial

theorem only_find (h : IncludesLooks P) (field : SearchField) :
    (find field).run.Only (Allows P) := by
  cases field with
  | id id => exact only_get h
  | loginName key => exact only_findOwner h
  | email key => exact only_findOwner h
  | resetToken key => exact only_findOwner h

theorem isPlain_index (f : UniqueField) (key : String) :
    (Backend.Slot.entry f.index key).IsPlain := by
  cases f <;> exact ⟨by decide, by decide, by decide⟩

theorem includesLooks_isPlain : IncludesLooks Request.IsPlain := ⟨fun _ => trivial, isPlain_index⟩

theorem only_load : (load id).run.Only Plain := only_load_of includesLooks_isPlain

/-! ### Saving -/

theorem only_isTaken : (isTaken f key id).run.Only Plain := by
  refine only_bind_except (only_ask (isPlain_index f key)) fun x => ?_
  cases x with
  | none => trivial
  | some owner =>
    simp only
    split
    · trivial
    · refine only_bind_except (only_bind_except only_load fun _ => trivial) fun held => ?_
      cases held with
      | true => trivial
      | false => exact only_bind_except (only_ask (isPlain_index f key)) fun _ => trivial

theorem only_checkFree : (checkFree id values).run.Only Plain := by
  induction values with
  | nil => trivial
  | cons v values ih =>
    refine only_bind_except only_isTaken fun taken => ?_
    cases taken with
    | true => trivial
    | false => exact ih

theorem only_claim : (claim f key id).run.Only Plain := by
  refine only_bind_except (only_ask (isPlain_index f key)) fun claimed => ?_
  cases claimed with
  | true => trivial
  | false =>
    refine only_bind_except only_isTaken fun taken => ?_
    cases taken with
    | true => trivial
    | false => exact only_ask (isPlain_index f key)

theorem only_releaseAll : (releaseAll id values).run.Only Plain := by
  induction values with
  | nil => trivial
  | cons v values ih =>
    exact only_bind_except (only_attempt (only_ask (isPlain_index v.1 v.2))) fun _ => ih

theorem only_claimAll : (claimAll id old values acquired).run.Only Plain := by
  induction values generalizing acquired with
  | nil => trivial
  | cons v values ih =>
    refine only_bind_except (only_orElse only_claim only_releaseAll) fun claimed => ?_
    cases claimed with
    | true => exact ih
    | false => exact only_bind_except only_releaseAll fun _ => trivial

theorem only_lostClaim : (lostClaim id values).run.Only Plain := by
  induction values with
  | nil => trivial
  | cons v values ih =>
    refine only_bind_except (only_ask (isPlain_index v.1 v.2)) fun owner => ?_
    by_cases h : owner = some id
    · simp only [if_pos h]
      exact ih
    · simp only [if_neg h]
      trivial

theorem only_rollBack {old : Option User} : (rollBack id old acquired).run.Only Plain := by
  refine only_bind_except (only_attempt ?_) fun _ => only_releaseAll
  cases old with
  | none => exact only_ask trivial
  | some u => exact only_ask trivial

theorem only_save (u : User) : (save u).run.Only Plain := by
  unfold save
  refine only_bind_except (a := ExceptT.mk (.done (validate u))) trivial fun _ => only_locked ?_
  refine only_bind_except only_checkFree fun _ => only_bind_except only_load fun old =>
    only_bind_except only_claimAll fun acquired =>
      only_bind_except (only_orElse (only_ask trivial) only_releaseAll) fun _ => ?_
  refine only_bind_except (only_orElse only_lostClaim only_rollBack) fun lost => ?_
  cases lost with
  | some f => exact only_bind_except only_rollBack fun _ => trivial
  | none => exact only_releaseAll

end Directory

/-! ### Operations of the service -/

namespace Service

/-- No call of the directory but a plain one; the others do not reach the backend. -/
def Plain : Call → Prop
  | .directory c => Directory.Plain c
  | _ => True

variable {α β : Type}

theorem only_onDirectory {P : Directory.Call → Prop} {Q : Call → Prop} {a : Directory.Action α}
    (hQ : ∀ c, P c → Q (.directory c)) (ha : a.run.Only P) : (onDirectory a).run.Only Q := by
  refine only_bind ?_ fun _ => trivial
  generalize a.run = p at ha
  induction p with
  | done r => trivial
  | call c next ih => exact ⟨hQ c ha.1, fun r => ih r (ha.2 r)⟩

theorem only_ask {c : Call} (hc : Plain c) : (ask c).run.Only Plain := ⟨hc, fun _ => trivial⟩

theorem only_map {a : Action α} (f : α → β) (ha : a.run.Only Plain) : (f <$> a).run.Only Plain := by
  rw [map_eq_pure_bind]
  exact only_bind_except ha fun _ => trivial

theorem only_require {P : Call → Prop} {name value : String} :
    (require name value).run.Only P := by
  unfold require
  split <;> trivial

theorem only_hashPassword {password : String} : (hashPassword password).run.Only Plain := by
  refine only_bind_except (only_ask trivial) fun reply => ?_
  rcases reply with _ | _ | hash <;> trivial

theorem only_verifyPassword {password hash : String} :
    (verifyPassword password hash).run.Only Plain := by
  refine only_bind_except (only_ask trivial) fun reply => ?_
  cases reply <;> trivial

theorem only_newId : newId.run.Only Plain := by
  refine only_bind_except (only_ask trivial) fun reply => ?_
  cases reply <;> trivial

theorem only_newToken : newToken.run.Only Plain := by
  refine only_bind_except (only_ask trivial) fun reply => ?_
  cases reply <;> trivial

theorem only_publish {e : Event} : (publish e).run.Only Plain := only_ask trivial

theorem only_save {u : User} : (save u).run.Only Plain :=
  only_onDirectory (fun _ h => h) (Directory.only_save u)

theorem only_find {field : SearchField} :
    (onDirectory (Directory.find field)).run.Only Plain :=
  only_onDirectory (fun _ h => h) (Directory.only_find Directory.includesLooks_isPlain field)

theorem only_get {id : String} : (onDirectory (Directory.get id)).run.Only Plain :=
  only_onDirectory (fun _ h => h) (Directory.only_get Directory.includesLooks_isPlain)

theorem only_update {id : String} {change : User → Except ServiceError User} :
    (update id change).run.Only Plain := by
  refine only_bind_except only_require fun _ => only_bind_except only_get fun u => ?_
  refine only_bind_except (a := ExceptT.mk (.done (change u))) trivial fun u => ?_
  exact only_bind_except only_save fun _ => trivial

theorem only_createUser {profileName email loginName password : String} :
    (createUser profileName email loginName password).run.Only Plain :=
  only_bind_except only_require fun _ => only_bind_except only_require fun _ =>
    only_bind_except only_require fun _ => only_bind_except only_require fun _ =>
    only_bind_except only_hashPassword fun _ => only_bind_except only_newId fun _ =>
    only_bind_except only_save fun _ => only_bind_except only_publish fun _ => trivial

/-- A change of a user that is announced. -/
theorem only_update_publish {id : String} {change : User → Except ServiceError User}
    {e : User → Event} : (update id change >>= fun u => publish (e u)).run.Only Plain :=
  only_bind_except only_update fun _ => only_publish

theorem only_rehash {id checked password : String} :
    (rehash id checked password).run.Only Plain := by
  refine only_bind_except only_hashPassword fun hash => only_bind_except only_get fun u => ?_
  by_cases h : u.passwordHash = checked
  · rw [if_pos h]
    exact only_save
  · rw [if_neg h]
    trivial

theorem only_authenticate {rules : Rules} {loginName password : String} :
    (authenticate rules loginName password).run.Only Plain := by
  refine only_bind_except only_require fun _ => only_bind_except only_require fun _ =>
    only_bind_except only_find fun u => ?_
  have hend : (publish (.authenticated u.id) >>= fun _ => pure u.id).run.Only Plain :=
    only_bind_except only_publish fun _ => trivial
  split
  · trivial
  refine only_bind_except only_verifyPassword fun valid => ?_
  split
  · trivial
  refine only_bind_except (only_ask trivial) fun outdated => ?_
  split
  · exact only_bind_except (only_tryCatch only_rehash fun _ => trivial) fun _ => hend
  · exact hend

theorem only_findByAll_of {P : Call → Prop}
    (hfind : ∀ f, (onDirectory (Directory.find f)).run.Only P) {known : Option User}
    {fields : List SearchField} : (findByAll known fields).run.Only P := by
  induction fields generalizing known with
  | nil => trivial
  | cons f fields ih =>
    have hfield : (requireField f).run.Only P := by
      cases f <;> exact only_require
    refine only_bind_except hfield fun _ => only_bind_except (hfind f) fun u => ?_
    split
    · trivial
    · exact ih

theorem only_findByAll {known : Option User} {fields : List SearchField} :
    (findByAll known fields).run.Only Plain := only_findByAll_of fun _ => only_find

theorem only_newTokenBy {fields : List SearchField} : (newTokenBy fields).run.Only Plain := by
  refine only_bind_except only_findByAll fun found => ?_
  cases found with
  | none => trivial
  | some u =>
    exact only_bind_except only_newToken fun _ => only_bind_except (only_ask trivial) fun _ =>
      only_bind_except only_save fun _ => only_bind_except only_publish fun _ => trivial

theorem only_resetCredentials {rules : Rules} {token loginName password : String} :
    (resetCredentials rules token loginName password).run.Only Plain := by
  have hfind : (findByToken token).run.Only Plain := by
    refine only_tryCatch only_find fun e => ?_
    split <;> trivial
  refine only_bind_except only_require fun _ => only_bind_except only_require fun _ =>
    only_bind_except only_require fun _ => only_bind_except hfind fun u => ?_
  have hexpired : (isExpired rules u.resetTokenIssued).run.Only Plain := by
    cases u.resetTokenIssued with
    | none => trivial
    | some issued => exact only_bind_except (only_ask trivial) fun _ => trivial
  refine only_bind_except hexpired fun expired => ?_
  cases expired with
  | true => trivial
  | false =>
    exact only_bind_except only_hashPassword fun _ => only_bind_except only_save fun _ =>
      only_bind_except only_publish fun _ => trivial

/-- An operation makes no request with a separator in the name of an index. -/
theorem only_perform (rules : Rules) (o : Operation) : (perform rules o).run.Only Plain := by
  cases o with
  | createUser profileName email loginName password => exact only_map _ only_createUser
  | getUser id => exact only_map _ (only_bind_except only_require fun _ => only_get)
  | changeCredentials id loginName password =>
    refine only_map _ (only_bind_except only_require fun _ => only_bind_except only_require fun _ =>
      only_bind_except only_hashPassword fun _ => only_update_publish)
  | changePassword id password =>
    exact only_map _ (only_bind_except only_require fun _ =>
      only_bind_except only_hashPassword fun _ => only_update_publish)
  | changeProfileName id profileName =>
    exact only_map _ (only_bind_except only_require fun _ => only_update_publish)
  | changeEmail id email =>
    exact only_map _ (only_bind_except only_require fun _ => only_update_publish)
  | authenticate loginName password => exact only_map _ only_authenticate
  | setEmailVerified id => exact only_map _ only_update_publish
  | confirmEmail id email =>
    exact only_map _ (only_bind_except only_require fun _ => only_update_publish)
  | newToken fields => exact only_map _ only_newTokenBy
  | resetCredentials token loginName password => exact only_map _ only_resetCredentials

end Service

end Accounts
