import Accounts.Proofs.Directory.SaveOutcome
import Accounts.Proofs.Event.Reading
import Accounts.Proofs.Service.Frame
import Accounts.Table
import Mathlib.Data.List.Induction

/-!
# The events of a run are its history

A reader that sees the messages of a service and nothing else keeps a table of accounts
(`replayed`). After every run that begins with nothing it has exactly the accounts of the stored
users, since a message is sent for each success that is more than a look-up and for nothing else
(`history_faithful`).
-/
namespace Accounts

/-- What a reader of events knows of a user. -/
structure Account where
  loginName : String
  email : String
  emailVerified : Bool
  tokenOutstanding : Bool
  deriving DecidableEq, Repr

def User.account (u : User) : Account :=
  ⟨u.loginName, u.email, u.emailVerified, u.resetToken.isSome⟩

namespace Event

/-- The id of the user that the event is about. -/
def subject : Event → String
  | created id _ _ => id
  | authenticated id => id
  | credentialsChanged id _ => id
  | passwordChanged id => id
  | profileNameChanged id _ => id
  | emailChanged id _ => id
  | emailVerified id _ => id
  | tokenCreated id => id
  | credentialsReset id _ => id

/-- What becomes of the account of that user. -/
def follow : Event → Option Account → Option Account
  | created _ email loginName, _ => some ⟨loginName, email, false, false⟩
  | credentialsChanged _ loginName, a => a.map fun a => { a with loginName := loginName }
  | emailChanged _ email, a => a.map fun a => { a with email := email }
  | emailVerified _ email, a => a.map fun a => { a with email := email, emailVerified := true }
  | tokenCreated _, a => a.map fun a => { a with tokenOutstanding := true }
  | credentialsReset _ loginName, a =>
    a.map fun a => { a with loginName := loginName, tokenOutstanding := false }
  | authenticated _, a => a
  | passwordChanged _, a => a
  | profileNameChanged _ _, a => a

/-- The accounts after the message; one that cannot be read is passed over. -/
def replay (accounts : Table Account) (m : Message) : Table Account :=
  match read? m with
  | none => accounts
  | some e =>
    match e.follow (accounts.get? e.subject) with
    | none => accounts
    | some a => accounts.insert e.subject a

/-- The accounts that these messages tell of. -/
def replayed (ms : List Message) : Table Account := ms.foldl replay Table.empty

theorem replayed_append (ms ms' : List Message) :
    replayed (ms ++ ms') = ms'.foldl replay (replayed ms) := List.foldl_append

/-- An account is only lost sight of if there was none. -/
theorem eq_none_of_follow {e : Event} {a : Option Account} (h : e.follow a = none) : a = none := by
  cases e with
  | created => cases h
  | _ => simpa [follow] using h

theorem get?_replay_message (accounts : Table Account) (e : Event) (id : String) :
    (replay accounts (Service.Environment.message e)).get? id =
      if id = e.subject then e.follow (accounts.get? id) else accounts.get? id := by
  rw [replay, read?_message]
  simp only
  cases hnext : e.follow (accounts.get? e.subject) with
  | none =>
    simp only
    have hnone : accounts.get? e.subject = none := eq_none_of_follow hnext
    split
    · next hid => rw [hid, hnext, hnone]
    · rfl
  | some a =>
    simp only
    rw [Table.get?_insert]
    split
    · next hid => rw [hid, hnext]
    · rfl

end Event

namespace Service

open Backend

variable {ε : Type} {env : Handler interface ε} {rules : Rules} {x : ε} {o : Operation}
  {t t' : Tables} {u v : User}

/-! ### What the event of an operation tells -/

theorem Reaches.id_eq (h : Reaches t o u) (ht : t.Exact) {id : String}
    (hid : .id id ∈ o.searches) : u.id = id :=
  ht.id_eq (Directory.user?_of_runAlone_get (h.found (.id id) hid))

/-- The event is about this user, and makes its account what it is now. -/
def Tells (e : Event) (t : Tables) (v : User) : Prop :=
  e.subject = v.id ∧ e.follow ((t.user? v.id).map User.account) = some v.account

theorem Alters.tells (h : Alters env x o u v) (hu : Reaches t o u) (ht : t.Exact) :
    ∃ e, o.event? v = some e ∧ Tells e t v := by
  have hstored : t.user? v.id = some u := by
    rw [h.id_eq]
    exact hu.stored
  -- an operation that is given an id puts that into its event
  have hid (id : String) (hsearches : .id id ∈ o.searches) : id = v.id :=
    (hu.id_eq ht hsearches).symm.trans h.id_eq.symm
  unfold Tells
  rw [hstored]
  cases h with
  | credentials id loginName password u hash =>
    exact ⟨_, rfl, hid id (List.mem_singleton_self _), rfl⟩
  | password id password u hash => exact ⟨_, rfl, hid id (List.mem_singleton_self _), rfl⟩
  | profileName id profileName u => exact ⟨_, rfl, hid id (List.mem_singleton_self _), rfl⟩
  | email id email u => exact ⟨_, rfl, hid id (List.mem_singleton_self _), rfl⟩
  | renewed loginName password hold hash => exact ⟨_, rfl, rfl, rfl⟩
  | verified id u => exact ⟨_, rfl, hid id (List.mem_singleton_self _), rfl⟩
  | confirmed id hemail =>
    refine ⟨_, rfl, hid id (List.mem_singleton_self _), ?_⟩
    simp [Event.follow, User.account, hemail]
  | issued fields u token => exact ⟨_, rfl, rfl, rfl⟩
  | redeemed loginName password htoken hash => exact ⟨_, rfl, rfl, rfl⟩

theorem Writes.tells (h : Writes env x t o v) (ht : t.Exact) :
    ∃ e, o.event? v = some e ∧ Tells e t v := by
  cases h with
  | created profileName email loginName password id hash => exact ⟨_, rfl, rfl, rfl⟩
  | altered hu hv => exact hv.tells hu ht

theorem Reaches.tells (h : Reaches t o u) (hlook : o.isLook = true) {e : Event}
    (he : o.event? u = some e) : Tells e t u := by
  have hstored := h.stored
  cases o with
  | getUser id => cases he
  | authenticate loginName password =>
    cases he
    exact ⟨rfl, by simp [Event.follow, hstored]⟩
  | _ => cases hlook

/-! ### One operation -/

/-- The accounts are those of the stored users. -/
def Mirrors (accounts : Table Account) (t : Tables) : Prop :=
  ∀ id, accounts.get? id = (t.user? id).map User.account

/-- A message that tells of a user who is stored now brings the accounts up to date. -/
theorem Mirrors.replay {accounts : Table Account} (h : Mirrors accounts t) {e : Event}
    (he : Tells e t v) (hstored : ∀ id, t'.user? id = if id = v.id then some v else t.user? id) :
    Mirrors (Event.replay accounts (Environment.message e)) t' := by
  intro id
  obtain ⟨hsubject, hfollow⟩ := he
  rw [Event.get?_replay_message, hstored, hsubject]
  by_cases hid : id = v.id
  · rw [if_pos hid, if_pos hid, h id, hid, hfollow]
    rfl
  · rw [if_neg hid, if_neg hid, h id]

/-- The operation has succeeded and is more than a look-up. -/
def announces (o : Operation) : Except ServiceError Answer → Bool
  | .ok _ => match o with
    | .getUser _ => false
    | _ => true
  | .error _ => false

theorem length_event? (o : Operation) (u : User) :
    (o.event? u).toList.length = if announces o (.ok (o.answer u)) then 1 else 0 := by
  cases o <;> rfl

theorem Spared.eq_of_exact (h : Spared env x t o t') (ht : t.Exact) : t' = t := by
  rcases h with hsame | ⟨v, e, -, hrefused⟩
  · exact hsame
  · rcases Directory.runAlone_save_of_exact ht v with ⟨-, -, hsaved⟩ | ⟨e', hrefused', -⟩
    · rw [hsaved] at hrefused
      cases hrefused
    · rw [hrefused'] at hrefused
      cases hrefused
      rfl

/-- The messages of these events. -/
def messages (es : List Event) : List Event.Message := es.map Environment.message

/-- An operation on exact tables publishes one event if it has something to announce and none
otherwise, and a reader who is up to date stays so. -/
theorem Effect.mirrors {r : Except ServiceError Answer} {s : Solo ε} (h : Effect env x t o r s)
    (ht : t.Exact) (hclock : ∀ x, Instant.IsDated (env .now x).1) {accounts : Table Account}
    (haccounts : Mirrors accounts t) :
    s.tables.Exact ∧ s.events.length = (if announces o r then 1 else 0) ∧
      Mirrors ((messages s.events).foldl Event.replay accounts) s.tables := by
  cases h with
  | failed hspared hevents =>
    rw [hspared.eq_of_exact ht, hevents]
    exact ⟨ht, rfl, haccounts⟩
  | @looked u _ hlook hu hspared hevents =>
    rw [hspared.eq_of_exact ht, hevents]
    refine ⟨ht, length_event? o u, ?_⟩
    cases he : o.event? u with
    | none => exact haccounts
    | some e =>
      refine haccounts.replay (hu.tells hlook he) fun id => ?_
      split
      · next hid => rw [hid, hu.stored]
      · rfl
  | @written v _ hv hsaved hevents =>
    have hdated := hv.isDated hclock
    obtain ⟨e, he, htells⟩ := hv.tells ht
    have hcount := length_event? o v
    rw [hevents]
    rcases Directory.runAlone_save_of_exact ht v with ⟨-, hfree, hdone⟩ | ⟨e', hrefused, -⟩
    · rw [hdone] at hsaved
      have htables : t.saved v = s.tables := congrArg Prod.snd hsaved
      rw [← htables]
      refine ⟨Directory.exact_saved ht hdated hfree, hcount, ?_⟩
      rw [he]
      exact haccounts.replay htells (Tables.user?_saved hdated)
    · rw [hrefused] at hsaved
      cases hsaved

/-! ### A whole run -/

/-- An operation of a run, its result and its events. -/
structure Performed where
  operation : Operation
  result : Except ServiceError Answer
  events : List Event

/-- The tables, and what the operations so far have come to. -/
structure Annals where
  tables : Tables
  performed : List Performed

/-- The messages of a run, in the order in which they were published. -/
def Annals.messages (a : Annals) : List Event.Message :=
  a.performed.flatMap fun p => Service.messages p.events

/-- The operations of the list one after another, each in surroundings of its own. -/
def annals (env : Handler interface ε) (rules : Rules) (t : Tables)
    (run : List (ε × Operation)) : Annals :=
  run.foldl (fun a e =>
    let (r, s) := outcome env rules e.1 e.2 a.tables
    ⟨s.tables, a.performed ++ [⟨e.2, r, s.events⟩]⟩) ⟨t, []⟩

theorem annals_concat (run : List (ε × Operation)) (e : ε × Operation) :
    annals env rules t (run ++ [e]) =
      let a := annals env rules t run
      let after := outcome env rules e.1 e.2 a.tables
      ⟨after.2.tables, a.performed ++ [⟨e.2, after.1, after.2.events⟩]⟩ := List.foldl_append

/-- What is known after a run that began with nothing. -/
structure Faithful (a : Annals) : Prop where
  exact : a.tables.Exact
  counts : ∀ p ∈ a.performed, p.events.length = if announces p.operation p.result then 1 else 0
  mirrors : Mirrors (Event.replayed a.messages) a.tables

theorem Faithful.next {a : Annals} (h : Faithful a)
    (hclock : ∀ x, Instant.IsDated (env .now x).1) (rules : Rules) (x : ε) (o : Operation) :
    let after := outcome env rules x o a.tables
    Faithful ⟨after.2.tables, a.performed ++ [⟨o, after.1, after.2.events⟩]⟩ := by
  intro after
  have heffect : Effect env x a.tables o after.1 after.2 :=
    outcome_effect h.exact.toNamed env rules x o
  obtain ⟨hexact, hcount, hmirrors⟩ := heffect.mirrors h.exact hclock h.mirrors
  refine ⟨hexact, ?_, ?_⟩
  · exact List.forall_mem_append.2 ⟨h.counts, List.forall_mem_singleton.2 hcount⟩
  · have hmessages :
        Annals.messages ⟨after.2.tables, a.performed ++ [⟨o, after.1, after.2.events⟩]⟩ =
          a.messages ++ messages after.2.events := by
      simp [Annals.messages]
    rw [hmessages, Event.replayed_append]
    exact hmirrors

theorem faithful_annals (hclock : ∀ x, Instant.IsDated (env .now x).1) (rules : Rules)
    (run : List (ε × Operation)) : Faithful (annals env rules Tables.empty run) := by
  induction run using List.reverseRecOn with
  | nil => exact ⟨Tables.exact_empty, fun _ hp => absurd hp List.not_mem_nil, fun _ => rfl⟩
  | append_singleton run e ih =>
    rw [annals_concat]
    exact ih.next hclock rules e.1 e.2

theorem operations_annals (rules : Rules) (t : Tables) (run : List (ε × Operation)) :
    (annals env rules t run).performed.map Performed.operation = run.map Prod.snd := by
  induction run using List.reverseRecOn with
  | nil => rfl
  | append_singleton run e ih =>
    rw [annals_concat]
    simp [ih]

/-- In a run that begins with nothing each operation publishes one event if it succeeds and is more
than a look-up, and no event otherwise. Replaying the messages, of which only the tags and the
payload texts are read, gives the accounts of the stored users and no others. -/
theorem history_faithful (hclock : ∀ x, Instant.IsDated (env .now x).1) (rules : Rules)
    (run : List (ε × Operation)) :
    let a := annals env rules Tables.empty run
    a.performed.map Performed.operation = run.map Prod.snd ∧
      (∀ p ∈ a.performed, p.events.length = if announces p.operation p.result then 1 else 0) ∧
      ∀ id, (Event.replayed a.messages).get? id = (a.tables.user? id).map User.account := by
  intro a
  have hfaithful : Faithful a := faithful_annals hclock rules run
  exact ⟨operations_annals rules Tables.empty run, hfaithful.counts, hfaithful.mirrors⟩

/-- Somebody with a name and an address that have to be escaped signs up. A confirmation of another
address is refused before the user is verified. -/
def eventful : List (Dated × Operation) :=
  [(counted 0 1 rfl, .createUser "Alice" "\"a\"@example.com" "al\\ice\n" "secret"),
    (counted 1 1 rfl, .confirmEmail "user-1" "a@example.com"),
    (counted 1 1 rfl, .setEmailVerified "user-1")]

theorem annals_eventful :
    (annals Dated.answer .standard Tables.empty eventful).performed.map
        (fun p => p.events.map Event.tag) = [["user.created"], [], ["user.email_verified"]] ∧
      ((annals Dated.answer .standard Tables.empty eventful).tables.user? "user-1").map
        User.account = some ⟨"al\\ice\n", "\"a\"@example.com", true, false⟩ := by
  decide +kernel

/-- The two messages of this run tell of the user with the texts as they are stored. -/
theorem history_faithful_eventful :
    (annals Dated.answer .standard Tables.empty eventful).performed.map
        (fun p => p.events.map Event.tag) = [["user.created"], [], ["user.email_verified"]] ∧
      (Event.replayed (annals Dated.answer .standard Tables.empty eventful).messages).get?
        "user-1" = some ⟨"al\\ice\n", "\"a\"@example.com", true, false⟩ := by
  have hclock (x : Dated) : Instant.IsDated (Dated.answer .now x).1 := x.2
  have hreplayed := (history_faithful hclock .standard eventful).2.2 "user-1"
  exact ⟨annals_eventful.1, hreplayed.trans annals_eventful.2⟩

end Service

end Accounts
