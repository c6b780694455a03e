import Accounts.Proofs.Service.TokenIssue

/-!
# Arguments that are missing

An operation on which a required argument is empty never succeeds, and most such operations are
nothing but the refusal (`perform_eq_throw`). Two hash the new password before they look at the id
of the user, and the fields of a search are looked at one by one, each after the search for those
before it. So the refusal is at once if and only if the hashing succeeds and the first field has a
value (`rejected_at_once_iff`).
-/
namespace Accounts.Service

open Program

variable {α β σ : Type} {args : List (String × String)} {name value password : String}
  {o : Operation}

/-- The arguments that may not be empty, by the names that a refusal calls them, in the order in
which they are looked at. -/
def Operation.arguments : Operation → List (String × String)
  | .createUser profileName email loginName password =>
    [("profile_name", profileName), ("email", email), ("login_name", loginName),
      ("login_password", password)]
  | .getUser id => [("user_id", id)]
  | .changeCredentials id loginName password =>
    [("login_name", loginName), ("login_password", password), ("user_id", id)]
  | .changePassword id password => [("login_password", password), ("user_id", id)]
  | .changeProfileName id profileName => [("profile_name", profileName), ("user_id", id)]
  | .changeEmail id email => [("email", email), ("user_id", id)]
  | .authenticate loginName password => [("login_name", loginName), ("login_password", password)]
  | .setEmailVerified id => [("user_id", id)]
  | .confirmEmail id email => [("email", email), ("user_id", id)]
  | .newToken fields => fields.map fun f => (f.argument, f.value)
  | .resetCredentials token loginName password =>
    [("token", token), ("login_name", loginName), ("login_password", password)]

/-- A required argument is empty, or there is no field to search for. -/
def Operation.IsIncomplete (o : Operation) : Prop :=
  o = .newToken [] ∨ ∃ a ∈ o.arguments, a.2 = ""

/-- The name of the first argument that is empty. -/
def firstEmpty? (args : List (String × String)) : Option String :=
  (args.find? fun a => a.2 = "").map Prod.fst

/-- What is said of an incomplete operation. -/
def Operation.refusal (o : Operation) : ServiceError :=
  match firstEmpty? o.arguments with
  | some name => .invalidArguments (name ++ " must not be empty")
  | none => .invalidArguments "an email or login name is required"

/-- The operation hashes this password for a user without an id. -/
inductive Operation.HashesFirst (password : String) : Operation → Prop
  | credentials {loginName : String} (hname : loginName ≠ "") (hpassword : password ≠ "") :
    HashesFirst password (.changeCredentials "" loginName password)
  | password (hpassword : password ≠ "") : HashesFirst password (.changePassword "" password)

/-- The operation searches for this field before it looks at any other. -/
inductive Operation.SearchesFirst (f : SearchField) : Operation → Prop
  | fields {rest : List SearchField} (hvalue : f.value ≠ "") :
    SearchesFirst f (.newToken (f :: rest))

/-! ### Refusing at once -/

theorem throw_bind (e : ServiceError) (f : α → Action β) : (throw e >>= f : Action β) = throw e :=
  rfl

theorem map_throw (g : α → β) (e : ServiceError) : (g <$> throw e : Action β) = throw e := rfl

theorem require_of_ne (h : value ≠ "") : require name value = pure () := if_neg h

theorem require_empty (name : String) :
    require name "" = throw (.invalidArguments (name ++ " must not be empty")) := rfl

theorem firstEmpty?_cons_empty (name : String) (args : List (String × String)) :
    firstEmpty? ((name, "") :: args) = some name := rfl

theorem firstEmpty?_cons_of_ne (h : value ≠ "") :
    firstEmpty? ((name, value) :: args) = firstEmpty? args := by
  simp [firstEmpty?, h]

theorem firstEmpty?_eq_none : firstEmpty? args = none ↔ ∀ a ∈ args, a.2 ≠ "" := by
  simp [firstEmpty?]

/-- If one of the arguments is empty the program is nothing but the refusal of the first such. -/
def Guarded (args : List (String × String)) (a : Action α) : Prop :=
  ∀ name, firstEmpty? args = some name →
    a = throw (.invalidArguments (name ++ " must not be empty"))

theorem Guarded.of_complete {a : Action α} (h : ∀ b ∈ args, b.2 ≠ "") : Guarded args a := by
  intro name hname
  rw [firstEmpty?_eq_none.2 h] at hname
  cases hname

theorem Guarded.nil (a : Action α) : Guarded [] a := .of_complete nofun

theorem Guarded.require {f : Unit → Action α} (h : value ≠ "" → Guarded args (f ())) :
    Guarded ((name, value) :: args) (require name value >>= f) := by
  intro missing hmissing
  by_cases hvalue : value = ""
  · subst hvalue
    rw [firstEmpty?_cons_empty] at hmissing
    cases hmissing
    rw [require_empty, throw_bind]
  · rw [firstEmpty?_cons_of_ne hvalue] at hmissing
    rw [require_of_ne hvalue, pure_bind]
    exact h hvalue missing hmissing

theorem Guarded.bind {a : Action α} {f : α → Action β} (h : Guarded args a) :
    Guarded args (a >>= f) := by
  intro name hname
  rw [h name hname, throw_bind]

theorem Guarded.map {a : Action α} (g : α → β) (h : Guarded args a) : Guarded args (g <$> a) := by
  intro name hname
  rw [h name hname, map_throw]

theorem guarded_update (id : String) (change : User → Except ServiceError User) :
    Guarded [("user_id", id)] (update id change) := .require fun _ => .nil _

/-- Arguments are looked at before anything is done, unless a password is hashed or a field is
searched for first. -/
theorem guarded_perform (rules : Rules) (hhash : ∀ password, ¬ o.HashesFirst password)
    (hsearch : ∀ f, ¬ o.SearchesFirst f) : Guarded o.arguments (perform rules o) := by
  cases o with
  | createUser profileName email loginName password =>
    exact .map _ (.require fun _ => .require fun _ => .require fun _ => .require fun _ => .nil _)
  | getUser id => exact .map _ (.require fun _ => .nil _)
  | changeCredentials id loginName password =>
    -- the id is not looked at before the hashing, so it must not be the one that is empty
    refine .map _ (.require fun hname => .require fun hpassword => .of_complete ?_)
    rw [List.forall_mem_singleton]
    rintro rfl
    exact hhash password (.credentials hname hpassword)
  | changePassword id password =>
    refine .map _ (.require fun hpassword => .of_complete ?_)
    rw [List.forall_mem_singleton]
    rintro rfl
    exact hhash password (.password hpassword)
  | changeProfileName id profileName => exact .map _ (.require fun _ => (guarded_update id _).bind)
  | changeEmail id email => exact .map _ (.require fun _ => (guarded_update id _).bind)
  | authenticate loginName password =>
    exact .map _ (.require fun _ => .require fun _ => .nil _)
  | setEmailVerified id => exact .map _ (guarded_update id _).bind
  | confirmEmail id email => exact .map _ (.require fun _ => (guarded_update id _).bind)
  | newToken fields =>
    cases fields with
    | nil => exact .nil _
    | cons f rest =>
      refine .map _ (.bind ?_)
      unfold findByAll
      rw [requireField_eq]
      exact .require fun hvalue => absurd (.fields hvalue) (hsearch f)
  | resetCredentials token loginName password =>
    exact .map _ (.require fun _ => .require fun _ => .require fun _ => .nil _)

theorem perform_eq_throw (rules : Rules) (ho : o.IsIncomplete)
    (hhash : ∀ password, ¬ o.HashesFirst password) (hsearch : ∀ f, ¬ o.SearchesFirst f) :
    perform rules o = throw o.refusal := by
  unfold Operation.refusal
  cases hfirst : firstEmpty? o.arguments with
  | some name => exact guarded_perform rules hhash hsearch name hfirst
  | none =>
    rcases ho with rfl | ⟨a, ha, hempty⟩
    · rfl
    · exact absurd hempty (firstEmpty?_eq_none.1 hfirst a ha)

/-! ### Refusing after the password has been hashed -/

theorem Operation.HashesFirst.refusal_eq (ho : o.HashesFirst password) :
    o.refusal = .invalidArguments "user_id must not be empty" := by
  cases ho with
  | credentials hname hpassword =>
    simp only [refusal, arguments, firstEmpty?_cons_of_ne hname, firstEmpty?_cons_of_ne hpassword]
    rfl
  | password hpassword =>
    simp only [refusal, arguments, firstEmpty?_cons_of_ne hpassword]
    rfl

theorem update_empty (change : User → Except ServiceError User) :
    update "" change = throw (.invalidArguments "user_id must not be empty") := rfl

theorem Operation.HashesFirst.perform_eq (ho : o.HashesFirst password) (rules : Rules) :
    perform rules o = hashPassword password >>= fun _ => throw o.refusal := by
  rw [ho.refusal_eq]
  cases ho with
  | credentials hname hpassword =>
    simp only [perform, Service.changeCredentials, require_of_ne hname, require_of_ne hpassword,
      pure_bind, update_empty, throw_bind, map_bind, map_throw]
  | password hpassword =>
    simp only [perform, Service.changePassword, require_of_ne hpassword, pure_bind, update_empty,
      throw_bind, map_bind, map_throw]

/-! ### Runs -/

variable {h : Handler interface σ} {s : σ} {rules : Rules} {f : SearchField}
  {known : Option User} {fields : List SearchField}

/-- What an operation answers. -/
def answerOf (h : Handler interface σ) (rules : Rules) (s : σ) (o : Operation) :
    Except ServiceError Answer := ((perform rules o).run.run h s).1

/-- The calls that an operation makes. -/
def callsOf (h : Handler interface σ) (rules : Rules) (s : σ) (o : Operation) : List Call :=
  (perform rules o).run.calls h s

theorem run_ask (h : Handler interface σ) (c : Call) (s : σ) :
    (ask c).run.run h s = (.ok (h c s).1, (h c s).2) := rfl

theorem run_hashPassword (h : Handler interface σ) (password : String) (s : σ) :
    (hashPassword password).run.run h s =
      (match (h (.hash password) s).1 with
        | none => .error crashed
        | some (.error e) => .error (.hasher e)
        | some (.ok hash) => .ok hash, (h (.hash password) s).2) := by
  unfold hashPassword
  rw [run_bind_except, run_ask]
  simp only
  rcases (h (.hash password) s).1 with _ | _ | hash <;> rfl

theorem calls_hashPassword (h : Handler interface σ) (password : String) (s : σ) :
    (hashPassword password).run.calls h s = [.hash password] := by
  unfold hashPassword
  rw [calls_bind_except, run_ask]
  simp only
  rcases (h (.hash password) s).1 with _ | _ | hash <;> rfl

theorem Operation.HashesFirst.answerOf_eq (ho : o.HashesFirst password) :
    answerOf h rules s o = match (h (.hash password) s).1 with
      | none => .error crashed
      | some (.error e) => .error (.hasher e)
      | some (.ok _) => .error o.refusal := by
  unfold answerOf
  rw [ho.perform_eq, run_bind_except, run_hashPassword]
  rcases (h (.hash password) s).1 with _ | _ | hash <;> rfl

theorem Operation.HashesFirst.callsOf_eq (ho : o.HashesFirst password) :
    callsOf h rules s o = [.hash password] := by
  unfold callsOf
  rw [ho.perform_eq, calls_bind_except, calls_hashPassword, run_hashPassword]
  rcases (h (.hash password) s).1 with _ | _ | hash <;> rfl

/-! ### Refusing after a search -/

/-- A field without a value is refused, if not one before it. -/
theorem findByAll_fails (hempty : ∃ f ∈ fields, f.value = "") (known : Option User) (s : σ) :
    ∃ e, ((findByAll known fields).run.run h s).1 = .error e := by
  induction fields generalizing known s with
  | nil => simp at hempty
  | cons f rest ih =>
    unfold findByAll
    rw [requireField_eq]
    by_cases hvalue : f.value = ""
    · rw [hvalue]
      exact ⟨_, rfl⟩
    have hrest : ∃ g ∈ rest, g.value = "" := by simpa [hvalue] using hempty
    rw [require_of_ne hvalue, pure_bind, run_bind_except]
    rcases (onDirectory (Directory.find f)).run.run h s with ⟨e | u, s'⟩
    · exact ⟨e, rfl⟩
    · simp only
      split
      · exact ⟨_, rfl⟩
      · exact ih hrest _ _

theorem only_findByAll_isSearch (fields : List SearchField) (known : Option User) :
    (findByAll known fields).run.Only fun (c : Call) => c.isSearch = true :=
  only_findByAll_of only_find_isSearch

/-- The search for a value calls the directory. -/
theorem exists_directory_find (hvalue : f.value ≠ "") (h : Handler interface σ) (s : σ) :
    ∃ c, .directory c ∈ (onDirectory (Directory.find f)).run.calls h s := by
  cases f with
  | id id =>
    refine ⟨.backend (.record id), ?_⟩
    have hid : id ≠ "" := hvalue
    change _ ∈ (onDirectory (Directory.get id)).run.calls h s
    unfold Directory.get
    rw [if_neg hid]
    exact List.mem_cons_self
  | loginName key => exact ⟨.backend (.owner "login_name" key), List.mem_cons_self⟩
  | email key => exact ⟨.backend (.owner "emails" key), List.mem_cons_self⟩
  | resetToken key => exact ⟨.backend (.owner "reset_password_token" key), List.mem_cons_self⟩

/-- When the fields are refused that is all. -/
theorem run_newToken_of_error {e : ServiceError} (rules : Rules)
    (he : ((findByAll none fields).run.run h s).1 = .error e) :
    answerOf h rules s (.newToken fields) = .error e ∧
      callsOf h rules s (.newToken fields) = (findByAll none fields).run.calls h s := by
  unfold answerOf callsOf
  simp only [perform, newTokenBy, map_eq_pure_bind, bind_assoc]
  rw [run_bind_except, calls_bind_except]
  generalize (findByAll none fields).run.run h s = r at he
  obtain ⟨_ | _, s'⟩ := r
  · cases he
    exact ⟨rfl, List.append_nil _⟩
  · cases he

/-- The search for the first field calls the directory, whatever the other fields are. -/
theorem Operation.SearchesFirst.exists_directory (ho : o.SearchesFirst f)
    (h : Handler interface σ) (rules : Rules) (s : σ) :
    ∃ c, .directory c ∈ callsOf h rules s o := by
  obtain @⟨rest, hvalue⟩ := ho
  obtain ⟨c, hc⟩ := exists_directory_find hvalue h s
  refine ⟨c, ?_⟩
  unfold callsOf
  simp only [perform, newTokenBy, findByAll, requireField_eq, require_of_ne hvalue, pure_bind,
    map_eq_pure_bind, bind_assoc]
  rw [calls_bind_except]
  exact List.mem_append_left _ hc

/-! ### Refusing -/

/-- The refusal of arguments is all: the directory is not called, and nothing is announced. -/
structure RejectedAtOnce (h : Handler interface σ) (rules : Rules) (s : σ) (o : Operation) :
    Prop where
  invalid : ∃ reason, answerOf h rules s o = .error (.invalidArguments reason)
  silent : ∀ c ∈ callsOf h rules s o, (∀ d, c ≠ .directory d) ∧ ∀ e, c ≠ .publish e

/-- The empty argument is looked at too late: after the hashing of a password, which fails, or
after a search. -/
inductive Late (h : Handler interface σ) (s : σ) (o : Operation) : Prop
  | hashing {password : String} (ho : o.HashesFirst password)
    (hfails : ∀ hash, (h (.hash password) s).1 ≠ some (.ok hash)) : Late h s o
  | search {f : SearchField} (ho : o.SearchesFirst f) : Late h s o

/-- A call that hashes a password, or looks at the tables at most. -/
def Call.isPreliminary : Call → Bool
  | .hash _ => true
  | c => c.isSearch

theorem Operation.HashesFirst.unique {password' : String} (ho : o.HashesFirst password)
    (ho' : o.HashesFirst password') : password = password' := by
  cases ho <;> cases ho' <;> rfl

theorem Operation.HashesFirst.not_searchesFirst (ho : o.HashesFirst password) :
    ¬ o.SearchesFirst f := by
  intro hf
  cases hf
  cases ho

theorem Operation.exists_refusal (o : Operation) :
    ∃ reason, o.refusal = .invalidArguments reason := by
  unfold refusal
  cases firstEmpty? o.arguments <;> exact ⟨_, rfl⟩

/-- An incomplete operation is nothing but its refusal, or hashes or searches first. -/
theorem Operation.IsIncomplete.cases (ho : o.IsIncomplete) (rules : Rules) :
    perform rules o = throw o.refusal ∨ (∃ password, o.HashesFirst password) ∨
      ∃ f, o.SearchesFirst f := by
  by_cases hhash : ∃ password, o.HashesFirst password
  · exact .inr (.inl hhash)
  by_cases hsearch : ∃ f, o.SearchesFirst f
  · exact .inr (.inr hsearch)
  exact .inl (perform_eq_throw rules ho (not_exists.1 hhash) (not_exists.1 hsearch))

/-- A list of fields that is incomplete fails as the search by them does. -/
theorem Operation.SearchesFirst.fails (hfirst : o.SearchesFirst f) (ho : o.IsIncomplete)
    (h : Handler interface σ) (rules : Rules) (s : σ) :
    ∃ fields e, answerOf h rules s o = .error e ∧
      callsOf h rules s o = (findByAll none fields).run.calls h s := by
  obtain @⟨rest, -⟩ := hfirst
  have hempty : ∃ g ∈ f :: rest, g.value = "" := by
    rcases ho with hnil | ⟨a, ha, hempty⟩
    · cases hnil
    · obtain ⟨g, hg, rfl⟩ := List.mem_map.1 ha
      exact ⟨g, hg, hempty⟩
  obtain ⟨e, he⟩ := findByAll_fails (h := h) hempty none s
  exact ⟨f :: rest, e, run_newToken_of_error rules he⟩

theorem Operation.IsIncomplete.fails (ho : o.IsIncomplete) (h : Handler interface σ) (rules : Rules)
    (s : σ) : ∃ e, answerOf h rules s o = .error e := by
  rcases ho.cases rules with heq | ⟨password, hfirst⟩ | ⟨f, hfirst⟩
  · exact ⟨o.refusal, by rw [answerOf, heq]; rfl⟩
  · rw [hfirst.answerOf_eq]
    rcases (h (.hash password) s).1 with _ | _ | hash <;> exact ⟨_, rfl⟩
  · obtain ⟨_, e, he, -⟩ := hfirst.fails ho h rules s
    exact ⟨e, he⟩

theorem Operation.IsIncomplete.isPreliminary (ho : o.IsIncomplete) (h : Handler interface σ)
    (rules : Rules) (s : σ) : ∀ c ∈ callsOf h rules s o, c.isPreliminary = true := by
  rcases ho.cases rules with heq | ⟨password, hfirst⟩ | ⟨f, hfirst⟩
  · rw [callsOf, heq]
    nofun
  · rw [hfirst.callsOf_eq, List.forall_mem_singleton]
    rfl
  · obtain ⟨fields, e, -, hcalls⟩ := hfirst.fails ho h rules s
    rw [hcalls]
    intro c hc
    have hsearch := (only_findByAll_isSearch fields none).forall_mem_calls h s c hc
    cases c with
    | directory d => exact hsearch
    | _ => cases hsearch

/-- An operation is late for a password exactly when the hashing fails. -/
theorem Operation.HashesFirst.late_iff (ho : o.HashesFirst password) :
    Late h s o ↔ ∀ hash, (h (.hash password) s).1 ≠ some (.ok hash) := by
  constructor
  · rintro (⟨hfirst, hfails⟩ | hfirst)
    · rwa [ho.unique hfirst]
    · exact absurd hfirst ho.not_searchesFirst
  · exact .hashing ho

/-- Unless it is too late the refusal names the first argument that is empty. -/
theorem Operation.IsIncomplete.answerOf_eq (ho : o.IsIncomplete) (hlate : ¬ Late h s o) :
    answerOf h rules s o = .error o.refusal := by
  rcases ho.cases rules with heq | ⟨password, hfirst⟩ | ⟨f, hfirst⟩
  · rw [answerOf, heq]
    rfl
  · rw [hfirst.late_iff] at hlate
    obtain ⟨hash, hhash⟩ := not_forall_not.1 hlate
    rw [hfirst.answerOf_eq, hhash]
  · exact absurd (.search hfirst) hlate

theorem Late.not_rejectedAtOnce (hlate : Late h s o) : ¬ RejectedAtOnce h rules s o := by
  rintro ⟨⟨reason, hreason⟩, hsilent⟩
  rcases hlate with ⟨hfirst, hfails⟩ | hfirst
  · rw [hfirst.answerOf_eq] at hreason
    split at hreason
    · cases hreason
    · cases hreason
    · next hash hhash => exact hfails hash hhash
  · obtain ⟨d, hd⟩ := hfirst.exists_directory h rules s
    exact (hsilent _ hd).1 d rfl

theorem Operation.IsIncomplete.rejectedAtOnce (ho : o.IsIncomplete) (hlate : ¬ Late h s o) :
    RejectedAtOnce h rules s o := by
  obtain ⟨reason, hreason⟩ := o.exists_refusal
  refine ⟨⟨reason, by rw [ho.answerOf_eq hlate, hreason]⟩, ?_⟩
  rcases ho.cases rules with heq | ⟨password, hfirst⟩ | ⟨f, hfirst⟩
  · rw [callsOf, heq]
    nofun
  · rw [hfirst.callsOf_eq, List.forall_mem_singleton]
    exact ⟨nofun, nofun⟩
  · exact absurd (.search hfirst) hlate

/-- An incomplete operation fails. It is refused at once, and for the first argument that is empty,
if and only if it neither searches nor fails to hash before; in any case it makes no calls but
such. -/
theorem rejected_at_once_iff (h : Handler interface σ) (rules : Rules) (s : σ)
    (ho : o.IsIncomplete) :
    (RejectedAtOnce h rules s o ↔ ¬ Late h s o) ∧
      (¬ Late h s o → answerOf h rules s o = .error o.refusal) ∧
      (∃ e, answerOf h rules s o = .error e) ∧
      ∀ c ∈ callsOf h rules s o, c.isPreliminary = true :=
  ⟨⟨fun hatOnce hlate => hlate.not_rejectedAtOnce hatOnce, ho.rejectedAtOnce⟩, ho.answerOf_eq,
    ho.fails h rules s, ho.isPreliminary h rules s⟩

/-- A service without users whose hasher fails on one password. -/
def faulty : Solo Environment where
  tables := .empty
  around := { counting 0 with hasher := .ofPlain ⟨"plain:", ["plain:"], [], ["secret"], []⟩ }
  events := []

/-- A search by an unknown address and a name that is empty. -/
def namelessSearch : Operation := .newToken [.email "nobody@example.com", .loginName ""]

theorem isIncomplete_namelessSearch : namelessSearch.IsIncomplete :=
  .inr ⟨("login_name", ""), by decide, rfl⟩

/-- Nobody without an address can be added, and a password that can be hashed is not changed for
nobody, but a search is late. -/
theorem rejected_at_once_iff_faulty :
    RejectedAtOnce (alone Environment.answer) .standard faulty
        (.createUser "Bob" "" "bob" "secret") ∧
      RejectedAtOnce (alone Environment.answer) .standard faulty (.changePassword "" "hunter2") ∧
      ¬ RejectedAtOnce (alone Environment.answer) .standard faulty namelessSearch := by
  refine ⟨?_, ?_, ?_⟩
  · refine (rejected_at_once_iff _ .standard faulty (.inr ⟨("email", ""), by decide, rfl⟩)).1.2 ?_
    rintro (⟨hfirst, -⟩ | hfirst) <;> cases hfirst
  · refine (rejected_at_once_iff _ .standard faulty (.inr ⟨("user_id", ""), by decide, rfl⟩)).1.2 ?_
    rintro (⟨hfirst, hfails⟩ | hfirst)
    · cases hfirst
      exact hfails "plain:hunter2" rfl
    · cases hfirst
  · refine mt (rejected_at_once_iff _ .standard faulty isIncomplete_namelessSearch).1.1 ?_
    exact not_not_intro (.search (.fields (by decide)))

/-- An unknown address hides that the name is empty, and a hasher that fails hides that there is no
id. -/
theorem rejected_too_late :
    (namelessSearch.IsIncomplete ∧
      answerOf (alone Environment.answer) .standard faulty namelessSearch =
        .error (.directory .notFound) ∧
      callsOf (alone Environment.answer) .standard faulty namelessSearch =
        [.directory (.backend (.owner "emails" "nobody@example.com"))]) ∧
    (Operation.changePassword "" "secret").IsIncomplete ∧
      answerOf (alone Environment.answer) .standard faulty (.changePassword "" "secret") =
        .error (.hasher (.hashing "injected")) :=
  ⟨⟨isIncomplete_namelessSearch, rfl, rfl⟩, .inr ⟨("user_id", ""), by decide, rfl⟩, rfl⟩

end Accounts.Service
