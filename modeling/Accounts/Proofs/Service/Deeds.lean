import Accounts.Proofs.Service.Effect

/-!
# Deeds

What operations do to accounts and tokens, read off their answers and events (`outcome_cases`), and
the chronicle of the deeds of a run.
-/
namespace Accounts.Service

open Backend Program

variable {ε : Type}

/-- What an operation does to accounts and tokens. -/
inductive Deed where
  | created (id : String)
  | issued (id token : String) (time : Instant)
  | redeemed (token : String)
  deriving DecidableEq, Repr

def Deed.created? : Deed → Option String
  | .created id => some id
  | _ => none

/-- The ids of the accounts that were created. -/
def createdIds (ds : List Deed) : List String := ds.filterMap Deed.created?

theorem createdIds_append (ds ds' : List Deed) :
    createdIds (ds ++ ds') = createdIds ds ++ createdIds ds' := List.filterMap_append

/-- The deeds of an operation in these surroundings, read off its result and its events. A token is
issued at the time that the clock shows when it has been drawn. -/
def Operation.deeds (env : Handler interface ε) (x : ε) :
    Operation → Except ServiceError Answer → List Event → List Deed
  | .createUser _ _ _ _, .ok (.text id), _ => [.created id]
  | .newToken _, .ok (.text token), [.tokenCreated id] =>
    [.issued id token (env .now (env .newToken x).2).1]
  | .resetCredentials token _ _, .ok _, _ => [.redeemed token]
  | _, _, _ => []

/-- The user that an operation may save on these tables, and its deeds if that succeeds. -/
inductive Attempt (env : Handler interface ε) (t : Tables) : Operation → User → List Deed → Prop
  | create (profileName email loginName password id hash : String) :
    Attempt env t (.createUser profileName email loginName password)
      (.create id profileName email loginName hash) [.created id]
  | keep {o : Operation} {id : String} {u v : User} (hu : t.user? id = some u) (hid : v.id = u.id)
    (htoken : v.resetToken = u.resetToken) (hissued : v.resetTokenIssued = u.resetTokenIssued) :
    Attempt env t o v []
  | issue {fields : List SearchField} {id : String} {u : User} (hu : t.user? id = some u)
    (token : String) (y : ε) :
    Attempt env t (.newToken fields) (u.withToken token (env .now y).1)
      [.issued u.id token (env .now y).1]
  | redeem {id token loginName password : String} {u : User} (hu : t.user? id = some u)
    (htoken : u.unique? .resetToken = some token) (hash : String) :
    Attempt env t (.resetCredentials token loginName password) (u.withCredentials loginName hash)
      [.redeemed token]

/-- An operation has changed nothing, or it has saved a user. -/
def Ends (env : Handler interface ε) (x : ε) (o : Operation) (t : Tables)
    (r : Except ServiceError Answer) (s : Solo ε) : Prop :=
  (s.tables = t ∧ o.deeds env x r s.events = []) ∨
    ∃ v ds, Attempt env t o v ds ∧ s.tables = (Directory.runAlone (Directory.save v) t).2 ∧
      o.deeds env x r s.events = match (Directory.runAlone (Directory.save v) t).1 with
        | .ok _ => ds
        | .error _ => []

variable {env : Handler interface ε} {x : ε} {o : Operation} {t : Tables} {s : Solo ε} {v : User}

/-! ### The deeds of one operation -/

theorem deeds_error (o : Operation) (e : ServiceError) (events : List Event) :
    o.deeds env x (.error e) events = [] := by
  cases o <;> rfl

theorem deeds_of_isLook (ho : o.isLook = true) (r : Except ServiceError Answer)
    (events : List Event) : o.deeds env x r events = [] := by
  cases o with
  | getUser id => rfl
  | authenticate loginName password => rfl
  | _ => cases ho

/-- A user that is saved, and the deeds if that succeeds. -/
theorem Writes.attempt (h : Writes env x t o v) :
    Attempt env t o v (o.deeds env x (.ok (o.answer v)) (o.event? v).toList) := by
  cases h with
  | created profileName email loginName password id hash =>
    exact .create profileName email loginName password id hash
  | altered hu hv =>
    have hstored := hu.stored
    cases hv with
    | issued fields u token => exact .issue hstored token _
    | redeemed loginName password htoken hash => exact .redeem hstored htoken hash
    | _ => exact .keep hstored rfl rfl rfl

/-- A refused save has no deeds. -/
theorem Spared.ends {s : Solo ε} (h : Spared env x t o s.tables) {r : Except ServiceError Answer}
    (hdeeds : o.deeds env x r s.events = []) : Ends env x o t r s := by
  rcases h with hsame | ⟨v, e, hv, hrefused⟩
  · exact Or.inl ⟨hsame, hdeeds⟩
  · refine Or.inr ⟨v, _, hv.attempt, by rw [hrefused], ?_⟩
    rw [hrefused, hdeeds]

theorem Effect.ends {r : Except ServiceError Answer} {s : Solo ε} (h : Effect env x t o r s) :
    Ends env x o t r s := by
  cases h with
  | failed hspared hevents => exact hspared.ends (deeds_error o _ _)
  | looked hlook hu hspared hevents => exact hspared.ends (deeds_of_isLook hlook _ _)
  | written hv hsaved hevents =>
    refine Or.inr ⟨_, _, hv.attempt, by rw [hsaved], ?_⟩
    rw [hsaved, hevents]

/-- An operation leaves the tables alone and has no deeds, or saves one user, with whose save its
deeds stand and fall. -/
theorem outcome_cases (hnamed : t.Named) (env : Handler interface ε) (rules : Rules) (x : ε)
    (o : Operation) :
    Ends env x o t (outcome env rules x o t).1 (outcome env rules x o t).2 :=
  (outcome_effect hnamed env rules x o).ends

/-! ### One operation after another -/

/-- The tables, and the deeds of all operations so far. -/
@[ext]
structure Chronicle where
  tables : Tables
  deeds : List Deed

/-- The operations of the list one after another, each in surroundings of its own. -/
def chronicle (env : Handler interface ε) (rules : Rules) (t : Tables)
    (run : List (ε × Operation)) : Chronicle :=
  run.foldl (fun c e =>
    let (r, s) := outcome env rules e.1 e.2 c.tables
    ⟨s.tables, c.deeds ++ e.2.deeds env e.1 r s.events⟩) ⟨t, []⟩

section

variable {rules : Rules} {run : List (ε × Operation)} {e : ε × Operation}

theorem tables_concat : (chronicle env rules t (run ++ [e])).tables =
    (outcome env rules e.1 e.2 (chronicle env rules t run).tables).2.tables :=
  congrArg Chronicle.tables List.foldl_append

theorem deeds_concat : (chronicle env rules t (run ++ [e])).deeds =
    (chronicle env rules t run).deeds ++ e.2.deeds env e.1
      (outcome env rules e.1 e.2 (chronicle env rules t run).tables).1
      (outcome env rules e.1 e.2 (chronicle env rules t run).tables).2.events :=
  congrArg Chronicle.deeds List.foldl_append

end

end Accounts.Service
