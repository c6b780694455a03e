import Accounts.Proofs.Directory.Search
import Accounts.Proofs.Service.Rehash

/-!
# The user that a token is issued to

A token is issued by a list of fields. It goes to the one stored user that all of them are for
(`Agree`), and to nobody if one of them has no value, is for no user, or is for another user than
those before it; the first such field is what the refusal tells of (`token_by_fields`). A refusal
draws nothing and changes nothing.
-/
namespace Accounts

/-- The name of the argument that a field of a search is given by. -/
def SearchField.argument : SearchField → String
  | .id _ => "user_id"
  | .loginName _ => "login_name"
  | .email _ => "email"
  | .resetToken _ => "token"

namespace Service

open Backend Program
open Directory (Resolves LedAstray FindAnswer)

variable {ε : Type} {env : Handler interface ε} {s : Logged ε} {t : Tables} {x : ε}
  {before fields : List SearchField} {f : SearchField} {known : Option User} {u v : User}

theorem requireField_eq (f : SearchField) : requireField f = require f.argument f.value := by
  cases f <;> rfl

/-- There are fields, and each of them has a value that leads to this stored user. -/
def Agree (t : Tables) (fields : List SearchField) (u : User) : Prop :=
  fields ≠ [] ∧ ∀ f ∈ fields, f.value ≠ "" ∧ Resolves t f u

/-- Whom the fields so far lead to. -/
def LeadTo (t : Tables) (fields : List SearchField) : Option User → Prop
  | none => fields = []
  | some u => Agree t fields u

/-- Why a field is refused after fields that lead to `known`. -/
inductive Offence (t : Tables) (known : Option User) (f : SearchField) : ServiceError → Prop
  | empty (hvalue : f.value = "") :
    Offence t known f (.invalidArguments (f.argument ++ " must not be empty"))
  | unknown (hvalue : f.value ≠ "") (hnone : ∀ u, ¬ Resolves t f u) (hsound : ¬ LedAstray t f) :
    Offence t known f (.directory .notFound)
  | unreadable (hvalue : f.value ≠ "") (hnone : ∀ u, ¬ Resolves t f u) (hastray : LedAstray t f) :
    Offence t known f (.directory (.corrupt "not a user"))
  | different {k u : User} (hvalue : f.value ≠ "") (hknown : known = some k) (hu : Resolves t f u)
    (hne : k ≠ u) :
    Offence t known f (.invalidArguments (f.describe ++ " belongs to a different user"))

/-- Why no token is issued by these fields: there is none, or one is the first that is refused. -/
inductive Unresolved (t : Tables) : List SearchField → ServiceError → Prop
  | nothing : Unresolved t [] (.invalidArguments "an email or login name is required")
  | offended {before after : List SearchField} {f : SearchField} {known : Option User}
    {e : ServiceError} (hbefore : LeadTo t before known) (hoffence : Offence t known f e) :
    Unresolved t (before ++ f :: after) e

/-- A call that looks at the tables at most. -/
def Call.isSearch : Call → Bool
  | .directory c => (Call.directory c).isQuiet
  | _ => false

/-- So far the operation has only searched. -/
structure Searching (t : Tables) (x : ε) (s : Logged ε) : Prop where
  tables : s.tables = t
  around : s.around = x
  events : s.events = []
  calls : ∀ c ∈ s.log, c.isSearch = true

/-! ### Fields -/

theorem LeadTo.concat (h : LeadTo t before known) (hvalue : f.value ≠ "")
    (hu : Resolves t f u) (hsame : ∀ k, known = some k → k = u) :
    LeadTo t (before ++ [f]) (some u) := by
  refine ⟨by simp, fun g hg => ?_⟩
  rcases List.mem_append.1 hg with hg | hg
  · cases known with
    | none =>
      rw [show before = [] from h] at hg
      cases hg
    | some k =>
      obtain rfl := hsame k rfl
      exact h.2 g hg
  · obtain rfl := List.mem_singleton.1 hg
    exact ⟨hvalue, hu⟩

/-- Users whom fields lead to are stored. -/
theorem Agree.stored (h : Agree t fields u) : t.user? u.id = some u := by
  obtain ⟨f, hf⟩ := List.exists_mem_of_ne_nil fields h.1
  exact (h.2 f hf).2.1

/-- A field for a user with the same id is for the same user. -/
theorem Agree.eq_of_id (h : Agree t fields u) (hv : Resolves t f v) (hid : u.id = v.id) :
    u = v := by
  have hstored := h.stored
  rw [hid, hv.1] at hstored
  exact (Option.some.inj hstored).symm

theorem Agree.unique (ht : t.Coherent) (hu : Agree t fields u) (hv : Agree t fields v) : u = v := by
  obtain ⟨f, hf⟩ := List.exists_mem_of_ne_nil fields hu.1
  exact (hu.2 f hf).2.unique ht (hv.2 f hf).2

/-- Where a field is refused the fields do not agree. -/
theorem Unresolved.not_agree (ht : t.Coherent) {e : ServiceError} (h : Unresolved t fields e) :
    ¬ Agree t fields u := by
  rintro ⟨hsome, hall⟩
  cases h with
  | nothing => exact hsome rfl
  | @offended before after f known e hbefore hoffence =>
    obtain ⟨hvalue, hu⟩ := hall f (by simp)
    cases hoffence with
    | empty hempty => exact hvalue hempty
    | unknown _ hnone => exact hnone u hu
    | unreadable _ hnone => exact hnone u hu
    | @different k v _ hknown hv hne =>
      subst hknown
      obtain ⟨g, hg⟩ := List.exists_mem_of_ne_nil before hbefore.1
      have hk : k = u := (hbefore.2 g hg).2.unique ht (hall g (by simp [hg])).2
      exact hne (hk.trans (hu.unique ht hv))

theorem LeadTo.unique (ht : t.Coherent) {known' : Option User} (h : LeadTo t before known)
    (h' : LeadTo t before known') : known = known' := by
  cases known with
  | none =>
    cases known' with
    | none => rfl
    | some u => exact absurd h h'.1
  | some u =>
    cases known' with
    | none => exact absurd h' h.1
    | some v => exact congrArg some (Agree.unique ht h h')

theorem Offence.unique {e e' : ServiceError} (h : Offence t known f e)
    (h' : Offence t known f e') : e = e' := by
  cases h with
  | empty hempty =>
    cases h' with
    | empty => rfl
    | _ hvalue => exact absurd hempty hvalue
  | unknown hvalue hnone hsound =>
    cases h' with
    | empty hempty => exact absurd hempty hvalue
    | unknown => rfl
    | unreadable _ _ hastray => exact absurd hastray hsound
    | different _ _ hu => exact absurd hu (hnone _)
  | unreadable hvalue hnone hastray =>
    cases h' with
    | empty hempty => exact absurd hempty hvalue
    | unknown _ _ hsound => exact absurd hastray hsound
    | unreadable => rfl
    | different _ _ hu => exact absurd hu (hnone _)
  | different hvalue _ hu =>
    cases h' with
    | empty hempty => exact absurd hempty hvalue
    | different => rfl
    | _ _ hnone => exact absurd hu (hnone _)

/-- Of two fields that are refused after fields that lead to a user, none comes later. -/
theorem Offence.unique_of_append (ht : t.Coherent) {after after' more : List SearchField}
    {f' : SearchField} {known' : Option User} {e e' : ServiceError}
    (hbefore : LeadTo t before known) (h : Offence t known f e)
    (hbefore' : LeadTo t (before ++ more) known')
    (h' : Offence t known' f' e') (hfields : f :: after = more ++ f' :: after') : e = e' := by
  cases more with
  | nil =>
    obtain ⟨rfl, -⟩ := List.cons.inj hfields
    rw [List.append_nil] at hbefore'
    obtain rfl := hbefore.unique ht hbefore'
    exact h.unique h'
  | cons g more =>
    -- a field that is refused is not among fields that lead to a user
    obtain ⟨rfl, -⟩ := List.cons.inj hfields
    cases known' with
    | none => simp [LeadTo] at hbefore'
    | some u => exact ((Unresolved.offended hbefore h).not_agree ht hbefore').elim

/-- There is one first field that is refused. -/
theorem Unresolved.unique (ht : t.Coherent) {e e' : ServiceError} (h : Unresolved t fields e)
    (h' : Unresolved t fields e') : e = e' := by
  generalize hfields : fields = l at h'
  cases h with
  | nothing =>
    cases h' with
    | nothing => rfl
    | offended => simp at hfields
  | offended hbefore hoffence =>
    cases h' with
    | nothing => simp at hfields
    | offended hbefore' hoffence' =>
      rcases List.append_eq_append_iff.1 hfields with ⟨more, rfl, hmore⟩ | ⟨more, rfl, hmore⟩
      · exact hoffence.unique_of_append ht hbefore hbefore' hoffence' hmore
      · exact (hoffence'.unique_of_append ht hbefore' hbefore hoffence hmore).symm

/-! ### Searching -/

theorem only_find_isSearch (field : SearchField) :
    (onDirectory (Directory.find field)).run.Only fun (c : Call) => c.isSearch = true := by
  refine only_onDirectory (fun c hc => ?_)
    (Directory.only_find (P := fun r => isLook r = true) ⟨fun _ => rfl, fun _ _ => rfl⟩ field)
  cases c with
  | backend r => exact hc
  | lock => rfl
  | unlock => rfl

theorem Searching.find (h : Searching t x s) (field : SearchField) :
    (onDirectory (Directory.find field)).run.wp (answered (visited env unvisited)) (fun r s' =>
      r = (Directory.runAlone (Directory.find field) t).1.mapError .directory ∧
        Searching t x s') s := by
  refine wp_mono ?_ (wp_onDirectory_calm (only_find_isSearch field) fun _ _ => rfl)
  rintro r _ ⟨calls, hcalls, rfl, rfl⟩
  rw [h.tables, Directory.runAlone_find_tables]
  refine ⟨rfl, rfl, h.around, h.events, fun c hc => ?_⟩
  exact (List.mem_append.1 hc).elim (h.calls c) (hcalls c)

/-- The fields lead to nobody yet, or to one user, or one of them is the first that is refused. -/
theorem wp_findByAll_resolved (ht : t.Coherent) (h : Searching t x s)
    (hknown : LeadTo t before known) (rest : List SearchField) :
    (findByAll known rest).run.wp (answered (visited env unvisited)) (fun r s' =>
      Searching t x s' ∧ match r with
        | .ok found => LeadTo t (before ++ rest) found
        | .error e => Unresolved t (before ++ rest) e) s := by
  induction rest generalizing before known s with
  | nil =>
    rw [List.append_nil]
    exact ⟨h, hknown⟩
  | cons f rest ih =>
    unfold findByAll
    rw [requireField_eq]
    by_cases hvalue : f.value = ""
    · rw [wp_require_of_eq hvalue]
      exact ⟨h, .offended hknown (.empty hvalue)⟩
    rw [wp_require_of_ne hvalue]
    obtain ⟨r, hrun, hr⟩ := Directory.runAlone_find_answer ht hvalue
    refine wp_seq (h.find f) ?_ ?_
    · rintro w s₁ ⟨hw, h₁⟩
      rw [hrun] at hw
      cases hr with
      | nobody => cases hw
      | astray => cases hw
      | found hu =>
        cases hw
        split
        · next hother =>
          cases known with
          | none => cases hother
          | some k =>
            refine ⟨h₁, .offended hknown (.different hvalue rfl hu ?_)⟩
            rintro rfl
            simp at hother
        · next hsame =>
          have hone (k : User) (hk : known = some k) : k = w := by
            subst hk
            exact hknown.eq_of_id hu (by simpa using hsame)
          have hgetD : known.getD w = w := by
            cases known with
            | none => rfl
            | some k => exact hone k rfl
          rw [hgetD, List.append_cons]
          exact ih h₁ (hknown.concat hvalue hu hone)
    · rintro e s₁ ⟨he, h₁⟩
      rw [hrun] at he
      cases hr with
      | found => cases he
      | nobody hnone hsound =>
        cases he
        exact ⟨h₁, .offended hknown (.unknown hvalue hnone hsound)⟩
      | astray hastray =>
        cases he
        refine ⟨h₁, .offended hknown (.unreadable hvalue (fun u hu => ?_) hastray)⟩
        exact hu.not_ledAstray ht hastray

/-! ### Issuing -/

/-- What is left when the fields have led to a user. -/
def issue (u : User) : Action String := do
  let token ← newToken
  let now : Instant ← ask .now
  save (u.withToken token now)
  publish (.tokenCreated u.id)
  pure token

theorem wp_newTokenBy_of (ht : t.Coherent) {Q : Except ServiceError String → Logged ε → Prop}
    (hrefused : ∀ e s, Unresolved t fields e → Searching t x s → Q (.error e) s)
    (hagree : ∀ u s, Agree t fields u → Searching t x s →
      (issue u).run.wp (answered (visited env unvisited)) Q s) :
    (newTokenBy fields).run.wp (answered (visited env unvisited)) Q ⟨⟨t, x, []⟩, []⟩ := by
  have hstart : Searching t x (⟨⟨t, x, []⟩, []⟩ : Logged ε) := ⟨rfl, rfl, rfl, nofun⟩
  unfold newTokenBy
  refine wp_seq (wp_findByAll_resolved ht hstart (show LeadTo t [] none from rfl) fields) ?_ ?_
  · rintro found s ⟨hs, hfound⟩
    cases found with
    | none =>
      obtain rfl : fields = [] := hfound
      exact hrefused _ s .nothing hs
    | some u => exact hagree u s hfound hs
  · rintro e s ⟨hs, he⟩
    exact hrefused e s he hs

theorem Searching.quiet (h : Searching t x s) : Quiet t x s.log.length s := by
  refine ⟨h.tables, h.around, h.events, rfl, fun c hc => ?_⟩
  have hsearch := h.calls c hc
  cases c with
  | directory c => exact hsearch
  | _ => rfl

/-- A token is drawn, whatever comes of it. -/
theorem wp_issue_draws (u : User) (s : Logged ε) :
    (issue u).run.wp (answered (visited env unvisited)) (fun _ s' => .newToken ∈ s'.log) s := by
  have hgrows {α : Type} {a : Action α} {s : Logged ε} (hs : .newToken ∈ s.log) :
      a.run.wp (answered (visited env unvisited)) (fun _ s' => .newToken ∈ s'.log) s :=
    wp_mono (fun _ _ hs' => hs' hs) (wp_log_grows a.run s)
  have hask : (ask .newToken).run.wp (answered (visited env unvisited))
      (fun _ s' => .newToken ∈ s'.log) s :=
    List.mem_append_right s.log (List.mem_singleton_self _)
  have hdraw : newToken.run.wp (answered (visited env unvisited))
      (fun _ s' => .newToken ∈ s'.log) s :=
    wp_seq hask (fun _ _ hs' => hgrows hs') (fun _ _ hs' => hs')
  exact wp_seq hdraw (fun _ _ hs' => hgrows hs') (fun _ _ hs' => hs')

/-- With a token from the factory the user is saved, and that is announced. -/
theorem Searching.issue (h : Searching t x s) {token : String} {t' : Tables}
    (htoken : (env .newToken x).1 = .ok token)
    (hsave : Directory.runAlone
      (Directory.save (u.withToken token (env .now (env .newToken x).2).1)) t = (.ok (), t')) :
    (issue u).run.wp (answered (visited env unvisited)) (fun r s' =>
      r = .ok token ∧ s'.tables = t' ∧ s'.events = [.tokenCreated u.id]) s := by
  have hdraw : newToken.run.wp (answered (visited env unvisited)) (fun r s' => r = .ok token ∧
      Quiet t (env .newToken x).2 (s.log.length + 1) s') s := by
    refine wp_seq (h.quiet.ask (by simp) (by simp)) ?_ (fun _ _ hs' => by cases hs'.1)
    rintro reply s₁ ⟨hreply, h₁⟩
    rw [htoken] at hreply
    cases hreply
    exact ⟨rfl, h₁⟩
  refine wp_seq hdraw ?_ (fun _ _ hs' => by cases hs'.1)
  rintro _ s₁ ⟨⟨⟩, h₁⟩
  refine wp_seq (Quiet.ask h₁ (by simp) (by simp)) ?_ (fun _ _ hs' => by cases hs'.1)
  rintro _ s₂ ⟨⟨⟩, h₂⟩
  have htables : s₂.tables = t := h₂.tables
  refine wp_seq (wp_onDirectory_calm (only_true _) fun _ _ => rfl) ?_ ?_
  · rintro _ _ ⟨calls, -, -, rfl⟩
    refine ⟨rfl, ?_, congrArg (· ++ [Event.tokenCreated u.id]) h₂.events⟩
    change (Directory.runAlone _ s₂.tables).2 = t'
    rw [htables, hsave]
  · rintro e _ ⟨calls, -, he, -⟩
    rw [htables, hsave] at he
    cases he

/-! ### The tables afterwards -/

variable {token : String} {time : Instant}

/-- The user has the token, nobody else has changed, and searches by the token find the user, but
those by an earlier token of the user nobody. -/
structure Issued (t t' : Tables) (u : User) (token : String) (time : Instant) : Prop where
  stored : t'.user? u.id = some (u.withToken token time)
  others : ∀ other, other ≠ u.id → t'.record other = t.record other
  found : (Directory.runAlone (Directory.find (.resetToken token)) t').1 =
    .ok (u.withToken token time)
  forgotten : ∀ old, u.unique? .resetToken = some old → old ≠ token →
    (Directory.runAlone (Directory.find (.resetToken old)) t').1 = .error .notFound

theorem unique?_withToken (htoken : token ≠ "") :
    (u.withToken token time).unique? .resetToken = some token := by
  simp [User.unique?, User.withToken, htoken]

theorem runAlone_save_withToken (ht : t.Coherent) (hu : t.user? u.id = some u) (hid : u.id ≠ "")
    (hemail : u.email ≠ "") (hname : u.loginName ≠ "") (htoken : token ≠ "")
    (hfree : ∀ other, other ≠ u.id → ¬ t.Carries other .resetToken token)
    (hsound : ¬ LedAstray t (.resetToken token)) (time : Instant) :
    Directory.runAlone (Directory.save (u.withToken token time)) t =
      (.ok (), t.saved (u.withToken token time)) := by
  refine Directory.runAlone_save_of_claimable ht ?_ ?_ ?_
  · rintro (h | h | h | h)
    · exact hid h
    · exact hemail h
    · exact hname h
    · exact htoken (Option.some.inj h)
  · intro hbad
    have hnone : t.user? u.id = none := hbad.user?_eq_none
    rw [hu] at hnone
    cases hnone
  · rintro ⟨f, key⟩ hm
    have hkey := User.mem_uniqueValues.1 hm
    cases f with
    | email => exact ht.claimable ⟨u, hu, hkey⟩
    | loginName => exact ht.claimable ⟨u, hu, hkey⟩
    | resetToken =>
      obtain rfl : token = key := Option.some.inj ((unique?_withToken htoken).symm.trans hkey)
      intro owner howner
      by_cases howns : owner = u.id
      · exact Or.inl howns
      · exact Or.inr (Tables.lacks_of_not_carries (fun hbad => hsound ⟨owner, howner, hbad⟩)
          (hfree owner howns))

/-- The entry of an earlier token is given up. -/
theorem entry_saved_of_replaced (hu : t.user? u.id = some u) (htoken : token ≠ "") {old : String}
    (hold : u.unique? .resetToken = some old) (hne : old ≠ token) :
    (t.saved (u.withToken token time)).entry UniqueField.resetToken.index old = none := by
  have hnew : ¬ Among (u.withToken token time).uniqueValues UniqueField.resetToken.index old := by
    rw [among_uniqueValues, unique?_withToken htoken]
    exact fun h => hne (Option.some.inj h).symm
  have hgone : Among (t.valuesOf (u.withToken token time).id) UniqueField.resetToken.index old :=
    Tables.among_valuesOf.2 ⟨u, hu, hold⟩
  simp only [Tables.saved, if_neg hnew, if_pos hgone]

theorem issued_saved (ht : t.Coherent) (hu : t.user? u.id = some u) (htoken : token ≠ "")
    (htime : time.IsDated)
    (hrun : Directory.runAlone (Directory.save (u.withToken token time)) t =
      (.ok (), t.saved (u.withToken token time))) :
    Issued t (t.saved (u.withToken token time)) u token time := by
  have hdated : (u.withToken token time).IsDated := by
    rintro _ ⟨⟩
    exact htime
  have hcoherent := Directory.coherent_runAlone_save ht hdated
  rw [hrun] at hcoherent
  have hstored : (t.saved (u.withToken token time)).user? u.id = some (u.withToken token time) :=
    (Tables.user?_saved hdated u.id).trans (if_pos rfl)
  refine ⟨hstored, fun other hother => if_neg hother, ?_, fun old hold hne => ?_⟩
  · have hnew : Resolves (t.saved (u.withToken token time)) (.resetToken token)
        (u.withToken token time) := ⟨hstored, unique?_withToken htoken⟩
    rw [Directory.runAlone_find_of_resolves hcoherent hnew htoken]
  · have hentry :
        (t.saved (u.withToken token time)).entry UniqueField.resetToken.index old = none :=
      entry_saved_of_replaced hu htoken hold hne
    obtain ⟨r, hfind, hr⟩ := Directory.runAlone_findOwner_answer
      (t.saved (u.withToken token time)) .resetToken old
    rw [Directory.find, hfind]
    cases hr with
    | nobody => rfl
    | found howner =>
      rw [hentry] at howner
      cases howner
    | unreadable howner =>
      rw [hentry] at howner
      cases howner

/-! ### The whole operation -/

/-- What issuing a token by these fields alone answers, and what it leaves. -/
def issueBy (env : Handler interface ε) (x : ε) (fields : List SearchField) (t : Tables) :
    Except ServiceError String × Logged ε :=
  (newTokenBy fields).run.run (visited env unvisited) ⟨⟨t, x, []⟩, []⟩

/-- A token is drawn if and only if the fields agree on a user, and the user is who gets it. If they
do not, the first field that is refused is what the failure tells of, and nothing is drawn, stored
or announced. -/
theorem token_by_fields (ht : t.Coherent) (hclock : ∀ x, Instant.IsDated (env .now x).1) (x : ε)
    (fields : List SearchField) :
    let after := issueBy env x fields t
    (.newToken ∈ after.2.log ↔ ∃ u, Agree t fields u) ∧
      (∀ u token, Agree t fields u → (env .newToken x).1 = .ok token → token ≠ "" →
        (∀ other, other ≠ u.id → ¬ t.Carries other .resetToken token) →
        ¬ LedAstray t (.resetToken token) → u.id ≠ "" → u.email ≠ "" → u.loginName ≠ "" →
        after.1 = .ok token ∧
          Issued t after.2.tables u token (env .now (env .newToken x).2).1 ∧
          after.2.events = [.tokenCreated u.id]) ∧
      ((∀ u, ¬ Agree t fields u) → ∃ e, after.1 = .error e ∧
        (∀ e', Unresolved t fields e' ↔ e' = e) ∧ after.2.tables = t ∧
        after.2.events = [] ∧ ∀ c ∈ after.2.log, c.isSearch = true) := by
  intro after
  have hrefused (hnone : ∀ u, ¬ Agree t fields u) : ∃ e, after.1 = .error e ∧
      Unresolved t fields e ∧ Searching t x after.2 := by
    have hwp : (newTokenBy fields).run.wp (answered (visited env unvisited)) (fun r s =>
        ∃ e, r = .error e ∧ Unresolved t fields e ∧ Searching t x s) ⟨⟨t, x, []⟩, []⟩ :=
      wp_newTokenBy_of ht (fun e s he hs => ⟨e, rfl, he, hs⟩)
        fun u s hu _ => absurd hu (hnone u)
    rwa [wp_answered] at hwp
  refine ⟨⟨fun hdrawn => ?_, ?_⟩, ?_, fun hnone => ?_⟩
  · by_contra hnone
    obtain ⟨e, -, -, hs⟩ := hrefused fun u hu => hnone ⟨u, hu⟩
    cases hs.calls _ hdrawn
  · rintro ⟨u, hu⟩
    have hwp : (newTokenBy fields).run.wp (answered (visited env unvisited))
        (fun _ s => .newToken ∈ s.log) ⟨⟨t, x, []⟩, []⟩ :=
      wp_newTokenBy_of ht (fun e s he _ => absurd hu (he.not_agree ht))
        fun v s _ _ => wp_issue_draws v s
    rwa [wp_answered] at hwp
  · intro u token hu hdraw htoken hfree hsound hid hemail hname
    have hrun := runAlone_save_withToken ht hu.stored hid hemail hname htoken hfree hsound
      (env .now (env .newToken x).2).1
    have hwp : (newTokenBy fields).run.wp (answered (visited env unvisited)) (fun r s =>
        r = .ok token ∧
          s.tables = t.saved (u.withToken token (env .now (env .newToken x).2).1) ∧
          s.events = [.tokenCreated u.id]) ⟨⟨t, x, []⟩, []⟩ := by
      refine wp_newTokenBy_of ht (fun e s he _ => absurd hu (he.not_agree ht)) fun v s hv hs => ?_
      obtain rfl := hu.unique ht hv
      exact hs.issue hdraw hrun
    rw [wp_answered] at hwp
    obtain ⟨hok, htables, hevents⟩ := hwp
    have hissued := issued_saved ht hu.stored htoken (hclock _) hrun
    rw [← htables] at hissued
    exact ⟨hok, hissued, hevents⟩
  · obtain ⟨e, he, hunresolved, hs⟩ := hrefused hnone
    refine ⟨e, he, fun e' => ⟨fun he' => he'.unique ht hunresolved, ?_⟩, hs.tables, hs.events,
      hs.calls⟩
    rintro rfl
    exact hunresolved

/-- Three ways to name Alice. -/
def aliceThrice : List SearchField := [.id "a", .email "alice@example.com", .loginName "alice"]

/-- Alice gets the token and is found by it. -/
theorem token_by_fields_alice :
    (issueBy surroundings () aliceThrice Directory.aliceAndLeftover).1 = .ok "token" ∧
      (Directory.runAlone (Directory.find (.resetToken "token"))
        (issueBy surroundings () aliceThrice Directory.aliceAndLeftover).2.tables).1 =
          .ok (Directory.alice.withToken "token" (.ofCount 0)) := by
  have halice : Directory.aliceAndLeftover.user? Directory.alice.id = some Directory.alice :=
    Directory.user?_aliceAndLeftover
  have hagree : Agree Directory.aliceAndLeftover aliceThrice Directory.alice := by
    refine ⟨by decide, fun f hf => ?_⟩
    simp only [aliceThrice, List.mem_cons, List.not_mem_nil, or_false] at hf
    have hemail : Directory.alice.unique? .email = some "alice@example.com" := by decide
    have hname : Directory.alice.unique? .loginName = some "alice" := by decide
    rcases hf with rfl | rfl | rfl
    · exact ⟨by decide, halice, by decide, rfl⟩
    · exact ⟨by decide, halice, hemail⟩
    · exact ⟨by decide, halice, hname⟩
  have hfree (other : String) (hother : other ≠ "a") :
      ¬ Directory.aliceAndLeftover.Carries other .resetToken "token" :=
    fun hc => hother (Directory.carries_aliceAndLeftover.1 hc).1
  have hsound : ¬ LedAstray Directory.aliceAndLeftover (.resetToken "token") := by
    rintro ⟨id, hid, -⟩
    cases hid
  obtain ⟨hok, hissued, -⟩ := (token_by_fields Directory.indexed_aliceAndLeftover.toCoherent
    isDated_surroundings () aliceThrice).2.1 Directory.alice "token" hagree rfl (by decide) hfree
      hsound (by decide) (by decide) (by decide)
  exact ⟨hok, hissued.found⟩

/-- A record that is no user. -/
def withStray : Tables := Tables.empty.withRecord "x" (some "not a user")

/-- Alice, and a leftover entry of a token that leads to a record that is no user. -/
def withStrayToken : Tables :=
  (withMember.withRecord "x" (some "not a user")).withEntry "reset_password_token" "token"
    (some "x")

theorem user?_withStray (t : Tables) (id : String) :
    (t.withRecord "x" (some "not a user")).user? id = if id = "x" then none else t.user? id := by
  have hnone : (some "not a user").bind User.decode? = none := by decide +kernel
  rw [Tables.user?_withRecord, hnone]

theorem coherent_withStray : withStray.Coherent := by
  have hnone (id : String) : withStray.user? id = none :=
    (user?_withStray Tables.empty id).trans (ite_self _)
  refine ⟨⟨fun hu => ?_⟩, ⟨fun hc => ?_⟩⟩
  · rw [hnone] at hu
    cases hu
  · obtain ⟨u, hu, -⟩ := hc
    rw [hnone] at hu
    cases hu

theorem user?_withStrayToken {id : String} {u : User} :
    withStrayToken.user? id = some u ↔ id = "a" ∧ member = u := by
  have hstray : withStrayToken.user? id = if id = "x" then none else withMember.user? id :=
    user?_withStray withMember id
  have hmember : withMember.user? id = if id = "a" then some member else none :=
    Tables.user?_saved isDated_member id
  rw [hstray, hmember]
  by_cases ha : id = "a"
  · subst ha
    simp
  · simp [ha]

theorem coherent_withStrayToken : withStrayToken.Coherent := by
  have hindexed : withMember.Indexed := Directory.indexed_saved_empty isDated_member
  refine ⟨⟨fun hu => ?_⟩, ⟨?_⟩⟩
  · obtain ⟨rfl, rfl⟩ := user?_withStrayToken.1 hu
    rfl
  · rintro id f key ⟨u, hu, hkey⟩
    obtain ⟨rfl, rfl⟩ := user?_withStrayToken.1 hu
    have howned : withMember.entry f.index key = some "a" :=
      hindexed.owned ⟨member, Tables.user?_saved isDated_member "a", hkey⟩
    refine (if_neg ?_).trans howned
    rintro ⟨hindex, rfl⟩
    cases f with
    | email => exact absurd hindex (by decide)
    | loginName => exact absurd hindex (by decide)
    | resetToken => cases hkey

/-- A field that is for no user is not reported as such when it leads to a record that is no user;
and the one user that the fields agree on gets no token without an address, or when an entry of the
token leads to such a record. -/
theorem token_by_fields_stray :
    (withStray.Coherent ∧ (∀ u, ¬ Resolves withStray (.id "x") u) ∧
      (issueBy surroundings () [.id "x"] withStray).1 =
        .error (.directory (.corrupt "not a user"))) ∧
    (withAddressless.Coherent ∧
      Agree withAddressless [.id "a", .loginName "alice"] addressless ∧
      (∀ other, ¬ withAddressless.Carries other .resetToken "token") ∧
      (issueBy surroundings () [.id "a", .loginName "alice"] withAddressless).1 =
        .error (.directory (.invalidUser "email is empty"))) ∧
    withStrayToken.Coherent ∧ Agree withStrayToken [.id "a"] member ∧
      (∀ other, ¬ withStrayToken.Carries other .resetToken "token") ∧
      (issueBy surroundings () [.id "a"] withStrayToken).1 =
        .error (.directory (.corrupt "not a user")) := by
  refine ⟨⟨coherent_withStray, ?_, by decide +kernel⟩, ⟨coherent_withAddressless, ?_, ?_,
    by decide +kernel⟩, coherent_withStrayToken, ?_, ?_, by decide +kernel⟩
  · rintro u ⟨hu, -⟩
    have hnone : withStray.user? u.id = none :=
      (user?_withStray Tables.empty u.id).trans (ite_self _)
    rw [hnone] at hu
    cases hu
  · have hstored : withAddressless.user? "a" = some addressless := user?_withAddressless "a"
    have hname : addressless.unique? .loginName = some "alice" := by decide
    refine ⟨by decide, fun f hf => ?_⟩
    rcases List.mem_cons.1 hf with rfl | hf
    · exact ⟨by decide, hstored, by decide, rfl⟩
    · obtain rfl := List.mem_singleton.1 hf
      exact ⟨by decide, hstored, hname⟩
  · rintro other ⟨u, hu, hkey⟩
    rw [user?_withAddressless] at hu
    split at hu
    · cases hu
      cases hkey
    · cases hu
  · refine ⟨by decide, fun f hf => ?_⟩
    obtain rfl := List.mem_singleton.1 hf
    exact ⟨by decide, user?_withStrayToken.2 ⟨rfl, rfl⟩, by decide, rfl⟩
  · rintro other ⟨u, hu, hkey⟩
    obtain ⟨rfl, rfl⟩ := user?_withStrayToken.1 hu
    cases hkey

end Service

end Accounts
