import Accounts.Proofs.Service.TokenLedger

/-!
# The life of a reset token

Over any run of one service that begins with nothing: a token is good for the user it was issued to
until it is redeemed or replaced, and for as long as the rules say (`token_life`). A refused reset
leaves everything as it was.
-/
namespace Accounts.Service

open Backend Program

variable {ε : Type} {env : Handler interface ε} {rules : Rules} {x : ε} {t : Tables}
  {ds : List Deed} {token loginName password : String}

/-- Why new credentials may be refused although the token is good: the login name is another user's,
or there is no hash of the password. -/
inductive Refusal (env : Handler interface ε) (x : ε) (t : Tables)
    (id loginName password : String) : ServiceError → Prop
  | taken {other : String} (hother : other ≠ id) (hc : t.Carries other .loginName loginName) :
    Refusal env x t id loginName password (.directory (.taken .loginName))
  | hashing {e : HasherError} (h : (env (.hash password) (env .now x).2).1 = some (.error e)) :
    Refusal env x t id loginName password (.hasher e)
  | crash (h : (env (.hash password) (env .now x).2).1 = none) :
    Refusal env x t id loginName password crashed

/-! ### The steps of a reset -/

/-- What the steps of a reset have been shown to end in its outcome is. -/
theorem outcome_of_wp {Q : Except ServiceError String → Solo ε → Prop}
    (h : (resetCredentials rules token loginName password).run.wp (answered (alone env)) Q
      ⟨t, x, []⟩) :
    ∃ r, (outcome env rules x (.resetCredentials token loginName password) t).1 =
        r.map Answer.text ∧
      Q r (outcome env rules x (.resetCredentials token loginName password) t).2 := by
  have houtcome : (perform rules (.resetCredentials token loginName password)).run.wp
      (answered (alone env)) (fun r' s => ∃ r, r' = r.map Answer.text ∧ Q r s) ⟨t, x, []⟩ := by
    rw [perform, wp_map_except]
    exact wp_mono (fun r s hr => ⟨r, rfl, hr⟩) h
  rwa [wp_answered] at houtcome

theorem wp_findByToken_of_found {s : Solo ε} {u : User}
    (h : Directory.runAlone (Directory.find (.resetToken token)) s.tables = (.ok u, s.tables)) :
    (findByToken token).run.wp (answered (alone env)) (fun r s' => r = .ok u ∧ s' = s) s := by
  unfold findByToken
  rw [wp_tryCatch, wp_onDirectory_alone, h]
  exact ⟨rfl, rfl⟩

theorem wp_findByToken_of_free {s : Solo ε} (h : Directory.runAlone
      (Directory.find (.resetToken token)) s.tables = (.error .notFound, s.tables)) :
    (findByToken token).run.wp (answered (alone env)) (fun r s' =>
      (∃ reason, r = .error (.invalidArguments reason)) ∧ s' = s) s := by
  unfold findByToken
  rw [wp_tryCatch, wp_onDirectory_alone, h]
  exact ⟨⟨_, rfl⟩, rfl⟩

theorem wp_save_of_runAlone {s : Solo ε} (hs : Untouched t s) {v : User}
    {r : Except DirectoryError Unit} {t' : Tables}
    (h : Directory.runAlone (Directory.save v) t = (r, t')) :
    (save v).run.wp (answered (alone env)) (fun r' s' =>
      r' = r.mapError .directory ∧ s'.tables = t' ∧ s'.events = []) s := by
  have hsave : (save v).run.wp (answered (alone env)) _ s := hs.save v
  rwa [h] at hsave

/-- The answer that an argument is not valid. -/
def IsInvalid (r : Except ServiceError Answer) : Prop :=
  ∃ reason, r = .error (.invalidArguments reason)

/-- A token that nobody has is refused. -/
theorem outcome_reset_of_free (h : t.Indexed) (hfree : ∀ id, ¬ t.Carries id .resetToken token)
    (rules : Rules) (x : ε) (loginName password : String) :
    IsInvalid (outcome env rules x (.resetCredentials token loginName password) t).1 ∧
      (outcome env rules x (.resetCredentials token loginName password) t).2.tables = t := by
  have hsteps : (resetCredentials rules token loginName password).run.wp (answered (alone env))
      (fun r s => (∃ reason, r = .error (.invalidArguments reason)) ∧ s.tables = t)
      ⟨t, x, []⟩ := by
    unfold resetCredentials
    by_cases htoken : token = ""
    · rw [wp_require_of_eq htoken]
      exact ⟨⟨_, rfl⟩, rfl⟩
    rw [wp_require_of_ne htoken]
    by_cases hname : loginName = ""
    · rw [wp_require_of_eq hname]
      exact ⟨⟨_, rfl⟩, rfl⟩
    rw [wp_require_of_ne hname]
    by_cases hpassword : password = ""
    · rw [wp_require_of_eq hpassword]
      exact ⟨⟨_, rfl⟩, rfl⟩
    rw [wp_require_of_ne hpassword]
    refine wp_seq (wp_findByToken_of_free (Directory.runAlone_findOwner_of_free h hfree)) ?_ ?_
    · rintro u s ⟨⟨reason, hr⟩, -⟩
      cases hr
    · rintro e s ⟨⟨reason, hr⟩, rfl⟩
      exact ⟨⟨reason, congrArg Except.error (Except.error.inj hr)⟩, rfl⟩
  obtain ⟨r, hresult, ⟨reason, rfl⟩, htables⟩ := outcome_of_wp hsteps
  exact ⟨⟨reason, hresult⟩, htables⟩

/-! ### The reset with a good token -/

/-- The token is older than the rules allow. -/
def Rules.Expires (rules : Rules) (issued now : Instant) : Prop :=
  rules.tokenLifetime.nanoseconds < (now.since issued).nanoseconds

theorem wp_isExpired_alone {s : Solo ε} (issued : Instant) :
    (isExpired rules (some issued)).run.wp (answered (alone env)) (post (fun expired s' =>
      (expired = true ↔ rules.Expires issued (env .now s.around).1) ∧
      s' = { s with around := (env .now s.around).2 }) fun _ => False) s :=
  ⟨decide_eq_true_iff, rfl⟩

/-- What a reset with a good token answers, and what it makes of the tables. -/
inductive Settled (env : Handler interface ε) (rules : Rules) (x : ε) (t t' : Tables)
    (loginName password id : String) (issued : Instant) : Except ServiceError Answer → Prop
  | redeemed {u : User} {hash : String} (hgood : ¬ rules.Expires issued (env .now x).1)
    (hu : t.user? id = some u)
    (hhash : (env (.hash password) (env .now x).2).1 = some (.ok hash))
    (htables : t' = t.saved (u.withCredentials loginName hash)) :
    Settled env rules x t t' loginName password id issued (.ok (.text id))
  | expired (hlate : rules.Expires issued (env .now x).1) (hsame : t' = t) :
    Settled env rules x t t' loginName password id issued (.error .tokenExpired)
  | refused {e : ServiceError} (hgood : ¬ rules.Expires issued (env .now x).1)
    (hwhy : Refusal env x t id loginName password e) (hsame : t' = t) :
    Settled env rules x t t' loginName password id issued (.error e)

theorem Refusal.not_isInvalid {id : String} {e : ServiceError}
    (h : Refusal env x t id loginName password e) : ¬ IsInvalid (.error e) := by
  rintro ⟨reason, hr⟩
  cases h <;> cases hr

theorem Refusal.ne_tokenExpired {id : String} {e : ServiceError}
    (h : Refusal env x t id loginName password e) : e ≠ .tokenExpired := by
  rintro rfl
  cases h

namespace Settled

variable {t' : Tables} {id : String} {issued : Instant} {r : Except ServiceError Answer}

theorem not_isInvalid (h : Settled env rules x t t' loginName password id issued r) :
    ¬ IsInvalid r := by
  cases h with
  | redeemed => rintro ⟨reason, ⟨⟩⟩
  | expired => rintro ⟨reason, ⟨⟩⟩
  | refused hgood hwhy hsame => exact hwhy.not_isInvalid

theorem eq_tokenExpired_iff (h : Settled env rules x t t' loginName password id issued r) :
    r = .error .tokenExpired ↔ rules.Expires issued (env .now x).1 := by
  cases h with
  | redeemed hgood => exact iff_of_false nofun hgood
  | expired hlate => exact iff_of_true rfl hlate
  | refused hgood hwhy hsame =>
    exact iff_of_false (fun hr => hwhy.ne_tokenExpired (Except.error.inj hr)) hgood

theorem tables_eq_of_error {e : ServiceError}
    (h : Settled env rules x t t' loginName password id issued (.error e)) : t' = t := by
  cases h with
  | expired hlate hsame => exact hsame
  | refused hgood hwhy hsame => exact hsame

end Settled

/-- What is known of a user who has a token. -/
structure Holder (t : Tables) (u : User) (token : String) (issued : Instant) : Prop where
  exact : t.Exact
  stored : t.user? u.id = some u
  complete : ¬ u.IsIncomplete
  token : u.unique? .resetToken = some token
  issued : u.resetTokenIssued = some issued

/-- A token that is outstanding is held by the user that it was issued to. -/
theorem Tracks.exists_holder (h : Tracks t ds) {id : String} {issued : Instant}
    (ho : Outstanding ds id token issued) : ∃ u, u.id = id ∧ Holder t u token issued := by
  obtain ⟨u, hu, htoken, hissued⟩ := (h.outstanding id token issued).1 ho
  obtain rfl : u.id = id := h.exact.id_eq hu
  exact ⟨u, rfl, h.exact, hu, h.complete hu, h.unique?_eq hu htoken, hissued⟩

/-- A token that is not outstanding nobody has. -/
theorem Tracks.not_carries (h : Tracks t ds)
    (hnone : ∀ id issued, ¬ Outstanding ds id token issued) (id : String) :
    ¬ t.Carries id .resetToken token := by
  rintro ⟨u, hu, hkey⟩
  have htoken : u.resetToken = some token := (Option.filter_eq_some_iff.1 hkey).1
  have hpaired := h.paired hu
  rw [htoken] at hpaired
  obtain ⟨issued, hissued⟩ := Option.isSome_iff_exists.1 hpaired.symm
  exact hnone id issued ((h.outstanding id token issued).2 ⟨u, hu, htoken, hissued⟩)

namespace Holder

variable {u : User} {issued : Instant} {hash : String}

theorem isIncomplete (h : Holder t u token issued) (hname : loginName ≠ "") :
    ¬ (u.withCredentials loginName hash).IsIncomplete := by
  rintro (hid | hemail | hlogin | htoken)
  · exact h.complete (Or.inl hid)
  · exact h.complete (Or.inr (Or.inl hemail))
  · exact hname hlogin
  · cases htoken

/-- Of the new values only the login name can be another user's. -/
theorem clash (h : Holder t u token issued) {f : UniqueField}
    (hc : t.Clashes (u.withCredentials loginName hash) f) :
    f = .loginName ∧ ∃ other, other ≠ u.id ∧ t.Carries other .loginName loginName := by
  obtain ⟨key, hk, other, hother, hcarries⟩ := hc
  cases f with
  | email =>
    have hsame : u.unique? .email = some key := hk
    exact absurd (h.exact.unique hcarries ⟨u, h.stored, hsame⟩) hother
  | loginName =>
    have hkey : (some loginName).filter (fun v => v ≠ "") = some key := hk
    obtain rfl : loginName = key := Option.some.inj (Option.filter_eq_some_iff.1 hkey).1
    exact ⟨rfl, other, hother, hcarries⟩
  | resetToken => cases hk

theorem wp_resetCredentials (h : Holder t u token issued) (hname : loginName ≠ "")
    (hpassword : password ≠ "") :
    (resetCredentials rules token loginName password).run.wp (answered (alone env))
      (fun r s => Settled env rules x t s.tables loginName password u.id issued (r.map .text))
      ⟨t, x, []⟩ := by
  have htoken : token ≠ "" := by
    rintro rfl
    have hkey := (Option.filter_eq_some_iff.1 h.token).2
    simp at hkey
  unfold resetCredentials
  rw [wp_require_of_ne htoken, wp_require_of_ne hname, wp_require_of_ne hpassword]
  refine wp_seq (wp_findByToken_of_found (Directory.runAlone_findOwner h.exact.toIndexed h.stored
    h.token)) ?_ (fun _ _ hs' => by cases hs'.1)
  rintro v _ ⟨hv, rfl⟩
  cases hv
  rw [h.issued]
  refine wp_seq (wp_isExpired_alone issued) ?_ (fun _ _ hs' => hs'.elim)
  rintro expired _ ⟨hexpired, rfl⟩
  cases expired with
  | true => exact .expired (hexpired.1 rfl) rfl
  | false =>
    have hgood : ¬ rules.Expires issued (env .now x).1 := fun he => by cases hexpired.2 he
    have huntouched : Untouched t (⟨t, (env .now x).2, []⟩ : Solo ε) := ⟨rfl, rfl⟩
    refine wp_seq (huntouched.hashPassword_cases password) ?_ ?_
    · rintro hash s ⟨hhash, hs⟩
      rcases Directory.runAlone_save_of_exact h.exact (u.withCredentials loginName hash) with
        ⟨-, -, hrun⟩ | ⟨e, hrun, hrefused⟩
      · refine wp_seq (wp_save_of_runAlone hs hrun) ?_ (fun _ _ hs' => by cases hs'.1)
        rintro _ s' ⟨-, htables, -⟩
        refine wp_seq (wp_publish _) ?_ (fun _ _ hs'' => by cases hs''.1)
        rintro _ s'' ⟨-, htables', -⟩
        exact .redeemed hgood h.stored hhash (htables'.trans htables)
      · refine wp_seq (wp_save_of_runAlone hs hrun) (fun _ _ hs' => by cases hs'.1) ?_
        rintro _ s' ⟨hr, htables, -⟩
        rcases hrefused with hincomplete | ⟨f, rfl, hclash⟩
        · exact absurd hincomplete (h.isIncomplete hname)
        obtain ⟨rfl, other, hother, hcarries⟩ := h.clash hclash
        obtain rfl := Except.error.inj hr
        exact .refused hgood (.taken hother hcarries) htables
    · rintro e s ⟨⟨rfl, hnone⟩ | ⟨e', rfl, herror⟩, hs⟩
      · exact .refused hgood (.crash hnone) hs.tables
      · exact .refused hgood (.hashing herror) hs.tables

end Holder

/-! ### Before and after a reset -/

def Deed.issued? : Deed → Option String
  | .issued _ token _ => some token
  | _ => none

/-- The tokens that were issued. -/
def issuedTokens (ds : List Deed) : List String := ds.filterMap Deed.issued?

theorem issuedTokens_append (ds ds' : List Deed) :
    issuedTokens (ds ++ ds') = issuedTokens ds ++ issuedTokens ds' := List.filterMap_append

theorem Outstanding.mem_issuedTokens {id : String} {issued : Instant}
    (h : Outstanding ds id token issued) : token ∈ issuedTokens ds := by
  obtain ⟨before, after, rfl, -⟩ := h
  exact List.mem_filterMap.2 ⟨.issued id token issued, by simp, rfl⟩

/-- A token that is not outstanding will not be unless it is issued again. -/
theorem not_outstanding_append (h : ∀ id issued, ¬ Outstanding ds id token issued)
    {ds' : List Deed} (hds' : token ∉ issuedTokens ds') (id : String) (issued : Instant) :
    ¬ Outstanding (ds ++ ds') id token issued := by
  induction ds' using List.reverseRecOn with
  | nil =>
    rw [List.append_nil]
    exact h id issued
  | append_singleton ds' d ih =>
    rw [issuedTokens_append, List.mem_append, not_or] at hds'
    rw [← List.append_assoc, outstanding_concat]
    rintro (rfl | ⟨ho, -⟩)
    · exact hds'.2 (List.mem_singleton_self token)
    · exact ih hds'.1 ho

theorem exists_deeds_append (env : Handler interface ε) (rules : Rules) (t : Tables)
    (run later : List (ε × Operation)) :
    ∃ ds, (chronicle env rules t (run ++ later)).deeds =
      (chronicle env rules t run).deeds ++ ds := by
  induction later using List.reverseRecOn with
  | nil => exact ⟨[], by simp⟩
  | append_singleton later e ih =>
    obtain ⟨ds, hds⟩ := ih
    rw [← List.append_assoc, deeds_concat, hds, List.append_assoc]
    exact ⟨_, rfl⟩

/-- A reset that fails has no deeds. -/
theorem chronicle_concat_of_error {run : List (ε × Operation)} {o : Operation} {e : ServiceError}
    (hr : (outcome env rules x o (chronicle env rules t run).tables).1 = .error e)
    (htables : (outcome env rules x o (chronicle env rules t run).tables).2.tables =
      (chronicle env rules t run).tables) :
    chronicle env rules t (run ++ [(x, o)]) = chronicle env rules t run := by
  refine Chronicle.ext (tables_concat.trans htables) ?_
  rw [deeds_concat, hr, deeds_error, List.append_nil]

/-- Whatever comes after this run, a reset with the token is refused, if no id and no token is given
twice. -/
def Spent (env : Handler interface ε) (rules : Rules) (run : List (ε × Operation))
    (token : String) : Prop :=
  ∀ later x loginName password,
    let c := chronicle env rules Tables.empty (run ++ later)
    (createdIds c.deeds).Nodup → (issuedTokens c.deeds).Nodup →
      IsInvalid (outcome env rules x (.resetCredentials token loginName password) c.tables).1

theorem spent_of_redeemed (hclock : ∀ x, Instant.IsDated (env .now x).1)
    {run : List (ε × Operation)}
    (hissued : token ∈ issuedTokens (chronicle env rules Tables.empty run).deeds)
    (hnone : ∀ id issued,
      ¬ Outstanding (chronicle env rules Tables.empty run).deeds id token issued) :
    Spent env rules run token := by
  intro later x loginName password c hids htokens
  have htracks := tracks_chronicle hclock hids
  obtain ⟨ds, hds⟩ := exists_deeds_append env rules Tables.empty run later
  have hnever : token ∉ issuedTokens ds := by
    rw [hds, issuedTokens_append] at htokens
    exact List.disjoint_of_nodup_append htokens hissued
  have hfree (id : String) : ¬ c.tables.Carries id .resetToken token := by
    refine htracks.not_carries (fun id issued => ?_) id
    rw [hds]
    exact not_outstanding_append hnone hnever id issued
  exact (outcome_reset_of_free htracks.exact.toIndexed hfree rules x loginName password).1

variable {run : List (ε × Operation)}

/-- After any run a reset is refused as invalid exactly if its token is not outstanding. If it is,
then the answer is that it has expired exactly if it is too old; else the reset succeeds for the
user it was issued to, and the token is spent, or it fails for other reasons and changes nothing. -/
theorem token_life (hclock : ∀ x, Instant.IsDated (env .now x).1) (rules : Rules)
    (hids : (createdIds (chronicle env rules Tables.empty run).deeds).Nodup) (x : ε)
    (token : String) (hname : loginName ≠ "") (hpassword : password ≠ "") :
    let reset := Operation.resetCredentials token loginName password
    let c := chronicle env rules Tables.empty run
    let c' := chronicle env rules Tables.empty (run ++ [(x, reset)])
    let result := (outcome env rules x reset c.tables).1
    (IsInvalid result ↔ ∀ id issued, ¬ Outstanding c.deeds id token issued) ∧
      ∀ id issued, Outstanding c.deeds id token issued →
        (result = .error .tokenExpired ↔ rules.Expires issued (env .now x).1) ∧
        Settled env rules x c.tables c'.tables loginName password id issued result ∧
        ((∃ a, result = .ok a) → Spent env rules (run ++ [(x, reset)]) token) ∧
        ((∃ e, result = .error e) → c' = c) := by
  intro reset c c' result
  have htracks := tracks_chronicle hclock hids
  have htables : c'.tables = (outcome env rules x reset c.tables).2.tables := tables_concat
  have hsettled {id : String} {issued : Instant} (ho : Outstanding c.deeds id token issued) :
      Settled env rules x c.tables c'.tables loginName password id issued result := by
    obtain ⟨u, rfl, hu⟩ := htracks.exists_holder ho
    obtain ⟨r, hr, hsettled⟩ := outcome_of_wp (hu.wp_resetCredentials hname hpassword)
    rw [← hr] at hsettled
    rw [htables]
    exact hsettled
  refine ⟨⟨fun hinvalid id issued ho => (hsettled ho).not_isInvalid hinvalid, fun hnone => ?_⟩,
    fun id issued ho => ⟨(hsettled ho).eq_tokenExpired_iff, hsettled ho, ?_, ?_⟩⟩
  · exact (outcome_reset_of_free htracks.exact.toIndexed (htracks.not_carries hnone) rules x
      loginName password).1
  · -- the reset is the last deed that there is of the token
    rintro ⟨a, hok⟩
    have hdeeds : (chronicle env rules Tables.empty (run ++ [(x, reset)])).deeds =
        c.deeds ++ [.redeemed token] := by
      refine deeds_concat.trans ?_
      rw [show (outcome env rules x reset c.tables).1 = .ok a from hok]
      rfl
    refine spent_of_redeemed hclock ?_ fun id' issued' => ?_
    · rw [hdeeds, issuedTokens_append]
      exact List.mem_append_left _ ho.mem_issuedTokens
    · rw [hdeeds, outstanding_concat]
      rintro (⟨⟨⟩⟩ | ⟨-, hne, -⟩)
      exact hne rfl
  · rintro ⟨e, herror⟩
    have hsame := hsettled ho
    rw [herror] at hsame
    exact chronicle_concat_of_error herror (htables.symm.trans hsame.tables_eq_of_error)

/-! ### A running service -/

/-- Alice signs up and at once asks for a token. -/
def forgetful : List (Dated × Operation) :=
  [(counted 0 0 rfl, .createUser "Alice" "alice@example.com" "alice" "secret"),
    (counted 1 0 rfl, .newToken [.email "alice@example.com"])]

theorem deeds_forgetful : (chronicle Dated.answer .standard Tables.empty forgetful).deeds =
    [.created "user-1", .issued "user-1" "user-2" (.ofCount 0)] := by
  decide +kernel

/-- Alice's token is good for a day to the nanosecond, and then for nothing more. -/
theorem token_life_day :
    let c := chronicle Dated.answer .standard Tables.empty forgetful
    let reset := Operation.resetCredentials "user-2" "alice" "better"
    let late := counted 2 86400000000001 rfl
    let timely := counted 2 86400000000000 rfl
    (createdIds c.deeds).Nodup ∧ Outstanding c.deeds "user-1" "user-2" (.ofCount 0) ∧
      (outcome Dated.answer .standard late reset c.tables).1 = .error .tokenExpired ∧
      (outcome Dated.answer .standard timely reset c.tables).1 = .ok (.text "user-1") ∧
      Spent Dated.answer .standard (forgetful ++ [(timely, reset)]) "user-2" := by
  intro c reset late timely
  have hclock (x : Dated) : Instant.IsDated (Dated.answer .now x).1 := x.2
  have hids : (createdIds c.deeds).Nodup := by
    rw [show c.deeds = _ from deeds_forgetful]
    decide
  have hissued : Outstanding c.deeds "user-1" "user-2" (.ofCount 0) :=
    ⟨[.created "user-1"], [], deeds_forgetful, List.not_mem_nil, fun _ _ => List.not_mem_nil⟩
  have hlate := (token_life hclock .standard hids late "user-2" (show "alice" ≠ "" by decide)
    (show "better" ≠ "" by decide)).2 "user-1" (.ofCount 0) hissued
  have htimely := (token_life hclock .standard hids timely "user-2" (show "alice" ≠ "" by decide)
    (show "better" ≠ "" by decide)).2 "user-1" (.ofCount 0) hissued
  have hok : (outcome Dated.answer .standard (counted 2 86400000000000 rfl)
      (.resetCredentials "user-2" "alice" "better")
      (chronicle Dated.answer .standard Tables.empty forgetful).tables).1 =
        .ok (.text "user-1") := by decide +kernel
  refine ⟨hids, hissued, hlate.1.2 ?_, hok, htimely.2.2.1 ⟨_, hok⟩⟩
  change (86400000000000 : Int) < 86400000000001
  decide

end Accounts.Service
