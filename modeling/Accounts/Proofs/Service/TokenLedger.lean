import Accounts.Proofs.Program.Threads
import Accounts.Proofs.Service.Deeds
import Mathlib.Data.List.Induction
import Mathlib.Data.List.Nodup

/-!
# The ledger of reset tokens

The deeds of a run say which tokens are outstanding: issued to a user, since when neither redeemed
nor replaced by another. In a run on one service that begins with nothing, these are exactly the
tokens that stored users have, with their times of issue (`tracks_chronicle`), whatever else the
operations do to the users in between.
-/
namespace Accounts.Service

open Backend

/-- The token was issued to the user at this time, and since then neither has it been redeemed nor
has the user been issued another. -/
def Outstanding (ds : List Deed) (id token : String) (time : Instant) : Prop :=
  ∃ before after, ds = before ++ .issued id token time :: after ∧ .redeemed token ∉ after ∧
    ∀ token' time', .issued id token' time' ∉ after

variable {ε : Type} {env : Handler interface ε} {t : Tables} {ds : List Deed} {d : Deed}
  {id token : String} {time : Instant}

theorem not_outstanding_nil : ¬ Outstanding [] id token time := by
  rintro ⟨before, after, hsplit, -⟩
  simp at hsplit

/-- A deed issues the token, or leaves it as it was unless it redeems or replaces it. -/
theorem outstanding_concat : Outstanding (ds ++ [d]) id token time ↔
    d = .issued id token time ∨ (Outstanding ds id token time ∧ d ≠ .redeemed token ∧
      ∀ token' time', d ≠ .issued id token' time') := by
  constructor
  · rintro ⟨before, after, hsplit, hredeemed, hissued⟩
    rcases split_concat hsplit with ⟨-, hd, -⟩ | ⟨after, rfl, rfl⟩
    · exact Or.inl hd
    · simp only [List.mem_append, List.mem_singleton, not_or] at hredeemed hissued
      exact Or.inr ⟨⟨before, after, rfl, hredeemed.1, fun token' time' => (hissued token' time').1⟩,
        Ne.symm hredeemed.2, fun token' time' => Ne.symm (hissued token' time').2⟩
  · rintro (rfl | ⟨⟨before, after, rfl, hredeemed, hissued⟩, hd, hd'⟩)
    · exact ⟨ds, [], rfl, List.not_mem_nil, fun _ _ => List.not_mem_nil⟩
    · refine ⟨before, after ++ [d], by simp, ?_, fun token' time' => ?_⟩
      · simp [hredeemed, Ne.symm hd]
      · simp [hissued, Ne.symm (hd' token' time')]

/-- The tables are what these deeds have made of them. -/
structure Tracks (t : Tables) (ds : List Deed) : Prop where
  exact : t.Exact
  complete : ∀ {id u}, t.user? id = some u → ¬ u.IsIncomplete
  created : ∀ {id u}, t.user? id = some u → id ∈ createdIds ds
  paired : ∀ {id u}, t.user? id = some u → u.resetToken.isSome = u.resetTokenIssued.isSome
  outstanding : ∀ id token time, Outstanding ds id token time ↔
    ∃ u, t.user? id = some u ∧ u.resetToken = some token ∧ u.resetTokenIssued = some time

namespace Tracks

theorem empty : Tracks Tables.empty [] where
  exact := Tables.exact_empty
  complete h := by cases h
  created h := by cases h
  paired h := by cases h
  outstanding id token time := by
    refine iff_of_false not_outstanding_nil ?_
    rintro ⟨u, hu, -⟩
    cases hu

/-- A token that a user has is a value of the user. -/
theorem unique?_eq (h : Tracks t ds) {u : User} (hu : t.user? id = some u)
    (htoken : u.resetToken = some token) : u.unique? .resetToken = some token := by
  have hcomplete := h.complete hu
  have hne : token ≠ "" := by
    rintro rfl
    exact hcomplete (Or.inr (Or.inr (Or.inr htoken)))
  simp [User.unique?, htoken, hne]

/-- A user is saved along with deeds that say what its token is, and nothing new of the others. -/
theorem saved (h : Tracks t ds) {v : User} {ds' : List Deed} (hv : v.IsDated)
    (hcomplete : ¬ v.IsIncomplete) (hfree : ∀ f, ¬ t.Clashes v f)
    (hcreated : v.id ∈ createdIds (ds ++ ds'))
    (hpaired : v.resetToken.isSome = v.resetTokenIssued.isSome)
    (hself : ∀ token time, Outstanding (ds ++ ds') v.id token time ↔
      v.resetToken = some token ∧ v.resetTokenIssued = some time)
    (hothers : ∀ id token time, id ≠ v.id →
      (Outstanding (ds ++ ds') id token time ↔ Outstanding ds id token time)) :
    Tracks (t.saved v) (ds ++ ds') := by
  have hcases {id : String} {u : User} (hu : (t.saved v).user? id = some u) :
      id = v.id ∧ u = v ∨ t.user? id = some u := by
    rw [Tables.user?_saved hv] at hu
    split at hu
    · next hid => exact Or.inl ⟨hid, (Option.some.inj hu).symm⟩
    · exact Or.inr hu
  refine ⟨Directory.exact_saved h.exact hv hfree, fun hu => ?_, fun hu => ?_, fun hu => ?_,
    fun id token time => ?_⟩
  · rcases hcases hu with ⟨-, rfl⟩ | hu
    · exact hcomplete
    · exact h.complete hu
  · rcases hcases hu with ⟨rfl, -⟩ | hu
    · exact hcreated
    · rw [createdIds_append]
      exact List.mem_append_left _ (h.created hu)
  · rcases hcases hu with ⟨-, rfl⟩ | hu
    · exact hpaired
    · exact h.paired hu
  · rw [Tables.user?_saved hv]
    by_cases hid : id = v.id
    · subst hid
      rw [if_pos rfl, hself]
      simp
    · rw [if_neg hid, hothers id token time hid]
      exact h.outstanding id token time

variable {o : Operation} {id' : String} {u : User} {rules : Rules} {x : ε}

/-- A new account has no token, and nobody had its id. -/
theorem create (h : Tracks t ds) {profileName email loginName hash : String}
    (hfresh : id' ∉ createdIds ds)
    (hcomplete : ¬ (User.create id' profileName email loginName hash).IsIncomplete)
    (hfree : ∀ f, ¬ t.Clashes (User.create id' profileName email loginName hash) f) :
    Tracks (t.saved (.create id' profileName email loginName hash)) (ds ++ [.created id']) := by
  have hsame (id token : String) (time : Instant) :
      Outstanding (ds ++ [.created id']) id token time ↔ Outstanding ds id token time := by
    simp [outstanding_concat]
  have hcreated : id' ∈ createdIds (ds ++ [.created id']) := by
    rw [createdIds_append]
    exact List.mem_append_right _ (List.mem_singleton_self id')
  refine h.saved Directory.isDated_create hcomplete hfree hcreated rfl (fun token time => ?_)
    fun id token time _ => hsame id token time
  refine iff_of_false (fun ho => ?_) (fun hv => by cases hv.1)
  obtain ⟨u, hu, -⟩ := (h.outstanding _ token time).1 ((hsame _ token time).1 ho)
  exact hfresh (h.created hu)

/-- A change of a user that leaves its token alone. -/
theorem keep (h : Tracks t ds) (hu : t.user? id' = some u) {v : User} (hid : v.id = u.id)
    (htoken : v.resetToken = u.resetToken) (hissued : v.resetTokenIssued = u.resetTokenIssued)
    (hcomplete : ¬ v.IsIncomplete) (hfree : ∀ f, ¬ t.Clashes v f) :
    Tracks (t.saved v) (ds ++ []) := by
  obtain rfl : u.id = id' := h.exact.id_eq hu
  have hdated : v.IsDated := by
    obtain ⟨text, -, hd⟩ := Option.bind_eq_some_iff.1 hu
    intro time htime
    exact User.isDated_of_decode? hd time (hissued ▸ htime)
  have hnone : ds ++ [] = ds := List.append_nil ds
  refine h.saved hdated hcomplete hfree ?_ ?_ (fun token time => ?_) fun id token time _ => by
    rw [hnone]
  · rw [hnone, hid]
    exact h.created hu
  · rw [htoken, hissued]
    exact h.paired hu
  · rw [hnone, hid, htoken, hissued, h.outstanding]
    simp [hu]

/-- A user is issued a token in place of the one that it has. -/
theorem issue (h : Tracks t ds) (hu : t.user? id' = some u) (htime : time.IsDated)
    (hcomplete : ¬ (u.withToken token time).IsIncomplete)
    (hfree : ∀ f, ¬ t.Clashes (u.withToken token time) f) :
    Tracks (t.saved (u.withToken token time)) (ds ++ [.issued u.id token time]) := by
  obtain rfl : u.id = id' := h.exact.id_eq hu
  have hdated : (u.withToken token time).IsDated := by
    rintro _ ⟨⟩
    exact htime
  refine h.saved hdated hcomplete hfree ?_ rfl (fun token' time' => ?_)
    fun id token' time' hid => ?_
  · rw [createdIds_append]
    exact List.mem_append_left _ (h.created hu)
  · rw [outstanding_concat]
    simp [User.withToken]
  · have hne : u.id ≠ id := Ne.symm hid
    rw [outstanding_concat]
    simp [hne]

/-- A token is redeemed by the user that has it. -/
theorem redeem (h : Tracks t ds) (hu : t.user? id' = some u)
    (htoken : u.unique? .resetToken = some token) {loginName hash : String}
    (hcomplete : ¬ (u.withCredentials loginName hash).IsIncomplete)
    (hfree : ∀ f, ¬ t.Clashes (u.withCredentials loginName hash) f) :
    Tracks (t.saved (u.withCredentials loginName hash)) (ds ++ [.redeemed token]) := by
  obtain rfl : u.id = id' := h.exact.id_eq hu
  have hheld : u.resetToken = some token := (Option.filter_eq_some_iff.1 htoken).1
  refine h.saved nofun hcomplete hfree ?_ rfl (fun token' time' => ?_) fun id token' time' hid => ?_
  · rw [createdIds_append]
    exact List.mem_append_left _ (h.created hu)
  · -- the user had no other token
    rw [outstanding_concat]
    refine iff_of_false ?_ nofun
    rintro (⟨⟨⟩⟩ | ⟨ho, hne, -⟩)
    obtain ⟨w, hw, htoken', -⟩ := (h.outstanding _ _ _).1 ho
    cases hu.symm.trans hw
    cases hheld.symm.trans htoken'
    exact hne rfl
  · -- and nobody else had this one
    rw [outstanding_concat]
    constructor
    · rintro (⟨⟨⟩⟩ | ⟨ho, -⟩)
      exact ho
    · intro ho
      refine Or.inr ⟨ho, ?_, nofun⟩
      rintro ⟨⟩
      obtain ⟨w, hw, htoken', -⟩ := (h.outstanding _ _ _).1 ho
      exact hid (h.exact.unique ⟨w, hw, h.unique?_eq hw htoken'⟩ ⟨u, hu, htoken⟩)

/-- An attempt to save a user, and its deeds if it succeeds. -/
theorem attempt (h : Tracks t ds) (hclock : ∀ x, Instant.IsDated (env .now x).1) {v : User}
    {ds' : List Deed} (hv : Attempt env t o v ds') (hids : (createdIds (ds ++ ds')).Nodup)
    (hcomplete : ¬ v.IsIncomplete) (hfree : ∀ f, ¬ t.Clashes v f) :
    Tracks (t.saved v) (ds ++ ds') := by
  cases hv with
  | create profileName email loginName password id hash =>
    have hfresh : id ∉ createdIds ds := by
      rw [createdIds_append] at hids
      exact (List.nodup_concat _ _).1 (List.concat_eq_append ▸ hids) |>.1
    exact h.create hfresh hcomplete hfree
  | keep hu hid htoken hissued => exact h.keep hu hid htoken hissued hcomplete hfree
  | issue hu token y => exact h.issue hu (hclock y) hcomplete hfree
  | redeem hu htoken hash => exact h.redeem hu htoken hcomplete hfree

/-- One more operation. -/
theorem next (h : Tracks t ds) (hclock : ∀ x, Instant.IsDated (env .now x).1) (rules : Rules)
    (x : ε) (o : Operation) (hids : (createdIds (ds ++ o.deeds env x (outcome env rules x o t).1
      (outcome env rules x o t).2.events)).Nodup) :
    Tracks (outcome env rules x o t).2.tables (ds ++ o.deeds env x (outcome env rules x o t).1
      (outcome env rules x o t).2.events) := by
  rcases outcome_cases h.exact.toNamed env rules x o with
    ⟨htables, hdeeds⟩ | ⟨v, ds', hv, htables, hdeeds⟩
  · rw [htables, hdeeds, List.append_nil]
    exact h
  rcases Directory.runAlone_save_of_exact h.exact v with ⟨hcomplete, hfree, hrun⟩ | ⟨e, hrun, -⟩
  · rw [hrun] at htables hdeeds
    rw [hdeeds] at hids
    rw [htables, hdeeds]
    exact h.attempt hclock hv hids hcomplete hfree
  · rw [hrun] at htables hdeeds
    rw [htables, hdeeds, List.append_nil]
    exact h

end Tracks

/-- A run on one service that begins with nothing: the tokens that are outstanding are those that
stored users have. -/
theorem tracks_chronicle (hclock : ∀ x, Instant.IsDated (env .now x).1) {rules : Rules}
    {run : List (ε × Operation)}
    (hids : (createdIds (chronicle env rules Tables.empty run).deeds).Nodup) :
    Tracks (chronicle env rules Tables.empty run).tables
      (chronicle env rules Tables.empty run).deeds := by
  induction run using List.reverseRecOn with
  | nil => exact Tracks.empty
  | append_singleton run e ih =>
    rw [tables_concat, deeds_concat] at *
    have hbefore := hids
    rw [createdIds_append] at hbefore
    exact (ih hbefore.of_append_left).next hclock rules e.1 e.2 hids

end Accounts.Service
