import Accounts.Proofs.Service.Deeds
import Mathlib.Data.List.Induction
import Mathlib.Data.List.Nodup

/-!
# Creating accounts

Creating an account saves it under the id that the source of identifiers gives, whether or not there
is an account with that id. So accounts are only added exactly if the source is good for as long as
the records last: it gives no id twice, and none that was there at first (`accounts_kept_iff`). A
counter that starts again over a backend with records is not.
-/
namespace Accounts.Service

open Backend

variable {ε : Type} {env : Handler interface ε} {rules : Rules} {x : ε} {o : Operation}
  {t t' : Tables} {run : List (ε × Operation)}

/-- There was no record of this id, and the records of the others are as before. -/
def AddsOnly (t t' : Tables) (id : String) : Prop :=
  t.record id = none ∧ ∀ other text, t.record other = some text → t'.record other = some text

/-- An operation that creates accounts. -/
def IsCreation (o : Operation) : Prop :=
  ∃ profileName email loginName password, o = .createUser profileName email loginName password

section

variable (env rules)

/-- The operation creates an account and returns this id. -/
def Creates (x : ε) (o : Operation) (t : Tables) (id : String) : Prop :=
  IsCreation o ∧ (outcome env rules x o t).1 = .ok (.text id)

/-- No creation of an account in this run has replaced one. -/
def NeverReplaces (t : Tables) (run : List (ε × Operation)) : Prop :=
  ∀ before x o id, before ++ [(x, o)] <+: run →
    let now := (chronicle env rules t before).tables
    Creates env rules x o now id → AddsOnly now (outcome env rules x o now).2.tables id

end

/-! ### One operation -/

theorem named_of_record (h : t.Named) {v : User}
    (hrecord : t'.record = (t.withRecord v.id (some v.encode)).record) : t'.Named := by
  refine ⟨fun {id u} hu => ?_⟩
  rw [Tables.user?_congr hrecord, Tables.user?_withRecord] at hu
  split at hu
  · next hid =>
    rw [Option.bind_some] at hu
    rw [User.eq_of_decode?_encode hu]
    exact hid.symm
  · exact h.id_eq hu

/-- Who is stored has a record. -/
theorem isSome_record_of_user? {id : String} {u : User} (h : t.user? id = some u) :
    (t.record id).isSome := by
  obtain ⟨text, ht, -⟩ := Option.bind_eq_some_iff.1 h
  rw [ht]
  rfl

theorem createdIds_deeds (ho : ¬ IsCreation o) (r : Except ServiceError Answer)
    (events : List Event) : createdIds (o.deeds env x r events) = [] := by
  unfold Operation.deeds
  split
  · exact absurd ⟨_, _, _, _, rfl⟩ ho
  · rfl
  · rfl
  · rfl

/-- The created ids of an operation: the one that it returns, if it creates an account. -/
theorem createdIds_cases (env : Handler interface ε) (rules : Rules) (x : ε) (o : Operation)
    (t : Tables) :
    let after := outcome env rules x o t
    let ids := createdIds (o.deeds env x after.1 after.2.events)
    (∃ id, Creates env rules x o t id ∧ ids = [id]) ∨
      ((∀ id, ¬ Creates env rules x o t id) ∧ ids = []) := by
  intro after ids
  by_cases ho : IsCreation o
  · obtain ⟨profileName, email, loginName, password, rfl⟩ := ho
    cases hr : after.1 with
    | ok a =>
      cases a with
      | text id =>
        refine Or.inl ⟨id, ⟨⟨_, _, _, _, rfl⟩, hr⟩, ?_⟩
        simp only [ids, hr]
        rfl
      | done | user =>
        refine Or.inr ⟨fun id h => ?_, by simp only [ids, hr]; rfl⟩
        cases hr.symm.trans h.2
    | error e =>
      refine Or.inr ⟨fun id h => ?_, by simp only [ids, hr]; rfl⟩
      cases hr.symm.trans h.2
  · exact Or.inr ⟨fun id h => ho h.1, createdIds_deeds ho _ _⟩

/-- What an operation does to the records: nothing, or it writes the one of a user that is there or
that it creates. -/
theorem record_outcome (h : t.Named) (env : Handler interface ε) (rules : Rules) (x : ε)
    (o : Operation) :
    let after := outcome env rules x o t
    let ids := createdIds (o.deeds env x after.1 after.2.events)
    (after.2.tables.record = t.record ∧ ids = []) ∨
      ∃ v : User, after.2.tables.record = (t.withRecord v.id (some v.encode)).record ∧
        (ids = [v.id] ∨ ids = [] ∧ (t.record v.id).isSome) := by
  intro after ids
  rcases outcome_cases h env rules x o with ⟨htables, hdeeds⟩ | ⟨v, ds, hv, htables, hdeeds⟩
  · refine Or.inl ⟨congrArg Tables.record htables, ?_⟩
    simp only [ids, after, hdeeds]
    rfl
  rcases Directory.record_runAlone_save v t with ⟨hsave, hrecord⟩ | ⟨e, hsave, hrecord⟩
  · rw [hsave] at hdeeds
    refine Or.inr ⟨v, (congrArg Tables.record htables).trans hrecord, ?_⟩
    simp only [ids, after, hdeeds]
    have hthere {id : String} {u : User} (hu : t.user? id = some u) (hid : v.id = u.id) :
        (t.record v.id).isSome := by
      rw [hid, h.id_eq hu]
      exact isSome_record_of_user? hu
    cases hv with
    | create profileName email loginName password id hash => exact Or.inl rfl
    | keep hu hid htoken hissued => exact Or.inr ⟨rfl, hthere hu hid⟩
    | issue hu token y => exact Or.inr ⟨rfl, hthere hu rfl⟩
    | redeem hu htoken hash => exact Or.inr ⟨rfl, hthere hu rfl⟩
  · rw [hsave] at hdeeds
    refine Or.inl ⟨(congrArg Tables.record htables).trans hrecord, ?_⟩
    simp only [ids, after, hdeeds]
    rfl

/-! ### A whole run -/

/-- What is known after a run that began with these tables: users are under their own ids, and there
are records of the ids that had one and of those that were created. -/
structure Populated (t : Tables) (c : Chronicle) : Prop where
  named : c.tables.Named
  records : ∀ id, (c.tables.record id).isSome ↔
    (t.record id).isSome ∨ id ∈ createdIds c.deeds

theorem populated_chronicle (h : t.Named) (env : Handler interface ε) (rules : Rules)
    (run : List (ε × Operation)) : Populated t (chronicle env rules t run) := by
  induction run using List.reverseRecOn with
  | nil => exact ⟨h, fun id => by simp [chronicle, createdIds]⟩
  | append_singleton run e ih =>
    have hrecord := record_outcome ih.named env rules e.1 e.2
    rcases hrecord with ⟨hsame, hids⟩ | ⟨v, hwrite, hids⟩
    · refine ⟨⟨fun {id u} hu => ?_⟩, fun id => ?_⟩
      · rw [tables_concat, Tables.user?_congr hsame] at hu
        exact ih.named.id_eq hu
      · rw [tables_concat, hsame, deeds_concat, createdIds_append, hids, List.append_nil]
        exact ih.records id
    · refine ⟨?_, fun id => ?_⟩
      · rw [tables_concat]
        exact named_of_record ih.named hwrite
      · rw [tables_concat, hwrite, deeds_concat, createdIds_append, List.mem_append, ← or_assoc,
          ← ih.records, Tables.record_withRecord]
        by_cases hid : id = v.id
        · subst hid
          rw [if_pos rfl]
          rcases hids with hids | ⟨hids, hthere⟩
          · simp [hids]
          · simp [hthere]
        · rw [if_neg hid]
          rcases hids with hids | ⟨hids, -⟩
          · simp [hids, hid]
          · simp [hids]

theorem neverReplaces_concat {e : ε × Operation} :
    NeverReplaces env rules t (run ++ [e]) ↔ NeverReplaces env rules t run ∧
      ∀ id, Creates env rules e.1 e.2 (chronicle env rules t run).tables id →
        AddsOnly (chronicle env rules t run).tables
          (chronicle env rules t (run ++ [e])).tables id := by
  rw [tables_concat]
  constructor
  · intro h
    refine ⟨fun before x o id hmore => ?_, fun id => ?_⟩
    · exact h before x o id (hmore.trans (List.prefix_append _ _))
    · exact h run e.1 e.2 id (List.prefix_refl _)
  · rintro ⟨hrun, hlast⟩ before x o id hmore
    rcases List.prefix_concat_iff.1 hmore with heq | hmore
    · obtain ⟨rfl, he⟩ := List.append_inj' heq rfl
      obtain rfl := List.singleton_inj.1 he
      exact hlast id
    · exact hrun before x o id hmore

/-- The creation of an account adds it only, exactly if there is no record of its id. -/
theorem addsOnly_iff (h : t.Named) {id : String} (hcreates : Creates env rules x o t id) :
    AddsOnly t (outcome env rules x o t).2.tables id ↔ t.record id = none := by
  refine ⟨fun hadds => hadds.1, fun hnone => ⟨hnone, fun other text hother => ?_⟩⟩
  have hids : createdIds (o.deeds env x (outcome env rules x o t).1
      (outcome env rules x o t).2.events) = [id] := by
    rcases createdIds_cases env rules x o t with ⟨id', hcreates', hids⟩ | ⟨hnot, -⟩
    · cases hcreates.2.symm.trans hcreates'.2
      exact hids
    · exact absurd hcreates (hnot id)
  rcases record_outcome h env rules x o with ⟨hsame, -⟩ | ⟨v, hwrite, hv⟩
  · rw [hsame]
    exact hother
  · rw [hwrite, Tables.record_withRecord, if_neg, hother]
    rintro rfl
    rcases hv with hv | ⟨hv, -⟩
    · cases hids.symm.trans hv
      rw [hnone] at hother
      cases hother
    · cases hids.symm.trans hv

/-- One creation adds its account only, exactly if the record of its id is free. -/
theorem forall_addsOnly_iff (h : t.Named) {id : String} (hcreates : Creates env rules x o t id) :
    (∀ id', Creates env rules x o t id' →
      AddsOnly t (outcome env rules x o t).2.tables id') ↔ t.record id = none := by
  rw [← addsOnly_iff h hcreates]
  refine ⟨fun hall => hall id hcreates, fun hone id' hcreates' => ?_⟩
  cases hcreates.2.symm.trans hcreates'.2
  exact hone

/-- A record is free in the end if it was at first and its id has not been given. -/
theorem Populated.record_eq_none_iff {c : Chronicle} (h : Populated t c) (id : String) :
    c.tables.record id = none ↔ t.record id = none ∧ id ∉ createdIds c.deeds := by
  rw [← Option.not_isSome_iff_eq_none, h.records, not_or, Option.not_isSome_iff_eq_none]

/-- Distinct new ids stay so when one is added exactly if that is new and distinct too. -/
theorem distinct_new_concat {ids : List String} {id : String} :
    ((ids ++ [id]).Nodup ∧ ∀ id' ∈ ids ++ [id], t.record id' = none) ↔
      (ids.Nodup ∧ ∀ id' ∈ ids, t.record id' = none) ∧ t.record id = none ∧ id ∉ ids := by
  rw [List.forall_mem_append, List.forall_mem_singleton, ← List.concat_eq_append,
    List.nodup_concat]
  constructor
  · rintro ⟨⟨hmem, hnodup⟩, hall, hnone⟩
    exact ⟨⟨hnodup, hall⟩, hnone, hmem⟩
  · rintro ⟨⟨hnodup, hall⟩, hnone, hmem⟩
    exact ⟨⟨hmem, hnodup⟩, hall, hnone⟩

/-- In a run that begins with these tables every account that is created is a new one and leaves the
others as they are, exactly if no id is given twice and none to a record that was there at first. -/
theorem accounts_kept_iff (h : t.Named) (env : Handler interface ε) (rules : Rules)
    (run : List (ε × Operation)) :
    NeverReplaces env rules t run ↔
      (createdIds (chronicle env rules t run).deeds).Nodup ∧
        ∀ id ∈ createdIds (chronicle env rules t run).deeds, t.record id = none := by
  induction run using List.reverseRecOn with
  | nil =>
    have hnone : createdIds (chronicle env rules t []).deeds = [] := rfl
    rw [hnone]
    refine iff_of_true (fun before x o id hmore => ?_) ⟨List.nodup_nil, by simp⟩
    simp at hmore
  | append_singleton run e ih =>
    have hpopulated := populated_chronicle h env rules run
    rw [neverReplaces_concat, ih, tables_concat, deeds_concat, createdIds_append]
    rcases createdIds_cases env rules e.1 e.2 (chronicle env rules t run).tables with
      ⟨id, hcreates, hids⟩ | ⟨hnot, hids⟩
    · rw [hids, distinct_new_concat, forall_addsOnly_iff hpopulated.named hcreates,
        hpopulated.record_eq_none_iff]
    · rw [hids, List.append_nil]
      exact and_iff_left fun id hcreates => absurd hcreates (hnot id)

/-! ### A counter that starts again -/

/-- Alice and then Bob sign up; Bob when the service has given this many ids. -/
def signUps (given : Nat) : List (Environment × Operation) :=
  [(counting 0, .createUser "Alice" "alice@example.com" "alice" "secret"),
    (counting given, .createUser "Bob" "bob@example.com" "bob" "secret")]

theorem named_empty : Tables.empty.Named := Tables.exact_empty.toNamed

/-- The service that goes on counting adds Bob to Alice. -/
theorem accounts_kept_iff_counting :
    NeverReplaces Environment.answer .standard Tables.empty (signUps 1) := by
  refine (accounts_kept_iff named_empty Environment.answer .standard (signUps 1)).2 ?_
  have hids : createdIds (chronicle Environment.answer .standard Tables.empty (signUps 1)).deeds =
      ["user-1", "user-2"] := by decide +kernel
  rw [hids]
  exact ⟨by decide, fun id _ => rfl⟩

/-- A service that is started again over the records counts from the start: Bob gets Alice's id and
takes the place of her record. -/
theorem account_replaced :
    Tables.empty.Named ∧
      (chronicle Environment.answer .standard Tables.empty ((signUps 0).take 1)).tables.record
        "user-1" =
        some (User.create "user-1" "Alice" "alice@example.com" "alice" "plain:secret").encode ∧
      (chronicle Environment.answer .standard Tables.empty (signUps 0)).tables.record "user-1" =
        some (User.create "user-1" "Bob" "bob@example.com" "bob" "plain:secret").encode ∧
      ¬ NeverReplaces Environment.answer .standard Tables.empty (signUps 0) := by
  have halice : (chronicle Environment.answer .standard Tables.empty
      ((signUps 0).take 1)).tables.record "user-1" =
        some (User.create "user-1" "Alice" "alice@example.com" "alice" "plain:secret").encode := by
    decide +kernel
  refine ⟨named_empty, halice, by decide +kernel, fun hnever => ?_⟩
  have hbob : Creates Environment.answer .standard (counting 0)
      (.createUser "Bob" "bob@example.com" "bob" "secret")
      (chronicle Environment.answer .standard Tables.empty ((signUps 0).take 1)).tables "user-1" :=
    ⟨⟨_, _, _, _, rfl⟩, by decide +kernel⟩
  have hadds := hnever ((signUps 0).take 1) _ _ "user-1" (List.prefix_refl _) hbob
  cases halice.symm.trans hadds.1

end Accounts.Service
