import Accounts.Proofs.Service.LostUpdate
import Accounts.Proofs.Service.TokenLife

/-!
# Two resets with one token

Two resets with one token at the same time, on one service or on two over one backend. A reset looks
for the token before it saves, and the save does not look for it again. So both succeed exactly if
the later one had looked the user up before the earlier one had written it (`both_redeem_iff`).
-/
namespace Accounts.Service

open Backend Program

variable {ε κ : Type} {t : Tables} {i : Bool} {c : Call} {past others : Journal} {l : List Call}
  {u v : User} {token : String}

/-! ### One operation among any calls of another -/

/-- The replies that a call may get: no call of the directory fails. -/
def Truthful (t : Tables) (past : Journal) : (c : Call) → c.Reply → Prop
  | .directory (.backend r), reply => reply = .ok (Tables.respond r (replay t past)).1
  | _, _ => True

/-- Before each call the other operation may make any. -/
def amid (t : Tables) (i : Bool) : Calls interface Journal := fun c Q past =>
  ∀ others : Journal, (∀ e ∈ others, e.1 ≠ i) → ∀ reply, Truthful t (past ++ others) c reply →
    Q reply (past ++ others ++ [(i, c)])

instance (t : Tables) (i : Bool) : (amid t i).Monotone where
  mono hQR h others hothers reply hreply := hQR _ _ (h others hothers reply hreply)

/-- The calls of the operation that alter records. -/
def alterations (i : Bool) (past : Journal) : List Call :=
  (past.filter fun e => e.1 = i && e.2.altersRecords).map Prod.snd

theorem alterations_append (past others : Journal) :
    alterations i (past ++ others) = alterations i past ++ alterations i others := by
  simp [alterations]

theorem alterations_eq_nil_iff :
    alterations i past = [] ↔ ∀ e ∈ past, e.1 = i → e.2.altersRecords = false := by
  simp [alterations]

theorem alterations_of_others (h : ∀ e ∈ others, e.1 ≠ i) : alterations i others = [] :=
  alterations_eq_nil_iff.2 fun e he hi => absurd hi (h e he)

theorem alterations_singleton (c : Call) :
    alterations i [(i, c)] = if c.altersRecords then [c] else [] := by
  cases hc : c.altersRecords <;> simp [alterations, hc]

theorem alterations_call (h : alterations i past = l) (hothers : ∀ e ∈ others, e.1 ≠ i) (c : Call) :
    alterations i (past ++ others ++ [(i, c)]) = l ++ if c.altersRecords then [c] else [] := by
  rw [alterations_append, alterations_append, h, alterations_of_others hothers, List.append_nil,
    alterations_singleton]

/-- A call that alters no record. -/
theorem alterations_quiet (h : alterations i past = l) (hothers : ∀ e ∈ others, e.1 ≠ i)
    (hc : c.altersRecords = false) : alterations i (past ++ others ++ [(i, c)]) = l := by
  rw [alterations_call h hothers, hc]
  exact List.append_nil l

/-- The journal only grows. -/
theorem wp_amid_grows {α : Type} {p : Program interface α} {Q : α → Journal → Prop}
    (h : p.wp (amid t i) Q past) :
    p.wp (amid t i) (fun a past' => past <+: past' ∧ Q a past') past := by
  induction p generalizing past with
  | done a => exact ⟨List.prefix_refl past, h⟩
  | call c next ih =>
    intro others hothers reply hreply
    refine wp_mono (fun a past' ha => ⟨?_, ha.2⟩) (ih reply (h others hothers reply hreply))
    exact List.IsPrefix.trans ⟨others ++ [(i, c)], by simp⟩ ha.1

/-- Calls of the other operation may come first. -/
theorem wp_amid_append {α : Type} {p : Program interface α} {Q : α → Journal → Prop}
    (hQ : ∀ a past others, (∀ e ∈ others, e.1 ≠ i) → Q a past → Q a (past ++ others))
    (h : p.wp (amid t i) Q past) (hothers : ∀ e ∈ others, e.1 ≠ i) :
    p.wp (amid t i) Q (past ++ others) := by
  cases p with
  | done a => exact hQ a past others hothers h
  | call c next =>
    intro others' hothers' reply hreply
    have hboth : ∀ e ∈ others ++ others', e.1 ≠ i := fun e he =>
      (List.mem_append.1 he).elim (hothers e) (hothers' e)
    rw [List.append_assoc past] at hreply ⊢
    exact h (others ++ others') hboth reply hreply

/-! ### The save -/

theorem entry_of_claimed {index key owner : String}
    (h : (Tables.respond (.claimEntry index key owner) t).1 = true) :
    (Tables.respond (.claimEntry index key owner) t).2.entry index key = some owner := by
  simp only [Tables.respond] at h ⊢
  cases he : t.entry index key with
  | some current =>
    simp only [he, beq_iff_eq] at h ⊢
    exact congrArg some h
  | none => exact (Tables.entry_withEntry ..).trans (if_pos ⟨rfl, rfl⟩)

theorem wp_owner_amid (h : alterations i past = l) (index key : String) :
    (Directory.ask (.owner index key)).run.wp (directoryCalls (amid t i)) (fun r past' =>
      alterations i past' = l ∧ ∀ x, r = .ok x → (replay t past').entry index key = x) past := by
  rw [Directory.wp_ask]
  rintro others hothers _ rfl
  refine ⟨alterations_quiet h hothers rfl, fun x hx => ?_⟩
  rw [replay_concat_of_isQuiet rfl]
  exact Except.ok.inj hx

/-- The calls around the write of a record alter none. -/
theorem keeps_alterations (t : Tables) (i : Bool) (id : String) (l : List Call) :
    Directory.Keeps (replay t) (directoryCalls (amid t i)) id []
      (fun _ past => alterations i past = l) where
  subset h _ := h
  cons h _ := h
  record id' h := by
    rw [Directory.wp_ask]
    rintro others hothers _ rfl
    refine ⟨alterations_quiet h hothers rfl, fun x hx => ?_⟩
    rw [replay_concat_of_isQuiet rfl]
    exact Except.ok.inj hx
  owner index key h := wp_owner_amid h index key
  leftover h _ _ := by
    rw [Directory.wp_ask]
    rintro others hothers _ rfl
    exact alterations_quiet h hothers rfl
  claimEntry f key h := by
    rw [Directory.wp_ask]
    rintro others hothers _ rfl
    refine ⟨alterations_quiet h hothers rfl, fun hclaimed => ?_⟩
    rw [replay_concat_backend]
    exact entry_of_claimed (Except.ok.inj hclaimed)
  releaseEntry h _ _ := by
    rw [Directory.wp_ask]
    rintro others hothers _ rfl
    exact alterations_quiet h hothers rfl

/-- The record is put back by one more alteration. -/
theorem wp_rollBack {id : String} {old : Option User} {acquired : List (UniqueField × String)}
    (h : alterations i past = [c]) :
    (Directory.rollBack id old acquired).run.wp (directoryCalls (amid t i))
      (fun _ past' => ∃ d, alterations i past' = [c, d]) past := by
  have hreleased {d : Call} {past' : Journal} (hd : alterations i past' = [c, d]) :
      (Directory.releaseAll id acquired).run.wp (directoryCalls (amid t i))
        (fun _ past'' => ∃ d, alterations i past'' = [c, d]) past' :=
    wp_mono (fun _ _ hr => ⟨d, hr.2⟩) ((keeps_alterations t i id [c, d]).releaseAll hd
      fun _ _ => ⟨List.not_mem_nil, List.not_mem_nil⟩)
  unfold Directory.rollBack
  rw [wp_bind_except, Directory.wp_attempt]
  cases old with
  | none => exact fun others hothers _ _ => hreleased (alterations_call h hothers _)
  | some u => exact fun others hothers _ _ => hreleased (alterations_call h hothers _)

/-- What is known of a save that has ended: if it has succeeded it has altered one record, and else
none or one twice. -/
def Marked {α : Type} (i : Bool) (v : User) : Except α Unit → Journal → Prop :=
  post (fun _ past => alterations i past = [.directory (.backend (.setRecord v.id v.encode))])
    fun past => (alterations i past).length ≠ 1

theorem wp_saveLocked_amid (h : alterations i past = []) (v : User) :
    (Directory.saveLocked v).run.wp (directoryCalls (amid t i)) (Marked i v) past := by
  have hbefore := keeps_alterations t i v.id []
  have hafter := keeps_alterations t i v.id [.directory (.backend (.setRecord v.id v.encode))]
  have hnone {e : DirectoryError} {past' : Journal} (hpast : alterations i past' = []) :
      Marked i v (.error e) past' := by
    change (alterations i past').length ≠ 1
    simp [hpast]
  have htwice {e : DirectoryError} {past' : Journal} {c d : Call}
      (hpast : alterations i past' = [c, d]) : Marked i v (.error e) past' := by
    change (alterations i past').length ≠ 1
    simp [hpast]
  unfold Directory.saveLocked
  refine wp_seq (hbefore.checkFree [] h v.uniqueValues) ?_ (fun _ _ hs => hnone hs)
  intro _ s₁ h₁
  refine wp_seq (hbefore.load [] h₁ v.id) ?_ (fun _ _ hs => hnone hs.1)
  rintro old s₂ ⟨h₂, -⟩
  refine wp_seq (hbefore.claimAll h₂ (List.nil_subset []) (List.nil_subset _)
    (List.nil_subset _) (fun _ hv => by cases hv)) ?_ (fun _ _ hs => hnone hs)
  rintro acquired s₃ ⟨h₃, -⟩
  have hwrite : (Directory.orElse (Directory.ask (.setRecord v.id v.encode))
      (Directory.releaseAll v.id acquired)).run.wp (directoryCalls (amid t i)) (post
        (fun _ past' => alterations i past' = [.directory (.backend (.setRecord v.id v.encode))])
        fun _ => False) s₃ := by
    refine Directory.wp_orElse (R := post (fun _ past' => alterations i past' =
      [.directory (.backend (.setRecord v.id v.encode))]) fun _ => False) ?_ (fun _ _ hs => hs)
      (fun _ _ hs => hs.elim)
    rw [Directory.wp_ask]
    rintro others hothers _ rfl
    exact alterations_call h₃ hothers _
  refine wp_seq hwrite ?_ (fun _ _ hs => hs.elim)
  intro _ s₄ h₄
  refine wp_seq (R := post (fun _ past' => alterations i past' =
      [.directory (.backend (.setRecord v.id v.encode))]) fun past' => ∃ d, alterations i past' =
        [.directory (.backend (.setRecord v.id v.encode)), d]) ?_ ?_ ?_
  · refine Directory.wp_orElse (Directory.wp_lostClaim h₄ fun index key _ hs =>
      wp_owner_amid hs index key) (fun _ _ hs => hs.1) ?_
    rintro e s' ⟨hs', -⟩
    exact wp_rollBack hs'
  · intro lost s₅ h₅
    cases lost with
    | none =>
      refine wp_mono (fun r s' hr => ?_) (hafter.releaseAll h₅ fun _ _ =>
        ⟨List.not_mem_nil, List.not_mem_nil⟩)
      obtain ⟨rfl, hs'⟩ := hr
      exact hs'
    | some f =>
      refine wp_seq (wp_mono (R := fun _ past' => ∃ d, alterations i past' = [_, d])
        (fun _ _ hs => hs) (wp_rollBack h₅)) ?_ ?_
      · rintro _ s' ⟨d, hs'⟩
        exact htwice hs'
      · rintro e s' ⟨d, hs'⟩
        exact htwice hs'
  · rintro e s' ⟨d, hs'⟩
    exact htwice hs'

theorem Marked.congr {α : Type} {r : Except α Unit} {past' : Journal} (h : Marked i v r past)
    (hsame : alterations i past' = alterations i past) : Marked i v r past' := by
  cases r with
  | ok _ => exact hsame.trans h
  | error e =>
    change (alterations i past').length ≠ 1
    rw [hsame]
    exact h

theorem wp_save_amid (h : alterations i past = []) (v : User) :
    (save v).run.wp (amid t i) (Marked i v) past := by
  refine wp_onDirectory_post ?_
  unfold Directory.save
  cases hvalid : Directory.validate v with
  | error e =>
    change (alterations i past).length ≠ 1
    simp [h]
  | ok _ =>
    change (Directory.locked (Directory.saveLocked v)).run.wp _ (Marked i v) _
    rw [Directory.wp_locked]
    intro others hothers _ _
    refine wp_mono ?_ (wp_saveLocked_amid (alterations_quiet h hothers rfl) v)
    intro r past' hr others' hothers' _ _
    exact hr.congr (alterations_quiet rfl hothers' rfl)

/-! ### The reset -/

/-- Before it has altered a record the operation has looked up this user, who had the token. -/
def Saw (t : Tables) (i : Bool) (token : String) (u : User) (past : Journal) : Prop :=
  ∃ before after id, past = before ++ (i, .directory (.backend (.record id))) :: after ∧
    alterations i before = [] ∧ (replay t before).user? id = some u ∧
    u.unique? .resetToken = some token

/-- How a reset ends: if it has succeeded it has written the user that it had seen, and nothing
else; if not it has written nothing, or more than once. -/
def Redeems {α : Type} (t : Tables) (i : Bool) (token : String) :
    Except ServiceError α → Journal → Prop :=
  post (fun _ past => ∃ u loginName hash, Saw t i token u past ∧
      Marked (α := ServiceError) i (u.withCredentials loginName hash) (.ok ()) past)
    fun past => (alterations i past).length ≠ 1

theorem Saw.mono {past' : Journal} (h : Saw t i token u past) (hmore : past <+: past') :
    Saw t i token u past' := by
  obtain ⟨before, after, id, rfl, hbefore, hu, htoken⟩ := h
  obtain ⟨more, rfl⟩ := hmore
  exact ⟨before, after ++ more, id, by simp, hbefore, hu, htoken⟩

/-- What was seen stays so. -/
theorem wp_carry {α : Type} {p : Program interface α} {Q : α → Journal → Prop}
    (hsaw : Saw t i token u past) (h : p.wp (amid t i) Q past) :
    p.wp (amid t i) (fun a past' => Saw t i token u past' ∧ Q a past') past :=
  wp_mono (fun _ _ ha => ⟨hsaw.mono ha.1, ha.2⟩) (wp_amid_grows h)

theorem wp_ask_amid (h : alterations i past = l) (hc : c.altersRecords = false) :
    (ask c).run.wp (amid t i) (post (fun _ past' => alterations i past' = l) fun _ => False) past :=
  fun _ hothers _ _ => alterations_quiet h hothers hc

theorem wp_hashPassword_amid (h : alterations i past = l) (password : String) :
    (hashPassword password).run.wp (amid t i) (fun _ past' => alterations i past' = l) past := by
  unfold hashPassword
  refine wp_seq (wp_ask_amid h rfl) ?_ (fun _ _ hs => hs.elim)
  intro x past' hpast'
  rcases x with _ | _ | hash
  · exact hpast'
  · exact hpast'
  · exact hpast'

theorem wp_isExpired_amid (h : alterations i past = l) (rules : Rules) (issued : Option Instant) :
    (isExpired rules issued).run.wp (amid t i) (fun _ past' => alterations i past' = l) past := by
  unfold isExpired
  cases issued with
  | none => exact h
  | some issued => exact wp_seq (wp_ask_amid h rfl) (fun _ _ hs => hs) (fun _ _ hs => hs.elim)

theorem wp_load_amid (h : alterations i past = []) (id : String) :
    (Directory.load id).run.wp (directoryCalls (amid t i)) (fun r past' =>
      alterations i past' = [] ∧ ∀ u, r = .ok (some u) → ∃ before,
        past' = before ++ [(i, .directory (.backend (.record id)))] ∧ alterations i before = [] ∧
        (replay t before).user? id = some u) past := by
  have hlook : (Directory.ask (.record id)).run.wp (directoryCalls (amid t i)) (fun r past' =>
      alterations i past' = [] ∧ ∃ before,
        past' = before ++ [(i, .directory (.backend (.record id)))] ∧ alterations i before = [] ∧
        r = .ok ((replay t before).record id)) past := by
    rw [Directory.wp_ask]
    rintro others hothers _ rfl
    refine ⟨alterations_quiet h hothers rfl, past ++ others, rfl, ?_, rfl⟩
    rw [alterations_append, h, alterations_of_others hothers, List.append_nil]
  unfold Directory.load
  refine wp_seq hlook ?_ (fun _ _ hs => ⟨hs.1, nofun⟩)
  rintro x past' ⟨hpast', before, hsplit, hbefore, hx⟩
  have hx := Except.ok.inj hx
  cases x with
  | none => exact ⟨hpast', nofun⟩
  | some text =>
    simp only
    cases hd : User.decode? text with
    | none => exact ⟨hpast', nofun⟩
    | some v =>
      refine ⟨hpast', ?_⟩
      rintro u ⟨⟩
      exact ⟨before, hsplit, hbefore, Option.bind_eq_some_iff.2 ⟨text, hx.symm, hd⟩⟩

theorem wp_findByToken_amid (h : alterations i past = []) (token : String) :
    (findByToken token).run.wp (amid t i) (fun r past' => alterations i past' = [] ∧
      ∀ u, r = .ok u → Saw t i token u past') past := by
  have hfind : (Directory.findOwner .resetToken token).run.wp (directoryCalls (amid t i))
      (post (fun u past' => alterations i past' = [] ∧ Saw t i token u past')
        fun past' => alterations i past' = []) past := by
    unfold Directory.findOwner
    refine wp_seq (wp_owner_amid h _ token) ?_
      (fun _ _ hs => hs.1)
    rintro x s₁ ⟨h₁, -⟩
    cases x with
    | none => exact h₁
    | some id =>
      refine wp_seq (wp_load_amid h₁ id) ?_ (fun _ _ hs => hs.1)
      rintro x s₂ ⟨h₂, hfound⟩
      cases x with
      | none => exact h₂
      | some u =>
        simp only
        split
        · next htoken =>
          obtain ⟨before, rfl, hbefore, hu⟩ := hfound u rfl
          exact ⟨h₂, before, [], id, rfl, hbefore, hu, htoken⟩
        · exact h₂
  unfold findByToken
  rw [wp_tryCatch]
  refine wp_mono (fun r s' hr => ?_) (wp_onDirectory_post hfind)
  cases r with
  | ok u =>
    refine ⟨hr.1, ?_⟩
    rintro _ ⟨⟩
    exact hr.2
  | error e =>
    simp only
    split
    · exact ⟨hr, nofun⟩
    · exact ⟨hr, nofun⟩

theorem wp_resetCredentials_amid (h : alterations i past = []) (rules : Rules)
    (token loginName password : String) :
    (resetCredentials rules token loginName password).run.wp (amid t i) (Redeems t i token)
      past := by
  have hnothing {e : ServiceError} {past' : Journal} (hpast' : alterations i past' = []) :
      Redeems (α := String) t i token (.error e) past' := by
    change (alterations i past').length ≠ 1
    simp [hpast']
  unfold resetCredentials
  refine wp_require_seq ?_ (fun _ => hnothing h)
  refine wp_require_seq ?_ (fun _ => hnothing h)
  refine wp_require_seq ?_ (fun _ => hnothing h)
  refine wp_seq (wp_findByToken_amid h token) ?_ (fun _ _ hs => hnothing hs.1)
  rintro u s₁ ⟨h₁, hsaw⟩
  refine wp_seq (wp_carry (hsaw u rfl) (wp_isExpired_amid h₁ rules u.resetTokenIssued)) ?_
    (fun _ _ hs => hnothing hs.2)
  rintro expired s₂ ⟨hsaw₂, h₂⟩
  cases expired with
  | true => exact hnothing h₂
  | false =>
    refine wp_seq (wp_carry hsaw₂ (wp_hashPassword_amid h₂ password)) ?_
      (fun _ _ hs => hnothing hs.2)
    rintro hash s₃ ⟨hsaw₃, h₃⟩
    refine wp_seq (wp_carry hsaw₃ (wp_save_amid h₃ (u.withCredentials loginName hash))) ?_
      (fun _ _ hs => hs.2)
    rintro _ s₄ ⟨hsaw₄, h₄⟩
    refine wp_seq (wp_carry hsaw₄ (wp_ask_amid h₄ rfl)) ?_ (fun _ _ hs => hs.2.elim)
    exact fun _ s₅ hs => ⟨u, loginName, hash, hs.1, hs.2⟩

/-! ### Two resets -/

/-- Two resets with one token, each on a service of its own or both on the same: the service `i` has
the directory `home i`. -/
structure Rivals (ε κ : Type) where
  home : Bool → κ
  env : Bool → Handler interface ε
  rules : Bool → Rules
  token : String
  loginName : Bool → String
  password : Bool → String

namespace Rivals

variable [DecidableEq κ]

/-- No call of a directory fails, and a directory has one lock. -/
def answer (p : Rivals ε κ) (i : Bool) :
    (c : Call) → Directory.Shared κ × ε → Option (c.Reply × Directory.Shared κ × ε)
  | .directory c, (s, x) => (Directory.answer p.home i c s).map fun r => (r.1, r.2, x)
  | c, (s, x) => some ((p.env i c x).1, s, (p.env i c x).2)

section

variable (p : Rivals ε κ) (t : Tables) (x : ε)

def launch : Threads interface Bool (Directory.Shared κ × ε) (Except ServiceError Answer) :=
  ⟨(⟨t, fun _ => false⟩, x), fun i =>
    (perform (p.rules i) (.resetCredentials p.token (p.loginName i) (p.password i))).run⟩

/-- The two resets after these turns. -/
def together (schedule : List Bool) :
    Threads interface Bool (Directory.Shared κ × ε) (Except ServiceError Answer) :=
  (p.launch t x).run p.answer schedule

/-- Their calls in these turns. -/
def history (schedule : List Bool) : Journal := (p.launch t x).journal p.answer schedule

/-- What is known after these turns. -/
structure Traced (schedule : List Bool) : Prop where
  tables : (p.together t x schedule).shared.1.tables = replay t (p.history t x schedule)
  resets : ∀ i, ((p.together t x schedule).rest i).wp (amid t i) (Redeems t i p.token)
    (p.history t x schedule)

end

variable {p : Rivals ε κ} {x : ε} {schedule : List Bool}

theorem answer_backend (i : Bool) (r : Request) (s : Directory.Shared κ × ε) :
    p.answer i (.directory (.backend r)) s = some (.ok (Tables.respond r s.1.tables).1,
      { s.1 with tables := (Tables.respond r s.1.tables).2 }, s.2) := rfl

/-- What an answered call replies, and what it does to the tables. -/
theorem answer_cases {s s' : Directory.Shared κ × ε} {reply : c.Reply}
    (h : p.answer i c s = some (reply, s')) (hs : s.1.tables = replay t past) :
    Truthful t past c reply ∧ s'.1.tables = replay t (past ++ [(i, c)]) := by
  cases c with
  | directory d =>
    cases d with
    | backend r =>
      rw [answer_backend] at h
      obtain ⟨hreply, rfl⟩ := Prod.mk.inj (Option.some.inj h)
      rw [hs] at hreply
      exact ⟨hreply.symm, by rw [replay_concat_backend, ← hs]⟩
    | lock =>
      refine ⟨trivial, ?_⟩
      rw [replay_concat_of_isQuiet rfl, ← hs]
      simp only [answer, Directory.answer] at h
      split at h
      · cases h
      · cases h
        rfl
    | unlock =>
      obtain ⟨-, rfl⟩ := Prod.mk.inj (Option.some.inj h)
      refine ⟨trivial, ?_⟩
      rw [replay_concat_of_isQuiet rfl, ← hs]
  | _ =>
    obtain ⟨-, rfl⟩ := Prod.mk.inj (Option.some.inj h)
    refine ⟨trivial, ?_⟩
    rw [replay_concat_of_isQuiet rfl, ← hs]

end Rivals

/-- The calls of the other do not matter to how a reset has ended. -/
theorem Redeems.append {α : Type} {r : Except ServiceError α} (h : Redeems t i token r past)
    (hothers : ∀ e ∈ others, e.1 ≠ i) : Redeems t i token r (past ++ others) := by
  have hsame : alterations i (past ++ others) = alterations i past := by
    rw [alterations_append, alterations_of_others hothers, List.append_nil]
  cases r with
  | ok a =>
    obtain ⟨u, loginName, hash, hsaw, hmarked⟩ := h
    exact ⟨u, loginName, hash, hsaw.mono (List.prefix_append _ _), hmarked.congr hsame⟩
  | error e =>
    change (alterations i (past ++ others)).length ≠ 1
    rw [hsame]
    exact h

namespace Rivals

variable [DecidableEq κ] {p : Rivals ε κ} {x : ε} {schedule : List Bool}

theorem Traced.turn (h : p.Traced t x schedule) (i : Bool) : p.Traced t x (schedule ++ [i]) := by
  have hrun : p.together t x (schedule ++ [i]) = (p.together t x schedule).step p.answer i :=
    Threads.run_concat schedule i
  have hjournal : p.history t x (schedule ++ [i]) = p.history t x schedule ++
      (p.together t x schedule).turn p.answer i := Threads.journal_concat schedule i
  rcases Threads.turn_cases p.answer (p.together t x schedule) i with
    ⟨hstep, hturn⟩ | ⟨c, next, reply, s, hrest, hanswer, hstep, hturn⟩
  · rw [hstep] at hrun
    rw [hturn, List.append_nil] at hjournal
    exact ⟨by rw [hrun, hjournal]; exact h.tables, by rw [hrun, hjournal]; exact h.resets⟩
  · rw [hstep] at hrun
    rw [hturn] at hjournal
    obtain ⟨hreply, htables⟩ := answer_cases hanswer h.tables
    refine ⟨by rw [hrun, hjournal]; exact htables, fun j => ?_⟩
    rw [hrun, hjournal]
    by_cases hj : j = i
    · subst hj
      have hreset := h.resets j
      rw [hrest] at hreset
      have hnext := hreset [] (by simp) reply (by rwa [List.append_nil])
      rw [List.append_nil] at hnext
      simpa using hnext
    · simp only [if_neg hj]
      refine wp_amid_append (fun a past others hothers ha => ha.append hothers) (h.resets j) ?_
      simpa using fun hij => hj hij.symm

theorem traced (p : Rivals ε κ) (t : Tables) (x : ε) (schedule : List Bool) :
    p.Traced t x schedule := by
  induction schedule using List.reverseRecOn with
  | nil =>
    refine ⟨rfl, fun i => ?_⟩
    change (perform (p.rules i) (.resetCredentials p.token (p.loginName i) (p.password i))).run.wp
      _ _ []
    rw [perform, wp_map_except]
    refine wp_mono (fun r past hr => ?_) (wp_resetCredentials_amid rfl _ _ _ _)
    cases r with
    | ok _ => exact hr
    | error _ => exact hr
  | append_singleton schedule i ih => exact ih.turn i

end Rivals

/-! ### Where both succeed -/

/-- Each has written one record, both the same, and nothing else is written; the later one had
looked it up before the earlier one wrote it. -/
def Overlapping (past : Journal) : Prop :=
  ∃ before i between j after id first second,
    past = before ++ (i, .directory (.backend (.setRecord id first))) :: between ++
      (j, .directory (.backend (.setRecord id second))) :: after ∧
    i ≠ j ∧ (j, .directory (.backend (.record id))) ∈ before ∧
    ∀ e ∈ before ++ between ++ after, e.2.altersRecords = false

section

variable {before between rest after : Journal} {j : Bool} {d : Call} {w : User}

theorem mem_alterations : c ∈ alterations i past ↔ (i, c) ∈ past ∧ c.altersRecords = true := by
  cases i <;> simp [alterations]

theorem alterations_of_subset (h : alterations i past = []) (hsub : others ⊆ past) :
    alterations i others = [] :=
  alterations_eq_nil_iff.2 fun e he => alterations_eq_nil_iff.1 h e (hsub he)

theorem eq_or_eq_of_ne (hij : i ≠ j) (k : Bool) : k = i ∨ k = j := by
  revert hij
  cases i <;> cases j <;> cases k <;> simp

/-- Where neither alters a record none is altered. -/
theorem quiet_of_alterations (hij : i ≠ j) (hi : alterations i past = [])
    (hj : alterations j past = []) : ∀ e ∈ past, e.2.altersRecords = false := by
  intro e he
  rcases eq_or_eq_of_ne hij e.1 with h | h
  · exact alterations_eq_nil_iff.1 hi e he h
  · exact alterations_eq_nil_iff.1 hj e he h

theorem alterations_of_quiet (h : ∀ e ∈ past, e.2.altersRecords = false) (i : Bool) :
    alterations i past = [] :=
  alterations_eq_nil_iff.2 fun e he _ => h e he

theorem alterations_cons (c : Call) (past : Journal) :
    alterations i ((i, c) :: past) =
      (if c.altersRecords then [c] else []) ++ alterations i past := by
  rw [← alterations_singleton, ← alterations_append]
  rfl

theorem alterations_cons_of_ne (h : j ≠ i) (c : Call) (past : Journal) :
    alterations i ((j, c) :: past) = alterations i past := by
  simp [alterations, h]

/-- Around the only alteration there is none. -/
theorem alterations_around (h : alterations i (before ++ (i, c) :: rest) = [c])
    (hc : c.altersRecords = true) : alterations i before = [] ∧ alterations i rest = [] := by
  rw [alterations_append, alterations_cons, hc, if_pos rfl] at h
  have hlength := congrArg List.length h
  simp only [List.length_append, List.length_singleton] at hlength
  exact ⟨List.length_eq_zero_iff.1 (by omega), List.length_eq_zero_iff.1 (by omega)⟩

/-- One of two calls of different operations is the earlier one. -/
theorem exists_order (hij : i ≠ j) (hi : (i, c) ∈ past) (hj : (j, d) ∈ past) :
    (∃ before between after, past = before ++ (i, c) :: between ++ (j, d) :: after) ∨
      ∃ before between after, past = before ++ (j, d) :: between ++ (i, c) :: after := by
  obtain ⟨before, after, rfl⟩ := List.append_of_mem hi
  rcases List.mem_append.1 hj with hj | hj
  · obtain ⟨first, second, rfl⟩ := List.append_of_mem hj
    exact Or.inr ⟨first, second, after, rfl⟩
  · rcases List.mem_cons.1 hj with hj | hj
    · exact absurd (congrArg Prod.fst hj).symm hij
    · obtain ⟨first, second, rfl⟩ := List.append_of_mem hj
      exact Or.inl ⟨before, first, second, by simp⟩

/-- What an operation saw before it altered a record it saw before anything was written, or after
the first write of the other. -/
theorem Saw.cases (h : Saw t j token w (before ++ (i, c) :: rest))
    (hc : c.altersRecords = true) :
    Saw t j token w before ∨ ∃ middle id after, rest = middle ++ after ∧
      alterations j (before ++ (i, c) :: middle) = [] ∧
      (replay t (before ++ (i, c) :: middle)).user? id = some w ∧
      w.unique? .resetToken = some token := by
  obtain ⟨first, second, id, hsplit, hfirst, hw, htoken⟩ := h
  rcases List.append_eq_append_iff.1 hsplit with ⟨middle, rfl, hmiddle⟩ | ⟨middle, rfl, hmiddle⟩
  · rcases middle with _ | ⟨e, middle⟩
    · obtain ⟨he, -⟩ := List.cons.inj hmiddle
      cases he
      cases hc
    · obtain ⟨rfl, rfl⟩ := List.cons.inj hmiddle
      exact Or.inr ⟨middle, id, _, rfl, hfirst, hw, htoken⟩
  · rcases middle with _ | ⟨e, middle⟩
    · obtain ⟨he, -⟩ := List.cons.inj hmiddle
      cases he
      cases hc
    · obtain ⟨rfl, rfl⟩ := List.cons.inj hmiddle
      exact Or.inl ⟨first, middle, id, rfl, hfirst, hw, htoken⟩

/-- What was seen before anything was written is what there was at first. -/
theorem Saw.initial (h : Saw t i token u before)
    (hquiet : ∀ e ∈ before, e.2.altersRecords = false) :
    ∃ id, (i, .directory (.backend (.record id))) ∈ before ∧ t.user? id = some u ∧
      u.unique? .resetToken = some token := by
  obtain ⟨first, second, id, rfl, -, hu, htoken⟩ := h
  have hsame : (replay t ([] ++ first)).record = t.record :=
    record_replay_append fun e he => hquiet e (List.mem_append_left _ he)
  exact ⟨id, by simp, (congrFun (Tables.user?_congr hsame) id).symm.trans hu, htoken⟩

/-- The users after one record has been written. -/
theorem user?_replay_sole (hv : v.IsDated) (hbefore : ∀ e ∈ before, e.2.altersRecords = false)
    (hafter : ∀ e ∈ after, e.2.altersRecords = false) (id : String) :
    (replay t (before ++ (i, .directory (.backend (.setRecord v.id v.encode))) :: after)).user? id =
      if id = v.id then some v else t.user? id := by
  have hsame : (replay t ([] ++ before)).record = t.record := record_replay_append hbefore
  rw [List.append_cons, Tables.user?_congr (record_replay_append hafter), user?_replay_write hv]
  exact congrArg (ite (id = v.id) (some v)) (congrFun (Tables.user?_congr hsame) id)

/-- Where both have seen the token and written their user, the later one saw it before the earlier
one wrote. -/
theorem overlapping_of_order (hnamed : t.Named)
    (hone : ∀ {id id' : String}, t.Carries id .resetToken token →
      t.Carries id' .resetToken token → id = id')
    (hij : i ≠ j) {a b a' b' : String}
    (hc : c = .directory (.backend (.setRecord u.id (u.withCredentials a b).encode)))
    (hd : d = .directory (.backend (.setRecord w.id (w.withCredentials a' b').encode)))
    (hi : alterations i (before ++ (i, c) :: between ++ (j, d) :: after) = [c])
    (hj : alterations j (before ++ (i, c) :: between ++ (j, d) :: after) = [d])
    (hu : Saw t i token u (before ++ (i, c) :: between ++ (j, d) :: after))
    (hw : Saw t j token w (before ++ (i, c) :: between ++ (j, d) :: after)) :
    Overlapping (before ++ (i, c) :: between ++ (j, d) :: after) := by
  have halters : c.altersRecords = true := by
    rw [hc]
    rfl
  have halters' : d.altersRecords = true := by
    rw [hd]
    rfl
  obtain ⟨hjFirst, hjAfter⟩ := alterations_around hj halters'
  have hassoc : before ++ (i, c) :: between ++ (j, d) :: after =
      before ++ (i, c) :: (between ++ (j, d) :: after) := by simp
  rw [hassoc] at hi hu hw
  obtain ⟨hiBefore, hiRest⟩ := alterations_around hi halters
  have hbefore := quiet_of_alterations hij hiBefore
    (alterations_of_subset hjFirst fun e he => List.mem_append_left _ he)
  have hbetween := quiet_of_alterations hij
    (alterations_of_subset hiRest fun e he => List.mem_append_left _ he)
    (alterations_of_subset hjFirst fun e he => List.mem_append_right _ (List.mem_cons_of_mem _ he))
  have hafter := quiet_of_alterations hij
    (alterations_of_subset hiRest fun e he => List.mem_append_right _ (List.mem_cons_of_mem _ he))
    hjAfter
  -- the earlier one saw the user as it was at first
  obtain ⟨id, -, huser, htoken⟩ : ∃ id, (i, .directory (.backend (.record id))) ∈ before ∧
      t.user? id = some u ∧ u.unique? .resetToken = some token := by
    rcases hu.cases halters with hu | ⟨middle, id, rest, -, hnone, -⟩
    · exact hu.initial hbefore
    · have hquiet := alterations_eq_nil_iff.1 hnone (i, c) (by simp) rfl
      cases halters.symm.trans hquiet
  obtain rfl : u.id = id := hnamed.id_eq huser
  rcases hw.cases halters with hw | ⟨middle, id', rest, hrest, hnone, hw, htoken'⟩
  · obtain ⟨id', hlook, hw, htoken'⟩ := hw.initial hbefore
    obtain rfl : u.id = id' := hone ⟨u, huser, htoken⟩ ⟨w, hw, htoken'⟩
    rw [hnamed.id_eq hw] at hd
    refine ⟨before, i, between, j, after, u.id, _, _, by rw [hc, hd], hij, hlook, fun e he => ?_⟩
    rcases List.mem_append.1 he with he | he
    · exact (List.mem_append.1 he).elim (hbefore e) (hbetween e)
    · exact hafter e he
  · -- after the first write nobody had the token
    have hmiddle := quiet_of_alterations hij
      (alterations_of_subset hiRest fun e he => hrest ▸ List.mem_append_left _ he)
      (alterations_of_subset hnone fun e he => List.mem_append_right _ (List.mem_cons_of_mem _ he))
    have hsole : (replay t (before ++ (i, c) :: middle)).user? id' =
        if id' = u.id then some (u.withCredentials a b) else t.user? id' := by
      rw [hc]
      exact user?_replay_sole (v := u.withCredentials a b) nofun hbefore hmiddle id'
    rw [hsole] at hw
    split at hw
    · cases hw
      cases htoken'
    · next hne => exact absurd (hone ⟨w, hw, htoken'⟩ ⟨u, huser, htoken⟩) hne

theorem Overlapping.length_alterations (h : Overlapping past) (k : Bool) :
    (alterations k past).length = 1 := by
  obtain ⟨before, i, between, j, after, id, first, second, rfl, hij, -, hquiet⟩ := h
  have hnone {part : Journal} (hpart : part ⊆ before ++ between ++ after) :
      alterations k part = [] := alterations_of_quiet (fun e he => hquiet e (hpart he)) k
  have hbefore : alterations k before = [] := hnone (by simp)
  have hbetween : alterations k between = [] := hnone (by simp)
  have hafter : alterations k after = [] := hnone (by simp)
  rcases eq_or_eq_of_ne hij k with rfl | rfl
  · rw [alterations_append, alterations_append, alterations_cons, alterations_cons_of_ne hij.symm,
      hbefore, hbetween, hafter]
    rfl
  · rw [alterations_append, alterations_append, alterations_cons_of_ne hij, alterations_cons,
      hbefore, hbetween, hafter]
    rfl

end

/-- Two resets with one token have ended. Both have succeeded exactly if the later one had looked
the user up before the earlier one wrote it. -/
theorem both_redeem_iff [DecidableEq κ] (p : Rivals ε κ) (x : ε)
    (hid : ∀ {id : String} {u : User}, t.user? id = some u → u.id = id)
    (hone : ∀ {id id' : String}, t.Carries id .resetToken p.token →
      t.Carries id' .resetToken p.token → id = id')
    {schedule : List Bool} {r : Bool → Except ServiceError Answer}
    (hended : ∀ i, (p.together t x schedule).rest i = .done (r i)) :
    (∀ i, ∃ a, r i = .ok a) ↔ Overlapping (p.history t x schedule) := by
  have hresets (i : Bool) : Redeems t i p.token (r i) (p.history t x schedule) := by
    have hreset := (p.traced t x schedule).resets i
    rwa [hended i] at hreset
  constructor
  · intro hboth
    have hwrote (i : Bool) : ∃ u a b, Saw t i p.token u (p.history t x schedule) ∧
        alterations i (p.history t x schedule) =
          [.directory (.backend (.setRecord u.id (u.withCredentials a b).encode))] := by
      obtain ⟨answer, hanswer⟩ := hboth i
      have hreset := hresets i
      rw [hanswer] at hreset
      exact hreset
    obtain ⟨u, a, b, hsaw, hone₁⟩ := hwrote false
    obtain ⟨w, a', b', hsaw', hone₂⟩ := hwrote true
    have hmem := (mem_alterations.1 (hone₁ ▸ List.mem_singleton_self _)).1
    have hmem' := (mem_alterations.1 (hone₂ ▸ List.mem_singleton_self _)).1
    rcases exists_order Bool.false_ne_true hmem hmem' with
      ⟨before, between, after, hsplit⟩ | ⟨before, between, after, hsplit⟩
    · rw [hsplit] at hone₁ hone₂ hsaw hsaw' ⊢
      exact overlapping_of_order ⟨hid⟩ hone Bool.false_ne_true rfl rfl hone₁ hone₂ hsaw hsaw'
    · rw [hsplit] at hone₁ hone₂ hsaw hsaw' ⊢
      exact overlapping_of_order ⟨hid⟩ hone Bool.false_ne_true.symm rfl rfl hone₂ hone₁ hsaw' hsaw
  · intro hoverlap i
    cases hr : r i with
    | ok a => exact ⟨a, rfl⟩
    | error e =>
      have hreset := hresets i
      rw [hr] at hreset
      exact absurd (hoverlap.length_alterations i) hreset

/-! ### A token that is redeemed twice -/

/-- Alice, who has a token. -/
def holder : User :=
  { member with resetToken := some "token", resetTokenIssued := some (.ofCount 0) }

def withHolder : Tables := Tables.empty.saved holder

/-- Two resets with the token of Alice on one service. -/
def rivals : Rivals Unit Unit where
  home _ := ()
  env _ := surroundings
  rules _ := .standard
  token := "token"
  loginName second := if second then "second" else "first"
  password second := if second then "two" else "one"

/-- The second reset is made when the first has looked for the token. -/
def resetInReset : List Bool := .replicate 2 false ++ .replicate 30 true ++ .replicate 30 false

theorem user?_withHolder {id : String} :
    withHolder.user? id = if id = "a" then some holder else none := by
  have hdated : holder.IsDated := by
    rintro _ ⟨⟩
    exact isDated_surroundings ()
  exact Tables.user?_saved hdated id

theorem id_withHolder {id : String} {u : User} (h : withHolder.user? id = some u) : u.id = id := by
  rw [user?_withHolder] at h
  split at h
  · next hid =>
    cases h
    exact hid.symm
  · cases h

theorem sole_withHolder {id id' : String} (h : withHolder.Carries id .resetToken "token")
    (h' : withHolder.Carries id' .resetToken "token") : id = id' := by
  have hid {id : String} (h : withHolder.Carries id .resetToken "token") : id = "a" := by
    obtain ⟨u, hu, -⟩ := h
    rw [user?_withHolder] at hu
    split at hu
    · next hid => exact hid
    · cases hu
  exact (hid h).trans (hid h').symm

theorem resetInReset_ends :
    (((rivals.together withHolder () resetInReset).rest false).result?,
      ((rivals.together withHolder () resetInReset).rest true).result?,
      (rivals.together withHolder () resetInReset).shared.1.tables.record "a") =
      (some (.ok (.text "a")), some (.ok (.text "a")),
        some (holder.withCredentials "first" "plain:one").encode) := by
  decide +kernel

theorem resetInReset_returned (i : Bool) :
    (rivals.together withHolder () resetInReset).rest i = .done (.ok (.text "a")) := by
  obtain ⟨hfirst, hends⟩ := Prod.mk.inj resetInReset_ends
  cases i
  · exact Program.eq_done_of_result? hfirst
  · exact Program.eq_done_of_result? (Prod.mk.inj hends).1

/-- Both resets return, so each had seen the token before the other wrote. -/
theorem both_redeem_iff_rivals : Overlapping (rivals.history withHolder () resetInReset) :=
  (both_redeem_iff rivals () id_withHolder sole_withHolder resetInReset_returned).1
    fun _ => ⟨_, rfl⟩

/-- One token lets both resets succeed, and Alice has the credentials of the one that came first. -/
theorem redeemed_twice :
    withHolder.user? "a" = some holder ∧ holder.unique? .resetToken = some rivals.token ∧
      ¬ Rules.standard.Expires (.ofCount 0) (surroundings .now ()).1 ∧
      (∀ i, (rivals.together withHolder () resetInReset).rest i = .done (.ok (.text "a"))) ∧
      (rivals.together withHolder () resetInReset).shared.1.tables.record "a" =
        some (holder.withCredentials "first" "plain:one").encode :=
  ⟨by rw [user?_withHolder, if_pos rfl], by decide, by unfold Rules.Expires; decide,
    resetInReset_returned, (Prod.mk.inj (Prod.mk.inj resetInReset_ends).2).2⟩

end Accounts.Service
