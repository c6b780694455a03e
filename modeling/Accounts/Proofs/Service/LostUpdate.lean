import Accounts.Hasher.Basic
import Accounts.Proofs.Directory.Race
import Accounts.Proofs.Service.Changes

/-!
# Two operations at the same time

Two operations on one service take turns call by call; only their saves exclude each other. An
update is lost exactly if the other operation looked its record up before and stored it after
(`updates_kept_iff`).
-/
namespace Accounts.Service

open Backend

variable {ε : Type}

/-- No call of the directory fails, and its lock has one holder. The surroundings answer the other
calls. -/
def answer (env : Handler interface ε) (_ : Bool) :
    (c : Call) → Directory.Shared Unit × ε → Option (c.Reply × Directory.Shared Unit × ε)
  | .directory c, (s, x) =>
    (Directory.answer (fun _ : Unit => ()) () c s).map fun r => (r.1, r.2, x)
  | c, (s, x) => some ((env c x).1, s, (env c x).2)

theorem answer_backend (env : Handler interface ε) (i : Bool) (r : Request)
    (p : Directory.Shared Unit × ε) :
    answer env i (.directory (.backend r)) p = some (.ok (Tables.respond r p.1.tables).1,
      { p.1 with tables := (Tables.respond r p.1.tables).2 }, p.2) := rfl

section

variable (env : Handler interface ε) (rules : Rules) (o : Bool → Operation) (t : Tables) (x : ε)

def launch : Threads interface Bool (Directory.Shared Unit × ε) (Except ServiceError Answer) :=
  ⟨(⟨t, fun _ => false⟩, x), fun i => (perform rules (o i)).run⟩

/-- The two operations after these turns. -/
def together (schedule : List Bool) :
    Threads interface Bool (Directory.Shared Unit × ε) (Except ServiceError Answer) :=
  (launch rules o t x).run (answer env) schedule

/-- Their calls in these turns. -/
def history (schedule : List Bool) : Journal :=
  (launch rules o t x).journal (answer env) schedule

/-- Each operation alters one record once, and stores there a user that it has made from one that it
had found. -/
def Orderly (past : Journal) : Prop :=
  ∀ before i c after, past = before ++ (i, c) :: after → c.altersRecords = true →
    Unwritten i before ∧ ∃ u, u.IsDated ∧
      c = .directory (.backend (.setRecord u.id u.encode)) ∧ MadeFrom t (o i) i before u

/-- One operation stores a user with a new value in one of its fields. The other has looked up the
record that it changes before, and stores it after. -/
def Overwritten (past : Journal) : Prop :=
  ∃ before i c between j d after u v, past = before ++ (i, c) :: between ++ (j, d) :: after ∧
    i ≠ j ∧ c.stored? = some u ∧ d.stored? = some v ∧ v.id = u.id ∧
    (o j).lookupsBefore < lookups j before ∧
    ∃ old, t.user? u.id = some old ∧ ∃ f ∈ (o i).fields, ¬ old.SameAt u f

/-- In the turn of `i` after these it makes this call, gets this reply and leaves this state. -/
structure Called (schedule : List Bool) (i : Bool) (c : Call)
    (next : c.Reply → Program interface (Except ServiceError Answer)) (reply : c.Reply)
    (s : Directory.Shared Unit × ε) : Prop where
  rest : (together env rules o t x schedule).rest i = .call c next
  answered : answer env i c (together env rules o t x schedule).shared = some (reply, s)
  turn : together env rules o t x (schedule ++ [i]) =
    ⟨s, fun j => if j = i then next reply else (together env rules o t x schedule).rest j⟩
  journal : history env rules o t x (schedule ++ [i]) =
    history env rules o t x schedule ++ [(i, c)]

/-- What is known after these turns when this operation has the lock. -/
structure Followed (schedule : List Bool) (holder : Option Bool) : Prop where
  held : (together env rules o t x schedule).shared.1.held () = holder.isSome
  tables : (together env rules o t x schedule).shared.1.tables =
    replay t (history env rules o t x schedule)
  orderly : Orderly o t (history env rules o t x schedule)
  course : ∀ i, ((together env rules o t x schedule).rest i).wp (course t (o i) i)
    (Achieved (o i) i) ⟨history env rules o t x schedule, holder = some i⟩

end

variable {env : Handler interface ε} {rules : Rules} {o : Bool → Operation} {t : Tables} {x : ε}
  {schedule : List Bool} {holder : Option Bool} {past : Journal} {i : Bool} {c : Call}

theorem Achieved.append {o : Operation} {inside : Bool} {r : Except ServiceError Answer}
    (h : Achieved o i r ⟨past, inside⟩) (others : Journal) :
    Achieved o i r ⟨past ++ others, inside⟩ := by
  cases r with
  | error e => trivial
  | ok a =>
    intro hlogin
    obtain ⟨u, hu, hsets⟩ := h hlogin
    exact ⟨u, hu.append others, hsets⟩

/-! ### One turn -/

theorem Orderly.concat (h : Orderly o t past) (hc : c.altersRecords = true → Unwritten i past ∧
      ∃ u, u.IsDated ∧ c = .directory (.backend (.setRecord u.id u.encode)) ∧
        MadeFrom t (o i) i past u) : Orderly o t (past ++ [(i, c)]) := by
  intro before j d after hsplit hd
  rcases split_concat hsplit with ⟨rfl, hlast, -⟩ | ⟨after, -, hrest⟩
  · cases hlast
    exact hc hd
  · exact h before j d after hrest hd

theorem Orderly.left {after : Journal} (h : Orderly o t (past ++ after)) : Orderly o t past := by
  rintro before i c rest rfl hc
  exact h before i c (rest ++ after) (by simp) hc

theorem altersRecords_of_permitted {o : Operation} {s : View} (h : Permitted t o i s c)
    (hc : c.altersRecords = true) : Unwritten i s.past ∧ ∃ u, u.IsDated ∧
      c = .directory (.backend (.setRecord u.id u.encode)) ∧ MadeFrom t o i s.past u := by
  cases c with
  | directory d =>
    cases d with
    | backend r =>
      obtain ⟨hunwritten, u, hu, rfl, hmade⟩ := h.2 hc
      exact ⟨hunwritten, u, hu, rfl, hmade⟩
    | lock => cases hc
    | unlock => cases hc
  | _ => cases hc

theorem turn_cases (rules : Rules) (o : Bool → Operation) (t : Tables) (x : ε)
    (schedule : List Bool) (i : Bool) :
    (together env rules o t x (schedule ++ [i]) = together env rules o t x schedule ∧
        history env rules o t x (schedule ++ [i]) = history env rules o t x schedule) ∨
      ∃ c next reply s, Called env rules o t x schedule i c next reply s := by
  have hrun : together env rules o t x (schedule ++ [i]) =
      (together env rules o t x schedule).step (answer env) i := Threads.run_concat schedule i
  have hjournal : history env rules o t x (schedule ++ [i]) = history env rules o t x schedule ++
      (together env rules o t x schedule).turn (answer env) i := Threads.journal_concat schedule i
  rcases Threads.turn_cases (answer env) (together env rules o t x schedule) i with
    ⟨hstep, hturn⟩ | ⟨c, next, reply, s, hrest, hanswer, hstep, hturn⟩
  · rw [hstep] at hrun
    rw [hturn, List.append_nil] at hjournal
    exact Or.inl ⟨hrun, hjournal⟩
  · rw [← hrun] at hstep
    rw [hturn] at hjournal
    exact Or.inr ⟨c, next, reply, s, hrest, hanswer, hstep, hjournal⟩

namespace Followed

variable {s : Directory.Shared Unit × ε}

/-- The operation whose turn it is was permitted to make its call. -/
theorem permitted (h : Followed env rules o t x schedule holder) {reply : c.Reply}
    {next : c.Reply → Program interface (Except ServiceError Answer)}
    (hcall : Called env rules o t x schedule i c next reply s) :
    Permitted t (o i) i ⟨history env rules o t x schedule, holder = some i⟩ c := by
  have hcourse := h.course i
  rw [hcall.rest] at hcourse
  have hpermitted := (hcourse [] ⟨by simp, by simp⟩).1
  rwa [List.append_nil] at hpermitted

/-- A call of `i` after which `holder'` has the lock. -/
theorem call (h : Followed env rules o t x schedule holder) {reply : c.Reply}
    {next : c.Reply → Program interface (Except ServiceError Answer)}
    (hcall : Called env rules o t x schedule i c next reply s)
    (hreply : Possible t (history env rules o t x schedule) c reply)
    (htables : s.1.tables = replay t (history env rules o t x schedule ++ [(i, c)]))
    {holder' : Option Bool} (hheld : s.1.held () = holder'.isSome)
    (hself : c.inside (holder = some i) = decide (holder' = some i))
    (hothers : ∀ j, j ≠ i → (holder' = some j ↔ holder = some j))
    (hquiet : ∀ j, j ≠ i → holder = some j → c.isQuiet = true) :
    Followed env rules o t x (schedule ++ [i]) holder' := by
  have hcourse := h.course i
  rw [hcall.rest] at hcourse
  have hnext := (hcourse [] ⟨by simp, by simp⟩).2
  rw [List.append_nil] at hnext
  refine ⟨by rw [hcall.turn]; exact hheld, by rw [hcall.turn, hcall.journal]; exact htables, ?_,
    fun j => ?_⟩
  · rw [hcall.journal]
    exact h.orderly.concat (altersRecords_of_permitted (h.permitted hcall))
  · rw [hcall.turn, hcall.journal]
    by_cases hj : j = i
    · subst hj
      have hnext := hnext reply hreply
      simp only [View.after, List.append_nil, hself] at hnext
      simpa using hnext
    · have hsame : decide (holder' = some j) = decide (holder = some j) :=
        decide_eq_decide.2 (hothers j hj)
      simp only [if_neg hj, hsame]
      refine wp_elsewhere (fun a past others ha => ha.append others) (h.course j) ⟨?_, ?_⟩
      · simpa using fun hij => hj hij.symm
      · intro hin
        simpa using hquiet j hj (of_decide_eq_true hin)

theorem backend (h : Followed env rules o t x schedule holder) {r : Request}
    {reply : Except BackendError r.Value}
    {next : Except BackendError r.Value → Program interface (Except ServiceError Answer)}
    (hcall : Called env rules o t x schedule i (.directory (.backend r)) next reply s) :
    Followed env rules o t x (schedule ++ [i]) holder := by
  have hanswered := hcall.answered
  rw [answer_backend] at hanswered
  obtain ⟨hreply, rfl⟩ := Prod.mk.inj (Option.some.inj hanswered)
  refine h.call hcall ?_ ?_ h.held rfl (fun _ _ => Iff.rfl) ?_
  · rw [← hreply, h.tables]
    rfl
  · rw [replay_concat_backend, h.tables]
  · rintro j hj rfl
    exact (h.permitted hcall).1 (decide_eq_false fun hij => hj (Option.some.inj hij))

/-- Who waits for the lock has it when nobody else has. -/
theorem lock (h : Followed env rules o t x schedule holder) {reply : Unit}
    {next : Unit → Program interface (Except ServiceError Answer)}
    (hcall : Called env rules o t x schedule i (.directory .lock) next reply s) :
    Followed env rules o t x (schedule ++ [i]) (some i) := by
  have hanswered := hcall.answered
  have hfree : holder = none := by
    cases hholder : holder with
    | none => rfl
    | some k =>
      have hheld := h.held
      simp [answer, Directory.answer, hheld, hholder] at hanswered
  subst hfree
  have hheld : (together env rules o t x schedule).shared.1.held () = false := h.held
  simp only [answer, Directory.answer, hheld, Bool.false_eq_true, if_false,
    Option.map_some, Option.some.injEq] at hanswered
  obtain ⟨-, rfl⟩ := Prod.mk.inj hanswered
  refine h.call hcall trivial ?_ rfl ?_ ?_ fun _ _ hother => by cases hother
  · rw [replay_concat_of_isQuiet rfl]
    exact h.tables
  · simp [Call.inside]
  · intro j hj
    simpa using hj.symm

theorem unlock (h : Followed env rules o t x schedule holder) {reply : Unit}
    {next : Unit → Program interface (Except ServiceError Answer)}
    (hcall : Called env rules o t x schedule i (.directory .unlock) next reply s) :
    Followed env rules o t x (schedule ++ [i]) none := by
  have hholder : holder = some i := of_decide_eq_true (h.permitted hcall)
  subst hholder
  obtain ⟨-, rfl⟩ := Prod.mk.inj (Option.some.inj hcall.answered)
  refine h.call hcall trivial ?_ rfl ?_ ?_ fun _ _ _ => rfl
  · rw [replay_concat_of_isQuiet rfl]
    exact h.tables
  · simp [Call.inside]
  · intro j hj
    simpa using hj.symm

/-- The surroundings leave the directory alone. -/
theorem surroundings (h : Followed env rules o t x schedule holder) {reply : c.Reply}
    {next : c.Reply → Program interface (Except ServiceError Answer)}
    (hcall : Called env rules o t x schedule i c next reply s)
    (hclock : ∀ x, Instant.IsDated (env .now x).1) (hc : ∀ d, c ≠ .directory d) :
    Followed env rules o t x (schedule ++ [i]) holder := by
  have hanswered := hcall.answered
  have hquiet : c.isQuiet = true := by
    cases c with
    | directory d => exact absurd rfl (hc d)
    | _ => rfl
  have hinside (inside : Bool) : c.inside inside = inside := by
    cases c with
    | directory d => exact absurd rfl (hc d)
    | _ => rfl
  have hsame : s.1 = (together env rules o t x schedule).shared.1 := by
    cases c with
    | directory d => exact absurd rfl (hc d)
    | _ =>
      obtain ⟨-, rfl⟩ := Prod.mk.inj (Option.some.inj hanswered)
      rfl
  have hreply : Possible t (history env rules o t x schedule) c reply := by
    cases c with
    | directory d => exact absurd rfl (hc d)
    | now =>
      obtain ⟨rfl, -⟩ := Prod.mk.inj (Option.some.inj hanswered)
      exact hclock _
    | _ => trivial
  refine h.call hcall hreply ?_ (hsame ▸ h.held) (hinside _) (fun _ _ => Iff.rfl)
    fun _ _ _ => hquiet
  rw [replay_concat_of_isQuiet hquiet, hsame]
  exact h.tables

theorem turn (h : Followed env rules o t x schedule holder)
    (hclock : ∀ x, Instant.IsDated (env .now x).1) (i : Bool) :
    ∃ holder', Followed env rules o t x (schedule ++ [i]) holder' := by
  rcases turn_cases rules o t x schedule i with
    ⟨hsame, hquiet⟩ | ⟨c, next, reply, s, hcall⟩
  · exact ⟨holder, by rw [hsame]; exact h.held, by rw [hsame, hquiet]; exact h.tables,
      by rw [hquiet]; exact h.orderly, by rw [hsame, hquiet]; exact h.course⟩
  · cases c with
    | directory d =>
      cases d with
      | backend r => exact ⟨holder, h.backend hcall⟩
      | lock => exact ⟨some i, h.lock hcall⟩
      | unlock => exact ⟨none, h.unlock hcall⟩
    | _ => exact ⟨holder, h.surroundings hcall hclock (by simp)⟩

end Followed

theorem exists_followed (rules : Rules) (t : Tables) (x : ε)
    (hclock : ∀ x, Instant.IsDated (env .now x).1) (hfields : ∀ i, (o i).fields ≠ [])
    (schedule : List Bool) :
    ∃ holder, Followed env rules o t x schedule holder := by
  induction schedule using List.reverseRecOn with
  | nil =>
    refine ⟨none, rfl, rfl, ?_, fun i => wp_perform rules (hfields i) t i⟩
    intro before i c after hsplit
    have hsplit : [] = before ++ (i, c) :: after := hsplit
    simp at hsplit
  | append_singleton schedule i ih =>
    obtain ⟨holder, h⟩ := ih
    exact h.turn hclock i

/-! ### What an orderly journal leaves -/

theorem record_replay_concat (h : c.altersRecords = false) :
    (replay t (past ++ [(i, c)])).record = (replay t past).record := by
  cases c with
  | directory d =>
    cases d with
    | backend r =>
      rw [replay_concat_backend]
      exact Directory.record_respond h _
    | _ => rw [replay_concat_of_isQuiet rfl]
  | _ => rw [replay_concat_of_isQuiet rfl]

theorem record_replay_append {others : Journal} (h : ∀ e ∈ others, e.2.altersRecords = false) :
    (replay t (past ++ others)).record = (replay t past).record := by
  induction others using List.reverseRecOn with
  | nil => rw [List.append_nil]
  | append_singleton others e ih =>
    rw [← List.append_assoc, record_replay_concat (h e (by simp))]
    exact ih fun d hd => h d (List.mem_append_left _ hd)

theorem user?_replay_write {u : User} (hu : u.IsDated) (id : String) :
    (replay t (past ++ [(i, .directory (.backend (.setRecord u.id u.encode)))])).user? id =
      if id = u.id then some u else (replay t past).user? id := by
  rw [replay_concat_backend]
  exact (Tables.user?_withRecord _ _ _).trans (by rw [Option.bind_some, User.decode?_encode hu])

theorem altersRecords_of_stored? {u : User} (h : c.stored? = some u) : c.altersRecords = true := by
  cases c with
  | directory d =>
    cases d with
    | backend r =>
      cases r with
      | setRecord id value => rfl
      | _ => cases h
    | _ => cases h
  | _ => cases h

/-- A call that stores a user is the first write of its operation, and writes that user's record. -/
theorem Orderly.eq_write {before after : Journal} {u : User}
    (h : Orderly o t (before ++ (i, c) :: after)) (hu : c.stored? = some u) :
    Unwritten i before ∧ MadeFrom t (o i) i before u ∧ u.IsDated ∧
      c = .directory (.backend (.setRecord u.id u.encode)) := by
  obtain ⟨hunwritten, v, hv, rfl, hmade⟩ := h before i c after rfl (altersRecords_of_stored? hu)
  obtain rfl : v = u := Option.some.inj ((User.decode?_encode hv).symm.trans hu)
  exact ⟨hunwritten, hmade, hv, rfl⟩

theorem Orderly.named (h : Orderly o t past) (hnamed : t.Named) : (replay t past).Named := by
  induction past using List.reverseRecOn with
  | nil => exact hnamed
  | append_singleton past e ih =>
    refine ⟨fun {id u} hu => ?_⟩
    cases hc : e.2.altersRecords with
    | false =>
      rw [Tables.user?_congr (record_replay_concat hc)] at hu
      exact (ih h.left).id_eq hu
    | true =>
      obtain ⟨-, v, hv, he, -⟩ := h past e.1 e.2 [] rfl hc
      rw [show e = (e.1, .directory (.backend (.setRecord v.id v.encode))) from Prod.ext rfl he,
        user?_replay_write hv] at hu
      split at hu
      · next hid =>
        cases hu
        exact hid.symm
      · exact (ih h.left).id_eq hu

section

variable {before between after : Journal} {j : Bool} {d : Call} {u v : User}

/-- An operation that has stored a user alters no record after that. -/
theorem Orderly.quiet_after (h : Orderly o t (before ++ (i, c) :: after)) (hu : c.stored? = some u)
    {e : Call} (he : (i, e) ∈ after) : e.altersRecords = false := by
  obtain ⟨first, second, rfl⟩ := List.append_of_mem he
  by_contra halters
  have hsplit : before ++ (i, c) :: (first ++ (i, e) :: second) =
      (before ++ (i, c) :: first) ++ (i, e) :: second := by simp
  obtain ⟨hunwritten, -⟩ := h _ _ _ _ hsplit (Bool.not_eq_false _ ▸ halters)
  have hquiet := hunwritten c (List.mem_append_right _ List.mem_cons_self)
  rw [altersRecords_of_stored? hu] at hquiet
  cases hquiet

/-- A stored user stands until another with its id is stored. -/
theorem Orderly.stands (h : Orderly o t (before ++ (i, c) :: after)) (hu : c.stored? = some u)
    (hlast : ∀ e ∈ after, ∀ v, e.2.stored? = some v → v.id ≠ u.id) :
    (replay t (before ++ (i, c) :: after)).user? u.id = some u := by
  rw [List.append_cons] at h ⊢
  induction after using List.reverseRecOn with
  | nil =>
    rw [List.append_nil] at h ⊢
    obtain ⟨-, -, hdated, rfl⟩ := h.eq_write hu
    rw [user?_replay_write hdated, if_pos rfl]
  | append_singleton after e ih =>
    rw [← List.append_assoc] at h ⊢
    have hbefore := ih h.left fun e he => hlast e (List.mem_append_left _ he)
    cases he : e.2.altersRecords with
    | false => rw [Tables.user?_congr (record_replay_concat he), hbefore]
    | true =>
      obtain ⟨-, v, hv, hwrite, -⟩ := h _ e.1 e.2 [] rfl he
      have hne : v.id ≠ u.id := by
        refine hlast e (List.mem_append_right _ (List.mem_singleton_self e)) v ?_
        rw [hwrite]
        exact User.decode?_encode hv
      rw [show e = (e.1, .directory (.backend (.setRecord v.id v.encode))) from
        Prod.ext rfl hwrite, user?_replay_write hv, if_neg hne.symm, hbefore]

/-- Where both operations store a user there is no other write. -/
theorem Orderly.quiet_of_both
    (h : Orderly o t (before ++ (i, c) :: between ++ (j, d) :: after)) (hij : i ≠ j)
    (hu : c.stored? = some u) (hv : d.stored? = some v) :
    (∀ e ∈ before, e.2.altersRecords = false) ∧ (∀ e ∈ between, e.2.altersRecords = false) ∧
      ∀ e ∈ after, e.2.altersRecords = false := by
  have hfirst : Orderly o t (before ++ (i, c) :: (between ++ (j, d) :: after)) := by
    simpa using h
  have hwho (e : Bool × Call) : e.1 = i ∨ e.1 = j := by
    rcases e with ⟨k, e⟩
    revert hij
    cases i <;> cases j <;> cases k <;> simp
  obtain ⟨hui, -⟩ := hfirst.eq_write hu
  obtain ⟨huj, -⟩ := h.eq_write hv
  refine ⟨fun e he => ?_, fun e he => ?_, fun e he => ?_⟩
  · rcases hwho e with rfl | rfl
    · exact hui e.2 he
    · exact huj e.2 (List.mem_append_left _ he)
  · rcases hwho e with rfl | rfl
    · exact hfirst.quiet_after hu (List.mem_append_left _ he)
    · exact huj e.2 (List.mem_append_right _ (List.mem_cons_of_mem _ he))
  · rcases hwho e with rfl | rfl
    · exact hfirst.quiet_after hu (List.mem_append_right _ (List.mem_cons_of_mem _ he))
    · exact h.quiet_after hv he

/-- Where both store a user of one id the later one stands. -/
theorem Orderly.stands_of_both
    (h : Orderly o t (before ++ (i, c) :: between ++ (j, d) :: after)) (hij : i ≠ j)
    (hu : c.stored? = some u) (hv : d.stored? = some v) (hsame : v.id = u.id) :
    (replay t (before ++ (i, c) :: between ++ (j, d) :: after)).user? u.id = some v := by
  obtain ⟨-, -, hafter⟩ := h.quiet_of_both hij hu hv
  rw [← hsame]
  exact h.stands hv fun e he w hw =>
    absurd (altersRecords_of_stored? hw) (by simp [hafter e he])

/-- A stored user is made from what a look-up of its own record has found. -/
theorem Orderly.exists_base (h : Orderly o t (before ++ (i, c) :: after))
    (hnamed : t.Named) (hu : c.stored? = some u) :
    ∃ first second b,
      before = first ++ (i, .directory (.backend (.record u.id))) :: second ∧
      lookups i first = (o i).lookupsBefore ∧ (replay t first).user? u.id = some b ∧
      (∀ f, f ∉ (o i).fields → b.SameAt u f) ∧ ∀ id, (o i).target? = some id → u.id = id := by
  obtain ⟨-, ⟨id, b, ⟨first, second, rfl, hn, hb⟩, htarget, hfields⟩, -⟩ := h.eq_write hu
  rw [List.append_assoc] at h
  obtain rfl : id = u.id := by
    rw [← (h.left.named hnamed).id_eq hb]
    exact hfields .id (by cases o i <;> simp [Operation.fields])
  exact ⟨first, second, b, rfl, hn, hb, hfields, htarget⟩

/-- The later write is made from the record as it was at first, if it was looked up before the
earlier write, and else from what that write has stored. -/
theorem Orderly.base_cases
    (h : Orderly o t (before ++ (i, c) :: between ++ (j, d) :: after)) (hij : i ≠ j)
    (hnamed : t.Named) (hu : c.stored? = some u) (hv : d.stored? = some v) (hsame : v.id = u.id) :
    ∃ b, (∀ f, f ∉ (o j).fields → b.SameAt v f) ∧
      if (o j).lookupsBefore < lookups j before then t.user? u.id = some b else b = u := by
  obtain ⟨hbefore, hbetween, -⟩ := h.quiet_of_both hij hu hv
  obtain ⟨first, second, b, hsplit, hn, hb, hfields, -⟩ := h.exists_base hnamed hv
  refine ⟨b, hfields, ?_⟩
  rw [← hn]
  rw [hsame] at hsplit hb
  have horderly : Orderly o t first := by
    rw [hsplit, List.append_assoc] at h
    exact h.left
  rcases List.append_eq_append_iff.1 hsplit with ⟨middle, rfl, hmiddle⟩ | ⟨middle, rfl, hmiddle⟩
  · -- looked up after the write of `u`
    rcases middle with _ | ⟨e, middle⟩
    · exact absurd (congrArg Prod.fst (List.cons.inj hmiddle).1) hij
    obtain ⟨rfl, rfl⟩ := List.cons.inj hmiddle
    have hquiet : ∀ e ∈ middle, e.2.altersRecords = false :=
      fun e he => hbetween e (List.mem_append_left _ he)
    have hstands : (replay t (before ++ (i, c) :: middle)).user? u.id = some u :=
      horderly.stands hu fun e he v hv =>
        absurd (altersRecords_of_stored? hv) (by simp [hquiet e he])
    have hle : lookups j before ≤ lookups j (before ++ (i, c) :: middle) := by
      rw [lookups_append]
      omega
    rw [if_neg (Nat.not_lt.2 hle)]
    exact Option.some.inj (hb.symm.trans hstands)
  · -- looked up before it
    rcases middle with _ | ⟨e, middle⟩
    · exact absurd (congrArg Prod.fst (List.cons.inj hmiddle).1).symm hij
    obtain ⟨rfl, -⟩ := List.cons.inj hmiddle
    have hlt : lookups j first < lookups j (first ++
        (j, .directory (.backend (.record u.id))) :: middle) := by
      have hone : lookups j ((j, .directory (.backend (.record u.id))) :: middle) =
          lookups j middle + 1 := by simp [lookups, Call.isLookup]
      rw [lookups_append, hone]
      omega
    rw [if_pos hlt, ← hb]
    have hsame : (replay t ([] ++ first)).record = t.record :=
      record_replay_append fun e he => hbefore e (List.mem_append_left _ he)
    exact (congrFun (Tables.user?_congr hsame) u.id).symm

/-- What the operations have set in the users they stored is still there in the end, exactly if no
store was overwritten. -/
theorem Orderly.kept_iff (h : Orderly o t past) (hnamed : t.Named)
    (hdisjoint : ∀ i j, i ≠ j → ∀ f ∈ (o i).fields, f ∉ (o j).fields) :
    (∀ i u, Stored i u past →
      ∃ v, (replay t past).user? u.id = some v ∧ ∀ f ∈ (o i).fields, v.SameAt u f) ↔
    ¬ Overwritten o t past := by
  constructor
  · rintro hkept ⟨before, i, c, between, j, d, after, u, v, rfl, hij, hu, hv, hsame, hlate, old,
      hold, f, hf, hnew⟩
    obtain ⟨b, hfields, hb⟩ := h.base_cases hij hnamed hu hv hsame
    rw [if_pos hlate, hold] at hb
    cases hb
    obtain ⟨w, hw, hset⟩ := hkept i u ⟨c, by simp, hu⟩
    rw [h.stands_of_both hij hu hv hsame] at hw
    cases hw
    exact hnew ((hfields f (hdisjoint i j hij f hf)).trans (hset f hf))
  · rintro hnone i u ⟨c, hc, hu⟩
    obtain ⟨before, after, rfl⟩ := List.append_of_mem hc
    by_cases hlast : ∀ e ∈ after, ∀ v, e.2.stored? = some v → v.id ≠ u.id
    · exact ⟨u, h.stands hu hlast, fun f _ => User.SameAt.refl u f⟩
    · push Not at hlast
      obtain ⟨⟨j, d⟩, he, v, hv, hsame⟩ := hlast
      have hij : i ≠ j := by
        rintro rfl
        have hquiet := h.quiet_after hu he
        rw [altersRecords_of_stored? hv] at hquiet
        cases hquiet
      obtain ⟨between, after, rfl⟩ := List.append_of_mem he
      have hsplit : before ++ (i, c) :: (between ++ (j, d) :: after) =
          before ++ (i, c) :: between ++ (j, d) :: after := by simp
      rw [hsplit] at h hnone ⊢
      obtain ⟨b, hfields, hb⟩ := h.base_cases hij hnamed hu hv hsame
      refine ⟨v, h.stands_of_both hij hu hv hsame, fun f hf => ?_⟩
      have hvb : v.SameAt b f := (hfields f (hdisjoint i j hij f hf)).symm
      split at hb
      · next hlate =>
        by_contra hnew
        exact hnone ⟨before, i, c, between, j, d, after, u, v, rfl, hij, hu, hv, hsame, hlate, b,
          hb, f, hf, fun hbu => hnew (hvb.trans hbu)⟩
      · exact hb ▸ hvb

end

/-- An operation that has returned, unless it is a login, has stored its user with the values that
it was asked to set. -/
theorem exists_stored (hclock : ∀ x, Instant.IsDated (env .now x).1) (hnamed : t.Named)
    (hfields : ∀ i, (o i).fields ≠ []) {schedule : List Bool} {a : Answer}
    (hreturned : (together env rules o t x schedule).rest i = .done (.ok a))
    (hlogin : (o i).isLogin = false) :
    ∃ u, Stored i u (history env rules o t x schedule) ∧ (o i).Sets a u ∧
      ∀ id, (o i).target? = some id → u.id = id := by
  obtain ⟨holder, h⟩ := exists_followed rules t x hclock hfields schedule
  have hachieved := h.course i
  rw [hreturned] at hachieved
  obtain ⟨u, ⟨c, hc, hstored⟩, hsets⟩ := hachieved hlogin
  obtain ⟨before, after, hsplit⟩ := List.append_of_mem hc
  have horderly : Orderly o t (before ++ (i, c) :: after) := hsplit ▸ h.orderly
  obtain ⟨-, -, -, -, -, -, -, htarget⟩ := horderly.exists_base hnamed hstored
  exact ⟨u, ⟨c, hc, hstored⟩, hsets, htarget⟩

/-- Two operations have returned. Each but a login has stored its user with the values that it was
asked to set; what they have set in their fields is there in the end, exactly if neither was
overwritten by the other from a record that it had looked up before. -/
theorem updates_kept_iff (hclock : ∀ x, Instant.IsDated (env .now x).1)
    (hid : ∀ {id : String} {u : User}, t.user? id = some u → u.id = id)
    (hfields : ∀ i, (o i).fields ≠ [])
    (hdisjoint : ∀ i j, i ≠ j → ∀ f ∈ (o i).fields, f ∉ (o j).fields)
    {schedule : List Bool} {a : Bool → Answer}
    (hreturned : ∀ i, (together env rules o t x schedule).rest i = .done (.ok (a i))) :
    (∀ i, (o i).isLogin = false → ∃ u, Stored i u (history env rules o t x schedule) ∧
        (o i).Sets (a i) u ∧ ∀ id, (o i).target? = some id → u.id = id) ∧
      ((∀ i u, Stored i u (history env rules o t x schedule) →
          ∃ v, (together env rules o t x schedule).shared.1.tables.user? u.id = some v ∧
            ∀ f ∈ (o i).fields, v.SameAt u f) ↔
        ¬ Overwritten o t (history env rules o t x schedule)) := by
  refine ⟨fun i hlogin => exists_stored hclock ⟨hid⟩ hfields (hreturned i) hlogin, ?_⟩
  obtain ⟨holder, h⟩ := exists_followed rules t x hclock hfields schedule
  rw [h.tables]
  exact h.orderly.kept_iff ⟨hid⟩ hdisjoint

/-! ### An update that is lost -/

def marker : Hasher := .ofPlain ⟨"plain:", ["plain:", "old:"], ["old:"], [], []⟩

/-- A clock and sources that always answer the same. -/
def surroundings : Handler interface Unit
  | .directory (.backend _), x => (.error (.failed "unused"), x)
  | .directory .lock, x => ((), x)
  | .directory .unlock, x => ((), x)
  | .hash password, x => (marker.hash [] password, x)
  | .verify password hash, x => (marker.verify password hash, x)
  | .needsRehash hash, x => (marker.needsRehash hash, x)
  | .newId, x => (.ok "id", x)
  | .newToken, x => (.ok "token", x)
  | .now, x => (.ofCount 0, x)
  | .publish _, x => ((), x)

/-- Alice's address is verified, and her password has an outdated hash. -/
def member : User :=
  { User.create "a" "Alice" "old@example.com" "alice" "old:secret" with emailVerified := true }

def withMember : Tables := Tables.empty.saved member

def rehashed : User := { member with passwordHash := "plain:secret" }

/-- A login and a change of address. -/
def loginAndMove : Bool → Operation
  | false => .authenticate "alice" "secret"
  | true => .changeEmail "a" "new@example.com"

/-- The address is changed when the login has looked the record up again to renew the hash. -/
def moveInLogin : List Bool := .replicate 6 false ++ .replicate 13 true ++ .replicate 12 false

theorem moveInLogin_ends :
    (((together surroundings .standard loginAndMove withMember () moveInLogin).rest false).result?,
      ((together surroundings .standard loginAndMove withMember () moveInLogin).rest true).result?,
      (together surroundings .standard loginAndMove withMember ()
        moveInLogin).shared.1.tables.record "a") =
      (some (.ok (.text "a")), some (.ok .done), some rehashed.encode) := by
  decide +kernel

theorem moveInLogin_returned (i : Bool) :
    (together surroundings .standard loginAndMove withMember () moveInLogin).rest i =
      .done (.ok (if i then .done else .text "a")) := by
  obtain ⟨hlogin, hends⟩ := Prod.mk.inj moveInLogin_ends
  cases i
  · exact Program.eq_done_of_result? hlogin
  · exact Program.eq_done_of_result? (Prod.mk.inj hends).1

theorem isDated_surroundings (x : Unit) : Instant.IsDated (surroundings .now x).1 := by
  unfold Instant.IsDated
  cases x
  decide +kernel

theorem fields_loginAndMove (i : Bool) : (loginAndMove i).fields ≠ [] := by
  cases i <;> decide

theorem disjoint_loginAndMove : ∀ i j, i ≠ j → ∀ f ∈ (loginAndMove i).fields,
    f ∉ (loginAndMove j).fields := by
  decide

theorem user?_withMember {id : String} {u : User} (h : withMember.user? id = some u) :
    u.id = id := by
  unfold withMember at h
  rw [Tables.user?_saved (by intro t ht; cases ht)] at h
  split at h
  · next hid =>
    cases h
    exact hid.symm
  · cases h

/-- The login has put the old address back. -/
theorem not_kept_moveInLogin :
    ¬ ∀ i u, Stored i u (history surroundings .standard loginAndMove withMember () moveInLogin) →
      ∃ v, (together surroundings .standard loginAndMove withMember ()
          moveInLogin).shared.1.tables.user? u.id = some v ∧
        ∀ f ∈ (loginAndMove i).fields, v.SameAt u f := by
  intro hkept
  obtain ⟨u, hu, hemail, hid⟩ := exists_stored isDated_surroundings ⟨user?_withMember⟩
    fields_loginAndMove (moveInLogin_returned true) rfl
  obtain ⟨v, hv, hsame⟩ := hkept true u hu
  have hdated : rehashed.IsDated := by
    intro t ht
    cases ht
  rw [hid "a" rfl, Tables.user?, (Prod.mk.inj (Prod.mk.inj moveInLogin_ends).2).2,
    Option.bind_some, User.decode?_encode hdated] at hv
  cases hv
  have hemail : u.email = "new@example.com" := hemail
  have hsame : rehashed.email = u.email := hsame .email (by decide)
  rw [hemail] at hsame
  exact absurd hsame (by decide)

/-- The new address is gone, so the change was overwritten by the login. -/
theorem updates_kept_iff_login :
    Overwritten loginAndMove withMember
      (history surroundings .standard loginAndMove withMember () moveInLogin) := by
  by_contra hnone
  exact not_kept_moveInLogin ((updates_kept_iff isDated_surroundings user?_withMember
    fields_loginAndMove disjoint_loginAndMove moveInLogin_returned).2.2 hnone)

/-- A login and a change of address on one stored user both return, and the address is the old one
again. -/
theorem reverted_by_login :
    (∀ x, Instant.IsDated (surroundings .now x).1) ∧
      (∀ {id : String} {u : User}, withMember.user? id = some u → u.id = id) ∧
      (∀ i, (loginAndMove i).fields ≠ []) ∧
      (∀ i j, i ≠ j → ∀ f ∈ (loginAndMove i).fields, f ∉ (loginAndMove j).fields) ∧
      (∀ i, (together surroundings .standard loginAndMove withMember () moveInLogin).rest i =
        .done (.ok (if i then .done else .text "a"))) ∧
      (together surroundings .standard loginAndMove withMember ()
        moveInLogin).shared.1.tables.record "a" = some rehashed.encode ∧
      ¬ ∀ i u, Stored i u (history surroundings .standard loginAndMove withMember () moveInLogin) →
        ∃ v, (together surroundings .standard loginAndMove withMember ()
            moveInLogin).shared.1.tables.user? u.id = some v ∧
          ∀ f ∈ (loginAndMove i).fields, v.SameAt u f :=
  ⟨isDated_surroundings, user?_withMember, fields_loginAndMove, disjoint_loginAndMove,
    moveInLogin_returned, (Prod.mk.inj (Prod.mk.inj moveInLogin_ends).2).2, not_kept_moveInLogin⟩

end Accounts.Service
