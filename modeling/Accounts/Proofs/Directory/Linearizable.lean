import Accounts.Proofs.Directory.Race
import Accounts.Proofs.Directory.SoleWrite

/-!
# Searches while users are saved

A search by a value and any number of saves through one directory, call by call in any order. The
search looks at the index and at the record at different times. But at every instant, also in the
middle of a save, each value of a stored user leads to it (`AllLead`); so there is an instant in the
course of the search at which its answer was true (`find_linearizable`).
-/
namespace Accounts

/-- A search by the values of the field. -/
def UniqueField.search : UniqueField → String → SearchField
  | email, key => .email key
  | loginName, key => .loginName key
  | resetToken, key => .resetToken key

namespace Backend.Tables

variable {t : Tables}

theorem AllLead.eq (h : t.AllLead) {f : UniqueField} {key id id' : String}
    (he : t.entry f.index key = some id) (hc : t.Carries id' f key) : id' = id := by
  have hother := h id' f key hc
  rw [he] at hother
  exact (Option.some.inj hother).symm

/-- A request changes records or entries, not both. -/
theorem respond_record_or_entry (r : Request) (t : Tables) :
    (respond r t).2.record = t.record ∨ (respond r t).2.entry = t.entry := by
  cases r with
  | claimEntry index key owner =>
    left
    simp only [respond]
    split <;> rfl
  | releaseEntry index key owner =>
    left
    simp only [respond]
    split <;> rfl
  | record | owner | putEntry | removeEntry => exact Or.inl rfl
  | setRecord | deleteRecord => exact Or.inr rfl

/-- A user that loses a value to one request was the last that had it. -/
theorem AllLead.free_of_lost {r : Request} (h : t.AllLead)
    (h' : (respond r t).2.AllLead) {f : UniqueField} {key id : String} (hc : t.Carries id f key)
    (hlost : ¬ (respond r t).2.Carries id f key) (id' : String) :
    ¬ (respond r t).2.Carries id' f key := by
  intro hc'
  rcases respond_record_or_entry r t with hrecord | hentry
  · exact hlost ((carries_congr hrecord).2 hc)
  · have he : (respond r t).2.entry f.index key = some id := by
      rw [hentry]
      exact h id f key hc
    exact hlost (h'.eq he hc' ▸ hc')

end Backend.Tables

namespace Directory

open Backend Program

/-! ### What a save does to those who look -/

theorem Standing.allLead {b : Tables} {u : User} {own : Option User}
    {owned : List (UniqueField × String)} {w : Bool} {s : Scene} (h : Standing b u own owned w s)
    (hb : b.AllLead) (howned : ∀ v, own = some v → v.uniqueValues ⊆ owned) : s.tables.AllLead := by
  intro id f key hc
  by_cases hid : id = u.id
  · subst hid
    obtain ⟨v, hv, hk⟩ := hc
    have hmem := howned v (h.own.symm.trans hv) (User.mem_uniqueValues.2 hk)
    exact h.owns (f, key) hmem
  · have hcb := (h.carries hid).1 hc
    exact h.kept hid ⟨hcb, hb id f key hcb⟩

/-- Inside the lock with these tables, or outside (`none`), where no requests are made. Whoever
takes the lock finds tables in which all values lead, and leaves such tables with each request. -/
def guarded : Calls interface (Option Tables)
  | .backend r, Q, some t => (Tables.respond r t).2.AllLead ∧
      Q (.ok (Tables.respond r t).1) (some (Tables.respond r t).2)
  | .backend _, _, none => False
  | .lock, Q, none => ∀ t : Tables, t.AllLead → Q () (some t)
  | .lock, _, some _ => False
  | .unlock, Q, some _ => Q () none
  | .unlock, _, none => False

instance : guarded.Monotone := by
  refine ⟨fun {c Q R s} hQR h => ?_⟩
  cases c <;> cases s
  case backend.some r t => exact ⟨h.1, hQR _ _ h.2⟩
  case lock.none => exact fun t ht => hQR _ _ (h t ht)
  case unlock.some t => exact hQR _ _ h
  all_goals exact h

theorem wp_saveLocked_guarded (u : User) {t : Tables} (h : t.AllLead) :
    (saveLocked u).run.wp guarded (fun _ g => g.isSome) (some t) := by
  have hkeeping := wp_saveLocked_keeping (K := fun s => s.tables.AllLead) (b := t) (u := u)
    (fun s hs => hs.allLead h fun v hv => h.uniqueValues_subset hv)
    (fun s hs => hs.allLead h fun v hv w hw => User.uniqueValues_of_decode?_encode hv ▸ hw)
  refine wp_mono ?_ (wp_simulate (R := fun s g => g = some s.tables) ?_ rfl hkeeping)
  · rintro _ _ ⟨s, rfl, -⟩
    rfl
  · rintro c Q s _ rfl hc
    cases c with
    | backend r => exact ⟨hc.2.1, _, rfl, hc.2.2⟩
    | lock => exact hc.elim
    | unlock => exact hc.elim

theorem wp_save_guarded (u : User) : (save u).run.wp guarded (fun _ g => g = none) none := by
  unfold save
  cases validate u with
  | error e => rfl
  | ok _ =>
    change (locked (saveLocked u)).run.wp guarded _ none
    rw [wp_locked]
    intro t ht
    refine wp_mono ?_ (wp_saveLocked_guarded u ht)
    intro result g hg
    cases g with
    | none => cases hg
    | some t' => rfl

/-! ### The search and the saves -/

section

variable {ι : Type} [DecidableEq ι] (t : Tables) (f : UniqueField) (key : String) (u : ι → User)

/-- The search and the saves of these users through one directory after these turns. The turns
`none` are those of the search. -/
def traffic (schedule : List (Option ι)) :
    Threads interface (Option ι) (Shared Unit) (Except DirectoryError (Option User)) :=
  Threads.run (answer fun _ => ()) ⟨⟨t, fun _ => false⟩, fun
    | none => (some <$> find (f.search key)).run
    | some i => ((fun _ => none) <$> save (u i)).run⟩ schedule

/-- The instant after these first turns lies in the course of the search: it makes its first call
next or has made it, and has not returned. -/
def During (schedule earlier : List (Option ι)) : Prop :=
  earlier <+: schedule ∧ (none ∈ earlier ∨ earlier ++ [none] <+: schedule) ∧
    ((traffic t f key u earlier).rest none).result? = none

/-- The answer of the search was true at an instant in its course. -/
def Explained (schedule : List (Option ι)) (r : Except DirectoryError (Option User)) : Prop :=
  ∃ earlier, During t f key u schedule earlier ∧
    let t' := (traffic t f key u earlier).shared.tables
    match r with
    | .ok found => ∃ id v, found = some v ∧ t'.user? id = some v ∧ v.unique? f = some key
    | .error .notFound => ∀ id, ¬ t'.Carries id f key
    | .error (.corrupt _) => ∃ id text, t'.record id = some text ∧ User.decode? text = none
    | .error _ => False

/-- What the search makes of the owner's record. -/
def judged : Except BackendError (Option String) → Except DirectoryError (Option User)
  | .error e => .error (.backend e)
  | .ok none => .error .notFound
  | .ok (some text) =>
    match User.decode? text with
    | none => .error (.corrupt "not a user")
    | some v => if v.unique? f = some key then .ok (some v) else .error .notFound

/-- What is left of the search when it knows the owner. -/
def secondLook (id : String) : Program interface (Except DirectoryError (Option User)) :=
  .call (.backend (.record id)) fun reply => .done (judged f key reply)

end

theorem find_search_eq (f : UniqueField) (key : String) :
    (some <$> find (f.search key)).run =
      .call (.backend (.owner f.index key)) fun reply : Except BackendError (Option String) =>
        match reply with
        | .error e => .done (.error (.backend e))
        | .ok none => .done (.error .notFound)
        | .ok (some id) => secondLook f key id := by
  have hfind : find (f.search key) = findOwner f key := by cases f <;> rfl
  rw [hfind]
  refine congrArg (Program.call (I := interface) (.backend (.owner f.index key))) ?_
  funext reply
  rcases reply with e | _ | id
  · rfl
  · rfl
  refine congrArg (Program.call (I := interface) (.backend (.record id))) ?_
  funext reply
  rcases reply with e | _ | text
  · rfl
  · rfl
  cases hd : User.decode? text with
  | none =>
    simp only [judged, hd, Program.bind, ExceptT.bindCont, Except.mapError]
    rfl
  | some v =>
    simp only [judged, hd, Program.bind, ExceptT.bindCont, Except.mapError]
    change Program.bind
      (if v.unique? f = some key then pure v else throw .notFound : Action User).run _ = _
    split <;> rfl

variable {ι : Type} [DecidableEq ι] {t : Tables} {f : UniqueField} {key : String} {u : ι → User}
  {schedule : List (Option ι)}

theorem traffic_concat (turn : Option ι) :
    traffic t f key u (schedule ++ [turn]) =
      (traffic t f key u schedule).step (answer fun _ => ()) turn :=
  Threads.run_concat schedule turn

theorem During.concat {earlier : List (Option ι)} (h : During t f key u schedule earlier)
    (turn : Option ι) : During t f key u (schedule ++ [turn]) earlier := by
  obtain ⟨hearlier, hbegun, hopen⟩ := h
  have hlonger : schedule <+: schedule ++ [turn] := List.prefix_append _ _
  exact ⟨hearlier.trans hlonger, hbegun.imp_right fun hnext => hnext.trans hlonger, hopen⟩

/-- Until the search has returned, the present is an instant in its course if it has begun. -/
theorem During.of_call {c : Call}
    {next : c.Reply → Program interface (Except DirectoryError (Option User))}
    (hbegun : none ∈ schedule) (hrest : (traffic t f key u schedule).rest none = .call c next) :
    During t f key u schedule schedule := by
  refine ⟨List.prefix_refl _, Or.inl hbegun, ?_⟩
  rw [hrest]
  rfl

/-- The instant of a turn of the search. -/
theorem During.of_turn {c : Call}
    {next : c.Reply → Program interface (Except DirectoryError (Option User))}
    (hrest : (traffic t f key u schedule).rest none = .call c next) :
    During t f key u (schedule ++ [none]) schedule := by
  refine ⟨List.prefix_append _ _, Or.inr (List.prefix_refl _), ?_⟩
  rw [hrest]
  rfl

/-! ### The turn of a save -/

/-- All values lead, and only the save that has the lock, if there is one, has requests to make. -/
structure Sheltered (m : Threads interface (Option ι) (Shared Unit)
    (Except DirectoryError (Option User))) (holder : Option ι) : Prop where
  allLead : m.shared.tables.AllLead
  held : m.shared.held () = holder.isSome
  saves : ∀ i, (m.rest (some i)).wp guarded (fun _ _ => True)
    (if holder = some i then some m.shared.tables else none)

/-- What a turn of a save does to the tables: nothing, or what one request does. -/
def Moves (t t' : Tables) : Prop := t' = t ∨ ∃ r, t' = (Tables.respond r t).2

namespace Sheltered

variable {m : Threads interface (Option ι) (Shared Unit) (Except DirectoryError (Option User))}
  {holder : Option ι}

/-- A save goes on inside or outside the lock, and the other saves see no change of it. -/
theorem of_step (h : Sheltered m holder) {i : ι} {s : Shared Unit} {holder' : Option ι}
    {p : Program interface (Except DirectoryError (Option User))} (hlead : s.tables.AllLead)
    (hheld : s.held () = holder'.isSome)
    (hp : p.wp guarded (fun _ _ => True) (if holder' = some i then some s.tables else none))
    (hothers : ∀ j, j ≠ i → holder ≠ some j ∧ holder' ≠ some j) :
    Sheltered ⟨s, fun j => if j = some i then p else m.rest j⟩ holder' := by
  refine ⟨hlead, hheld, fun j => ?_⟩
  by_cases hj : j = i
  · subst hj
    simp only [if_true]
    exact hp
  · obtain ⟨hno, hno'⟩ := hothers j hj
    have hsave := h.saves j
    rw [if_neg hno] at hsave
    simp only [Option.some.injEq, if_neg hj, if_neg hno']
    exact hsave

theorem save_turn (h : Sheltered m holder) (i : ι) :
    (∃ holder', Sheltered (m.step (answer fun _ => ()) (some i)) holder') ∧
      Moves m.shared.tables (m.step (answer fun _ => ()) (some i)).shared.tables ∧
      (m.step (answer fun _ => ()) (some i)).rest none = m.rest none := by
  rcases Threads.step_cases (answer fun _ => ()) m (some i) with
    hstep | ⟨c, next, r, s, hrest, hanswer, hstep⟩
  · rw [hstep]
    exact ⟨⟨holder, h⟩, Or.inl rfl, rfl⟩
  rw [hstep]
  have hmine := h.saves i
  rw [hrest] at hmine
  refine ⟨?_, ?_, rfl⟩
  · cases c with
    | backend request =>
      -- only inside the lock are there requests
      have hholder : holder = some i := by
        by_contra hno
        rw [if_neg hno] at hmine
        exact hmine
      subst hholder
      rw [if_pos rfl] at hmine
      cases hanswer
      refine ⟨some i, h.of_step hmine.1 h.held ?_ fun j hj => ?_⟩
      · rw [if_pos rfl]
        exact hmine.2
      · simp [hj.symm]
    | lock =>
      simp only [answer] at hanswer
      split at hanswer
      · cases hanswer
      · next hfree =>
        cases hanswer
        rw [h.held, Bool.not_eq_true, Option.isSome_eq_false_iff, Option.isNone_iff_eq_none]
          at hfree
        subst hfree
        refine ⟨some i, h.of_step h.allLead (by simp) ?_ fun j hj => ?_⟩
        · rw [if_pos rfl]
          exact hmine _ h.allLead
        · simp [hj.symm]
    | unlock =>
      have hholder : holder = some i := by
        by_contra hno
        rw [if_neg hno] at hmine
        exact hmine
      subst hholder
      rw [if_pos rfl] at hmine
      cases hanswer
      refine ⟨none, h.of_step h.allLead rfl ?_ fun j hj => ?_⟩
      · exact hmine
      · simp [hj.symm]
  · cases c with
    | backend request =>
      cases hanswer
      exact Or.inr ⟨request, rfl⟩
    | lock =>
      simp only [answer] at hanswer
      split at hanswer
      · cases hanswer
      · cases hanswer
        exact Or.inl rfl
    | unlock =>
      cases hanswer
      exact Or.inl rfl

/-- A look of the search changes nothing. -/
theorem look_turn (h : Sheltered m holder) {r : Request}
    {next : Except BackendError r.Value → Program interface (Except DirectoryError (Option User))}
    (hrest : m.rest none = .call (.backend r) next)
    (hlook : (Tables.respond r m.shared.tables).2 = m.shared.tables) :
    m.step (answer fun _ => ()) none = ⟨m.shared, fun j =>
      if j = none then next (.ok (Tables.respond r m.shared.tables).1) else m.rest j⟩ ∧
    Sheltered (m.step (answer fun _ => ()) none) holder := by
  have hanswer : answer (fun _ : Option ι => ()) none (.backend r) m.shared =
      some (.ok (Tables.respond r m.shared.tables).1, m.shared) := by
    simp only [answer, hlook]
  have hstep := Threads.step_of_call hrest hanswer
  rw [hstep]
  exact ⟨rfl, h.allLead, h.held, h.saves⟩

end Sheltered

/-! ### The course of the search -/

/-- How far the search is after these turns. -/
inductive Search (t : Tables) (f : UniqueField) (key : String) (u : ι → User)
    (schedule : List (Option ι)) : Prop
  | start (hturns : schedule.count none = 0)
    (hrest : (traffic t f key u schedule).rest none = (some <$> find (f.search key)).run)
  | looked (id : String) (hturns : schedule.count none = 1)
    (hrest : (traffic t f key u schedule).rest none = secondLook f key id)
    (hknown : (traffic t f key u schedule).shared.tables.Carries id f key ∨
      Explained t f key u schedule (.error .notFound))
  | returned (r : Except DirectoryError (Option User))
    (hrest : (traffic t f key u schedule).rest none = .done r)
    (hexplained : Explained t f key u schedule r)

theorem Explained.concat {r : Except DirectoryError (Option User)}
    (h : Explained t f key u schedule r) (turn : Option ι) :
    Explained t f key u (schedule ++ [turn]) r := by
  obtain ⟨earlier, hduring, htrue⟩ := h
  exact ⟨earlier, hduring.concat turn, htrue⟩

namespace Search

variable {holder : Option ι}

theorem save_turn (hsheltered : Sheltered (traffic t f key u schedule) holder)
    (h : Search t f key u schedule) (i : ι) : Search t f key u (schedule ++ [some i]) := by
  obtain ⟨⟨holder', hafter⟩, hmoves, hsame⟩ := hsheltered.save_turn i
  rw [← traffic_concat] at hafter hmoves hsame
  have hcount : (schedule ++ [some i]).count none = schedule.count none := by simp
  cases h with
  | start hturns hrest => exact .start (hcount.trans hturns) (hsame.trans hrest)
  | looked id hturns hrest hknown =>
    refine .looked id (hcount.trans hturns) (hsame.trans hrest) ?_
    rcases hknown with hc | hexplained
    · by_cases hc' : (traffic t f key u (schedule ++ [some i])).shared.tables.Carries id f key
      · exact Or.inl hc'
      · -- at this instant the value has passed from the user to nobody
        rcases hmoves with hstill | ⟨r, hr⟩
        · rw [hstill] at hc'
          exact absurd hc hc'
        have hbegun : none ∈ schedule ++ [some i] :=
          List.one_le_count_iff.1 (Nat.le_of_eq (hcount.trans hturns).symm)
        have hfree := hsheltered.allLead.free_of_lost (hr ▸ hafter.allLead) hc (hr ▸ hc')
        refine Or.inr ⟨_, During.of_call hbegun (hsame.trans hrest), ?_⟩
        rw [← hr] at hfree
        exact hfree
    · exact Or.inr (hexplained.concat _)
  | returned r hrest hexplained => exact .returned r (hsame.trans hrest) (hexplained.concat _)

theorem first_turn (hsheltered : Sheltered (traffic t f key u schedule) holder)
    (hturns : schedule.count none = 0)
    (hrest : (traffic t f key u schedule).rest none = (some <$> find (f.search key)).run) :
    Sheltered (traffic t f key u (schedule ++ [none])) holder ∧
      Search t f key u (schedule ++ [none]) := by
  rw [find_search_eq] at hrest
  obtain ⟨hstep, hafter⟩ := hsheltered.look_turn hrest rfl
  rw [← traffic_concat] at hstep hafter
  refine ⟨hafter, ?_⟩
  have hinstant := During.of_turn hrest
  have hcount : (schedule ++ [none]).count none = 1 := by simp [hturns]
  cases he : (traffic t f key u schedule).shared.tables.entry f.index key with
  | none =>
    refine .returned (.error .notFound) ?_ ⟨_, hinstant, fun id hc => ?_⟩
    · rw [hstep]
      simp only [Tables.respond, he, if_true]
    · have hlead := hsheltered.allLead id f key hc
      rw [he] at hlead
      cases hlead
  | some id =>
    refine .looked id hcount ?_ ?_
    · rw [hstep]
      simp only [Tables.respond, he, if_true]
    · by_cases hc : (traffic t f key u schedule).shared.tables.Carries id f key
      · left
        rw [hstep]
        exact hc
      · exact Or.inr ⟨_, hinstant, fun id' hc' => hc (hsheltered.allLead.eq he hc' ▸ hc')⟩

theorem second_turn (hsheltered : Sheltered (traffic t f key u schedule) holder) {id : String}
    (hrest : (traffic t f key u schedule).rest none = secondLook f key id)
    (hknown : (traffic t f key u schedule).shared.tables.Carries id f key ∨
      Explained t f key u schedule (.error .notFound)) :
    Sheltered (traffic t f key u (schedule ++ [none])) holder ∧
      Search t f key u (schedule ++ [none]) := by
  obtain ⟨hstep, hafter⟩ := hsheltered.look_turn hrest rfl
  rw [← traffic_concat] at hstep hafter
  have hinstant := During.of_turn hrest
  have hfree (hno : ¬ (traffic t f key u schedule).shared.tables.Carries id f key) :
      Explained t f key u (schedule ++ [none]) (.error .notFound) :=
    (hknown.resolve_left hno).concat none
  refine ⟨hafter, .returned (judged f key
    (.ok ((traffic t f key u schedule).shared.tables.record id))) ?_ ?_⟩
  · rw [hstep]
    rfl
  cases hr : (traffic t f key u schedule).shared.tables.record id with
  | none =>
    refine hfree fun hc => ?_
    obtain ⟨v, hv, -⟩ := hc
    simp [Tables.user?, hr] at hv
  | some text =>
    have huser : (traffic t f key u schedule).shared.tables.user? id = User.decode? text := by
      rw [Tables.user?, hr, Option.bind_some]
    cases hd : User.decode? text with
    | none =>
      simp only [judged, hd]
      exact ⟨_, hinstant, id, text, hr, hd⟩
    | some v =>
      rw [hd] at huser
      by_cases hk : v.unique? f = some key
      · simp only [judged, hd, if_pos hk]
        exact ⟨_, hinstant, id, v, rfl, huser, hk⟩
      · simp only [judged, hd, if_neg hk]
        refine hfree fun hc => ?_
        obtain ⟨v', hv', hk'⟩ := hc
        rw [huser] at hv'
        cases hv'
        exact hk hk'

theorem search_turn (hsheltered : Sheltered (traffic t f key u schedule) holder)
    (h : Search t f key u schedule) :
    Sheltered (traffic t f key u (schedule ++ [none])) holder ∧
      Search t f key u (schedule ++ [none]) := by
  cases h with
  | start hturns hrest => exact first_turn hsheltered hturns hrest
  | looked id hturns hrest hknown => exact second_turn hsheltered hrest hknown
  | returned r hrest hexplained =>
    have hstep : traffic t f key u (schedule ++ [none]) = traffic t f key u schedule := by
      rw [traffic_concat]
      exact Threads.step_of_done hrest
    rw [hstep]
    exact ⟨hsheltered, .returned r (hstep ▸ hrest) (hexplained.concat none)⟩

end Search

theorem search_of_run (h : t.AllLead) (f : UniqueField) (key : String) (u : ι → User)
    (schedule : List (Option ι)) :
    (∃ holder, Sheltered (traffic t f key u schedule) holder) ∧ Search t f key u schedule := by
  induction schedule using List.reverseRecOn with
  | nil =>
    refine ⟨⟨none, h, rfl, fun i => ?_⟩, .start rfl rfl⟩
    change ((fun _ => none) <$> save (u i)).run.wp guarded _ none
    rw [wp_map_except]
    exact wp_mono (fun _ _ _ => trivial) (wp_save_guarded (u i))
  | append_singleton schedule turn ih =>
    obtain ⟨⟨holder, hsheltered⟩, hsearch⟩ := ih
    cases turn with
    | none =>
      obtain ⟨hafter, hnext⟩ := hsearch.search_turn hsheltered
      exact ⟨⟨holder, hafter⟩, hnext⟩
    | some i =>
      have hafter := (hsheltered.save_turn i).1
      rw [← traffic_concat] at hafter
      exact ⟨hafter, hsearch.save_turn hsheltered i⟩

/-- A search among saves returns at its second turn, and what it answers was true at an instant in
its course: the user that it returns was stored and had the value, or nobody had it. -/
theorem find_linearizable (h : t.AllLead) (f : UniqueField) (key : String) (u : ι → User)
    (schedule : List (Option ι)) :
    (2 ≤ schedule.count none → ∃ r, (traffic t f key u schedule).rest none = .done r) ∧
      ∀ r, (traffic t f key u schedule).rest none = .done r → Explained t f key u schedule r := by
  cases (search_of_run h f key u schedule).2 with
  | start hturns hrest =>
    refine ⟨fun hle => by omega, fun r hdone => ?_⟩
    rw [hrest, find_search_eq] at hdone
    cases hdone
  | looked id hturns hrest hknown =>
    refine ⟨fun hle => by omega, fun r hdone => ?_⟩
    rw [hrest] at hdone
    cases hdone
  | returned r hrest hexplained =>
    refine ⟨fun _ => ⟨r, hrest⟩, fun r' hdone => ?_⟩
    rw [hrest] at hdone
    cases hdone
    exact hexplained

/-- Alice gives her address up and Bob takes it. -/
def handover : Bool → User
  | false => { alice with email := "new@example.com" }
  | true => { bob with email := "alice@example.com" }

/-- A search for the address reads the entry before and the record after both saves. -/
def straddling : List (Option Bool) :=
  none :: .replicate 12 (some false) ++ .replicate 12 (some true) ++ [none]

/-- The search finds nobody, although Alice has the address at its first call and Bob at its last:
there is an instant between them at which nobody has it. -/
theorem find_linearizable_handover :
    aliceAndLeftover.AllLead ∧ aliceAndLeftover.Carries "a" .email "alice@example.com" ∧
      (traffic aliceAndLeftover .email "alice@example.com" handover
        straddling).shared.tables.Carries "b" .email "alice@example.com" ∧
      ((traffic aliceAndLeftover .email "alice@example.com" handover
        straddling).rest none).result? = some (.error .notFound) ∧
      ∃ earlier, During aliceAndLeftover .email "alice@example.com" handover straddling earlier ∧
        ∀ id, ¬ (traffic aliceAndLeftover .email "alice@example.com" handover
          earlier).shared.tables.Carries id .email "alice@example.com" := by
  have hlead : aliceAndLeftover.AllLead := fun id f key hc => indexed_aliceAndLeftover.owned hc
  have hresult : ((traffic aliceAndLeftover .email "alice@example.com" handover
      straddling).rest none).result? = some (.error .notFound) := by decide +kernel
  refine ⟨hlead, by decide +kernel, by decide +kernel, hresult, ?_⟩
  exact (find_linearizable hlead .email "alice@example.com" handover straddling).2
    _ (eq_done_of_result? hresult)

end Directory

end Accounts
