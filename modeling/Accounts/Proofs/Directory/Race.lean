import Accounts.Proofs.Directory.Conduct
import Accounts.Proofs.Program.Threads
import Mathlib.Data.List.Induction

/-!
# Saves at the same time

Saves through any number of directories over one backend, which take turns call by call. A save
that finds an entry whose owner does not have the value takes it for a leftover and releases it
later; by then the owner may have written its record. Two saves of one value succeed exactly if
this happened: one of them was `Outrun` by the other (`one_writer_iff`).
-/
namespace Accounts.Directory

open Backend

/-- The backend, and which directories are held by a save that goes on. -/
structure Shared (κ : Type) where
  tables : Tables
  held : κ → Bool

variable {ι κ : Type} [DecidableEq ι] [DecidableEq κ]

/-- No call fails; `home i` is the directory that the save `i` is made through. -/
def answer (home : ι → κ) (i : ι) : (c : Call) → Shared κ → Option (c.Reply × Shared κ)
  | .backend r, s =>
    let (v, t) := Tables.respond r s.tables
    some (.ok v, { s with tables := t })
  | .lock, s =>
    if s.held (home i) then none
    else some ((), { s with held := fun k => if k = home i then true else s.held k })
  | .unlock, s => some ((), { s with held := fun k => if k = home i then false else s.held k })

section

variable (t : Tables) (home : ι → κ) (u : ι → User)

/-- The saves of these users after these turns. -/
def race (schedule : List ι) : Threads interface ι (Shared κ) (Except DirectoryError Unit) :=
  Threads.run (answer home) ⟨⟨t, fun _ => false⟩, fun i => (save (u i)).run⟩ schedule

/-- The next call of `i` is this request. -/
def Makes (m : Threads interface ι (Shared κ) (Except DirectoryError Unit)) (i : ι)
    (r : Request) : Prop :=
  ∃ next, m.rest i = .call (.backend r) next

def Succeeded (m : Threads interface ι (Shared κ) (Except DirectoryError Unit)) (i : ι) : Prop :=
  m.rest i = .done (.ok ())

/-- After `i` has written its record, another save releases an entry that names the user of `i`. -/
def Evicted (i : ι) (index key : String) (schedule : List ι) : Prop :=
  ∃ before between k after, schedule = before ++ i :: between ++ k :: after ∧ k ≠ i ∧
    Makes (race t home u before) i (.setRecord (u i).id (u i).encode) ∧
    Makes (race t home u (before ++ i :: between)) k (.releaseEntry index key (u i).id) ∧
    (race t home u (before ++ i :: between)).shared.tables.entry index key = some (u i).id

/-- After `i` was evicted from an entry, `j` finds it to name its own user. -/
def Outrun (i j : ι) (index key : String) (schedule : List ι) : Prop :=
  ∃ before after, schedule = before ++ j :: after ∧ Evicted t home u i index key before ∧
    Makes (race t home u before) j (.owner index key) ∧
    (race t home u before).shared.tables.entry index key = some (u j).id

/-- What is known of the saves after these turns if they have come so far. -/
structure Followed (schedule : List ι) (l : ι → Progress) : Prop where
  conducts : ∀ i, ((race t home u schedule).rest i).wp (conduct (u i)) (Confirms (u i)) (l i)
  wrote : ∀ i, (l i).written = true → ∃ before after, schedule = before ++ i :: after ∧
    Makes (race t home u before) i (.setRecord (u i).id (u i).encode)
  written : ∀ i, ∀ c ∈ (l i).confirmed, (l i).written = true
  entry : ∀ i, ∀ c ∈ (l i).confirmed,
    (race t home u schedule).shared.tables.entry c.1 c.2 = some (u i).id ∨
      Evicted t home u i c.1 c.2 schedule
  outrun : ∀ i j, i ≠ j → ∀ c, c ∈ (l i).confirmed → c ∈ (l j).confirmed →
    Outrun t home u i j c.1 c.2 schedule ∨ Outrun t home u j i c.1 c.2 schedule

end

variable {t : Tables} {home : ι → κ} {u : ι → User} {schedule : List ι} {l : ι → Progress}

theorem race_concat (i : ι) :
    race t home u (schedule ++ [i]) = (race t home u schedule).step (answer home) i :=
  Threads.run_concat schedule i

theorem Evicted.append {i : ι} {index key : String} (h : Evicted t home u i index key schedule)
    (later : List ι) : Evicted t home u i index key (schedule ++ later) := by
  obtain ⟨before, between, k, after, rfl, hrest⟩ := h
  exact ⟨before, between, k, after ++ later, by simp, hrest⟩

theorem Outrun.append {i j : ι} {index key : String} (h : Outrun t home u i j index key schedule)
    (later : List ι) : Outrun t home u i j index key (schedule ++ later) := by
  obtain ⟨before, after, rfl, hrest⟩ := h
  exact ⟨before, after ++ later, by simp, hrest⟩

/-! ### One call -/

theorem written_note {id : String} {l : Progress} {r : Request}
    {reply : Except BackendError r.Value} :
    (l.note id r reply).written = true ↔ l.written = true ∨ ∃ i value, r = .setRecord i value := by
  cases r with
  | setRecord i value => simp [Progress.note]
  | owner index key =>
    rcases reply with e | _ | owner
    · simp [Progress.note]
    · simp [Progress.note]
    · simp only [Progress.note]
      split <;> simp
  | releaseEntry index key owner =>
    simp only [Progress.note]
    split <;> simp
  | _ => simp [Progress.note]

/-- What is confirmed after a call was so before and the call does not release it, or the call has
found it. -/
theorem confirmed_note {id : String} {l : Progress} {r : Request} {t : Tables}
    {c : String × String} (h : c ∈ (l.note id r (.ok (Tables.respond r t).1)).confirmed) :
    (c ∈ l.confirmed ∧ r ≠ .releaseEntry c.1 c.2 id) ∨
      (r = .owner c.1 c.2 ∧ t.entry c.1 c.2 = some id ∧ l.written = true) := by
  cases r with
  | owner index key =>
    simp only [Tables.respond] at h
    cases he : t.entry index key with
    | none =>
      rw [he] at h
      exact Or.inl ⟨h, by simp⟩
    | some owner =>
      simp only [he, Progress.note] at h
      split at h
      · next hown =>
        rcases List.mem_cons.1 h with rfl | h
        · exact Or.inr ⟨rfl, hown.2 ▸ he, hown.1⟩
        · exact Or.inl ⟨h, by simp⟩
      · exact Or.inl ⟨h, by simp⟩
  | releaseEntry index key owner =>
    simp only [Progress.note] at h
    split at h
    · next hid =>
      obtain ⟨h, hne⟩ := List.mem_filter.1 h
      refine Or.inl ⟨h, fun hr => ?_⟩
      cases hr
      exact absurd rfl (of_decide_eq_true hne)
    · next hid =>
      refine Or.inl ⟨h, fun hr => ?_⟩
      cases hr
      exact hid rfl
  | _ => exact Or.inl ⟨h, by simp⟩

/-- A proper call takes an entry away from its owner only by releasing it. -/
theorem entry_respond {v : User} {l : Progress} {r : Request} (hr : Proper v l r) {t : Tables}
    {index key id : String} (he : t.entry index key = some id) :
    (Tables.respond r t).2.entry index key = some id ∨ r = .releaseEntry index key id := by
  cases r with
  | putEntry i k owner => cases hr
  | removeEntry i k => cases hr
  | claimEntry i k owner =>
    left
    simp only [Tables.respond]
    cases hi : t.entry i k with
    | some current => exact he
    | none =>
      rw [Tables.entry_withEntry, if_neg, he]
      rintro ⟨rfl, rfl⟩
      rw [he] at hi
      cases hi
  | releaseEntry i k owner =>
    simp only [Tables.respond]
    split
    · next hi =>
      by_cases hk : index = i ∧ key = k
      · obtain ⟨rfl, rfl⟩ := hk
        rw [he] at hi
        cases hi
        exact Or.inr rfl
      · left
        rw [Tables.entry_withEntry, if_neg hk, he]
    · exact Or.inl he
  | _ => exact Or.inl he

/-! ### One turn -/

/-- A turn that changes no entries and no progress. -/
theorem Followed.idle (h : Followed t home u schedule l) {i : ι}
    (hentry : (race t home u (schedule ++ [i])).shared.tables =
      (race t home u schedule).shared.tables)
    (hrest : ∀ j, ((race t home u (schedule ++ [i])).rest j).wp (conduct (u j)) (Confirms (u j))
      (l j)) : Followed t home u (schedule ++ [i]) l where
  conducts := hrest
  wrote j hj := by
    obtain ⟨before, after, rfl, hm⟩ := h.wrote j hj
    exact ⟨before, after ++ [i], by simp, hm⟩
  written := h.written
  entry j c hc := by
    rw [hentry]
    exact (h.entry j c hc).imp_right fun he => he.append [i]
  outrun j k hjk c hj hk := by
    exact (h.outrun j k hjk c hj hk).imp (fun ho => ho.append [i]) (fun ho => ho.append [i])

/-- A turn in which `i` takes or gives back the lock of its directory. -/
theorem Followed.lock (h : Followed t home u schedule l) {i : ι} {s : Shared κ}
    {p : Program interface (Except DirectoryError Unit)}
    (hstep : race t home u (schedule ++ [i]) =
      ⟨s, fun j => if j = i then p else (race t home u schedule).rest j⟩)
    (hs : s.tables = (race t home u schedule).shared.tables)
    (hp : p.wp (conduct (u i)) (Confirms (u i)) (l i)) :
    Followed t home u (schedule ++ [i]) l := by
  apply h.idle (by rw [hstep, hs])
  intro j
  rw [hstep]
  by_cases hj : j = i
  · subst hj
    simpa using hp
  · simpa [hj] using h.conducts j

/-- The progress of the saves after a turn in which `i` makes a request on these tables. -/
def advance (u : ι → User) (l : ι → Progress) (i : ι) (r : Request) (t : Tables) : ι → Progress :=
  fun j => if j = i then (l j).note (u j).id r (.ok (Tables.respond r t).1) else l j

theorem advance_self (i : ι) (r : Request) :
    advance u l i r t i = (l i).note (u i).id r (.ok (Tables.respond r t).1) := if_pos rfl

theorem advance_of_ne {i j : ι} (hj : j ≠ i) (r : Request) : advance u l i r t j = l j := if_neg hj

theorem race_request {i : ι} {r : Request}
    {next : Except BackendError r.Value → Program interface (Except DirectoryError Unit)}
    (hrest : (race t home u schedule).rest i = .call (.backend r) next) :
    race t home u (schedule ++ [i]) =
      ⟨{ (race t home u schedule).shared with
          tables := (Tables.respond r (race t home u schedule).shared.tables).2 },
        fun j => if j = i then
            next (.ok (Tables.respond r (race t home u schedule).shared.tables).1)
          else (race t home u schedule).rest j⟩ := by
  rw [race_concat]
  unfold Threads.step
  rw [hrest]
  rfl

/-- An entry that `j` has confirmed still names its user, or `j` has been evicted, after a turn of
`i` that does not release it for `j` itself. -/
theorem Followed.entry_of_request (h : Followed t home u schedule l) {i : ι} {r : Request}
    {next : Except BackendError r.Value → Program interface (Except DirectoryError Unit)}
    (hrest : (race t home u schedule).rest i = .call (.backend r) next)
    (hproper : Proper (u i) (l i) r) {j : ι} {c : String × String} (hc : c ∈ (l j).confirmed)
    (hself : j = i → r ≠ .releaseEntry c.1 c.2 (u j).id) :
    (race t home u (schedule ++ [i])).shared.tables.entry c.1 c.2 = some (u j).id ∨
      Evicted t home u j c.1 c.2 (schedule ++ [i]) := by
  rcases h.entry j c hc with he | he
  · rw [race_request hrest]
    rcases entry_respond hproper he with hkept | rfl
    · exact Or.inl hkept
    · have hij : i ≠ j := fun hij => hself hij.symm rfl
      obtain ⟨before, between, rfl, hwrote⟩ := h.wrote j (h.written j c hc)
      exact Or.inr ⟨before, between, i, [], rfl, hij, hwrote, ⟨next, hrest⟩, he⟩
  · exact Or.inr (he.append [i])

/-- Where `i` confirms what `j` has confirmed, `j` has been outrun. -/
theorem Followed.outrun_of_request (hid : ∀ i j, (u i).id = (u j).id → i = j)
    (h : Followed t home u schedule l) {i j : ι} (hij : i ≠ j) {r : Request}
    (hmakes : Makes (race t home u schedule) i r) {c : String × String}
    (hi : c ∈ (advance u l i r (race t home u schedule).shared.tables i).confirmed)
    (hj : c ∈ (l j).confirmed) :
    Outrun t home u i j c.1 c.2 (schedule ++ [i]) ∨
      Outrun t home u j i c.1 c.2 (schedule ++ [i]) := by
  rw [advance_self] at hi
  rcases confirmed_note hi with ⟨hi, -⟩ | ⟨rfl, he, -⟩
  · exact (h.outrun i j hij c hi hj).imp (fun ho => ho.append [i]) (fun ho => ho.append [i])
  · rcases h.entry j c hj with hje | hje
    · rw [he] at hje
      exact absurd (hid i j (Option.some.inj hje)) hij
    · exact Or.inr ⟨schedule, [], rfl, hje, hmakes, he⟩

theorem Followed.request (hid : ∀ i j, (u i).id = (u j).id → i = j)
    (h : Followed t home u schedule l) {i : ι} {r : Request}
    {next : Except BackendError r.Value → Program interface (Except DirectoryError Unit)}
    (hrest : (race t home u schedule).rest i = .call (.backend r) next) :
    Followed t home u (schedule ++ [i])
      (advance u l i r (race t home u schedule).shared.tables) := by
  have hmakes : Makes (race t home u schedule) i r := ⟨next, hrest⟩
  have hconduct := h.conducts i
  rw [hrest] at hconduct
  obtain ⟨hproper, hreply⟩ := hconduct
  refine ⟨fun j => ?_, fun j hj => ?_, fun j c hc => ?_, fun j c hc => ?_, ?_⟩
  · rw [race_request hrest]
    by_cases hj : j = i
    · subst hj
      rw [advance_self]
      simpa using hreply _
    · rw [advance_of_ne hj]
      simpa [hj] using h.conducts j
  · have hold (hw : (l j).written = true) : ∃ before after, schedule ++ [i] = before ++ j :: after ∧
        Makes (race t home u before) j (.setRecord (u j).id (u j).encode) := by
      obtain ⟨before, after, rfl, hm⟩ := h.wrote j hw
      exact ⟨before, after ++ [i], by simp, hm⟩
    by_cases hji : j = i
    · subst hji
      rw [advance_self] at hj
      rcases written_note.1 hj with hw | ⟨id, value, rfl⟩
      · exact hold hw
      · rcases hproper with hw | ⟨rfl, rfl⟩
        · exact hold hw
        · exact ⟨schedule, [], rfl, hmakes⟩
    · rw [advance_of_ne hji] at hj
      exact hold hj
  · by_cases hji : j = i
    · subst hji
      rw [advance_self] at hc ⊢
      rw [written_note]
      rcases confirmed_note hc with ⟨hc, -⟩ | ⟨-, -, hw⟩
      · exact Or.inl (h.written j c hc)
      · exact Or.inl hw
    · rw [advance_of_ne hji] at hc ⊢
      exact h.written j c hc
  · by_cases hji : j = i
    · subst hji
      rw [advance_self] at hc
      rcases confirmed_note hc with ⟨hc, hr⟩ | ⟨rfl, he, -⟩
      · exact h.entry_of_request hrest hproper hc fun _ => hr
      · rw [race_request hrest]
        exact Or.inl he
    · rw [advance_of_ne hji] at hc
      exact h.entry_of_request hrest hproper hc fun hj => absurd hj hji
  · intro j k hjk c hj hk
    by_cases hji : j = i
    · subst hji
      rw [advance_of_ne hjk.symm] at hk
      exact h.outrun_of_request hid hjk hmakes hj hk
    · rw [advance_of_ne hji] at hj
      by_cases hki : k = i
      · subst hki
        exact (h.outrun_of_request hid hjk.symm hmakes hk hj).symm
      · rw [advance_of_ne hki] at hk
        exact (h.outrun j k hjk c hj hk).imp (fun ho => ho.append [i]) (fun ho => ho.append [i])

theorem Followed.turn (hid : ∀ i j, (u i).id = (u j).id → i = j)
    (h : Followed t home u schedule l) (i : ι) : ∃ l', Followed t home u (schedule ++ [i]) l' := by
  rcases Threads.step_cases (answer home) (race t home u schedule) i with
    hsame | ⟨c, next, r, s, hrest, hanswer, hstep⟩
  · refine ⟨l, h.idle ?_ fun j => ?_⟩
    · rw [race_concat, hsame]
    · rw [race_concat, hsame]
      exact h.conducts j
  · have hconduct := h.conducts i
    rw [hrest] at hconduct
    rw [← race_concat] at hstep
    cases c with
    | backend r => exact ⟨_, h.request hid hrest⟩
    | lock =>
      simp only [answer] at hanswer
      split at hanswer
      · cases hanswer
      · cases hanswer
        exact ⟨l, h.lock hstep rfl hconduct⟩
    | unlock =>
      cases hanswer
      exact ⟨l, h.lock hstep rfl hconduct⟩

theorem exists_followed (t : Tables) (home : ι → κ) (hid : ∀ i j, (u i).id = (u j).id → i = j)
    (schedule : List ι) : ∃ l, Followed t home u schedule l := by
  induction schedule using List.reverseRecOn with
  | nil =>
    refine ⟨fun _ => .start, fun i => wp_save_conduct (u i), ?_, ?_, ?_, ?_⟩
    · intro i hi
      cases hi
    · intro i c hc
      cases hc
    · intro i c hc
      cases hc
    · intro i j _ c hc
      cases hc
  | append_singleton schedule i ih =>
    obtain ⟨l, hl⟩ := ih
    exact hl.turn hid i

/-- Of two saves that succeed with one value, one was outrun by the other. -/
theorem outrun_of_succeeded (hid : ∀ i j, (u i).id = (u j).id → i = j) {i j : ι} (hij : i ≠ j)
    (hi : Succeeded (race t home u schedule) i) (hj : Succeeded (race t home u schedule) j)
    {f : UniqueField} {key : String} (hki : (u i).unique? f = some key)
    (hkj : (u j).unique? f = some key) :
    Outrun t home u i j f.index key schedule ∨ Outrun t home u j i f.index key schedule := by
  obtain ⟨l, hl⟩ := exists_followed t home hid schedule
  have hconfirmed {k : ι} (hk : Succeeded (race t home u schedule) k)
      (hv : (u k).unique? f = some key) : (f.index, key) ∈ (l k).confirmed := by
    have hconfirms := hl.conducts k
    rw [show (race t home u schedule).rest k = .done (.ok ()) from hk] at hconfirms
    exact hconfirms (f, key) (User.mem_uniqueValues.2 hv)
  exact hl.outrun i j hij _ (hconfirmed hi hki) (hconfirmed hj hkj)

/-- A save outruns others in its own values only. -/
theorem Outrun.unique? (hid : ∀ i j, (u i).id = (u j).id → i = j) {i j : ι} {f : UniqueField}
    {key : String} (h : Outrun t home u i j f.index key schedule) :
    (u j).unique? f = some key := by
  obtain ⟨before, after, rfl, -, ⟨next, hrest⟩, -⟩ := h
  obtain ⟨l, hl⟩ := exists_followed t home hid before
  have hconduct := hl.conducts j
  rw [hrest] at hconduct
  have hown : Among (u j).uniqueValues f.index key := hconduct.1
  exact among_uniqueValues.1 hown

/-- Two saves of one value succeed exactly if one of them was outrun by the other: evicted from the
entry as a leftover after it had written its record. -/
theorem one_writer_iff (hid : ∀ i j, (u i).id = (u j).id → i = j) (schedule : List ι) :
    (∀ i j, i ≠ j → Succeeded (race t home u schedule) i → Succeeded (race t home u schedule) j →
      ∀ f key, (u i).unique? f = some key → (u j).unique? f ≠ some key) ↔
    ¬ ∃ i j f key, i ≠ j ∧ Succeeded (race t home u schedule) i ∧
      Succeeded (race t home u schedule) j ∧ (u i).unique? f = some key ∧
      Outrun t home u i j f.index key schedule := by
  constructor
  · rintro hone ⟨i, j, f, key, hij, hi, hj, hk, ho⟩
    exact hone i j hij hi hj f key hk (ho.unique? hid)
  · intro hnone i j hij hi hj f key hki hkj
    rcases outrun_of_succeeded hid hij hi hj hki hkj with ho | ho
    · exact hnone ⟨i, j, f, key, hij, hi, hj, hki, ho⟩
    · exact hnone ⟨j, i, f, key, hij.symm, hj, hi, hkj, ho⟩

/-! ### Two writers of one value -/

/-- Two new users with the same email address. -/
def racer : Bool → User
  | false => .create "a" "P" "x@example.com" "alice" "hash"
  | true => .create "b" "P" "x@example.com" "bob" "hash"

/-- An interrupted save of the first user has left an entry. -/
def abandoned : Tables := Tables.empty.withEntry "emails" "x@example.com" (some "a")

/-- The second save finds the leftover; the first save runs; the second save goes on. -/
def turns : List Bool := .replicate 3 true ++ .replicate 10 false ++ .replicate 9 true

theorem succeeded_racer (i : Bool) : Succeeded (race abandoned id racer turns) i := by
  cases i <;> rfl

theorem racer_injective : ∀ i j, (racer i).id = (racer j).id → i = j := by decide

/-- Both saves succeed, so the first was evicted after it had written its record. -/
theorem one_writer_iff_racer :
    ∃ i j f key, i ≠ j ∧ Succeeded (race abandoned id racer turns) i ∧
      Succeeded (race abandoned id racer turns) j ∧ (racer i).unique? f = some key ∧
      Outrun abandoned id racer i j f.index key turns := by
  by_contra hnone
  have hone := (one_writer_iff racer_injective turns).2 hnone
  exact hone false true (by decide) (succeeded_racer false) (succeeded_racer true) .email
    "x@example.com" rfl rfl

/-- On indexed tables with a leftover, saves of users with different ids all return, and two of
them have written the same value. -/
theorem two_writers :
    abandoned.Indexed ∧ (∀ i j, (racer i).id = (racer j).id → i = j) ∧
      (∀ i, Succeeded (race abandoned id racer turns) i) ∧
      ¬ ∀ i j, i ≠ j → Succeeded (race abandoned id racer turns) i →
        Succeeded (race abandoned id racer turns) j →
        ∀ f key, (racer i).unique? f = some key → (racer j).unique? f ≠ some key := by
  refine ⟨?_, racer_injective, succeeded_racer, fun hone => ?_⟩
  · refine Tables.exact_empty.toIndexed.of_entries rfl ?_
    rintro id f key ⟨v, hv, -⟩
    cases hv
  · exact hone false true (by decide) (succeeded_racer false) (succeeded_racer true) .email
      "x@example.com" rfl rfl

end Accounts.Directory
