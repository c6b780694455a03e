import Accounts.Proofs.Json.Written
import Accounts.Time.Rfc3339.Lemmas
import Accounts.User.Encoding

/-!
# What a record keeps of a user

Decoding the text of a user gives the user back (`decode?_encode`), for every user whose time of
issue lies in the years that have dates, and every user that was decoded is such a one
(`isDated_of_decode?`).
-/
namespace Accounts

/-- The day of the instant is in one of the years that a time can have. -/
def Instant.IsDated (t : Instant) : Prop :=
  Instant.inCalendar (Date.ofDayNumber (t.second / Instant.secondsPerDay)).year = true

theorem Instant.isDated_of_read? {s : List Char} {t : Instant} (h : Instant.read? s = some t) :
    t.IsDated := by
  simp only [Instant.read?, Option.bind_eq_bind, Option.bind_eq_some_iff] at h
  obtain ⟨⟨date, s₁⟩, -, s₂, -, ⟨⟨clock, nano⟩, s₃⟩, -, ⟨offset, s₄⟩, -, h⟩ := h
  split at h
  · simp only [Instant.ofLocal?] at h
    split at h
    · next hc =>
      unfold Instant.ofParts? at h
      split at h
      · cases h
        exact hc.2.2
      · cases h
    · cases h
  · cases h

namespace User

open Accounts.Json

/-- A time of issue, if there is one, has a date. -/
def IsDated (u : User) : Prop := ∀ t, u.resetTokenIssued = some t → t.IsDated

/-- The members of the object that a user is written as. -/
def written (u : User) : List (Field × Json) :=
  [(Field.id, Json.string u.id), (.profileName, .string u.profileName),
    (.loginName, .string u.loginName), (.passwordHash, .string u.passwordHash),
    (.email, .string u.email), (.emailVerified, .bool u.emailVerified)] ++
  (u.resetToken.toList.map fun t => (Field.resetToken, Json.string t)) ++
  u.resetTokenIssued.toList.map fun t =>
    (Field.resetTokenIssued, Json.string (String.ofList t.write))

theorem toJson_eq (u : User) :
    u.toJson = .object (u.written.map fun m => (m.1.name, m.2)) := rfl

theorem isScalar_of_mem_written {u : User} {m : Field × Json} (h : m ∈ u.written) :
    IsScalar m.2 := by
  simp only [written, List.mem_append, List.mem_cons, List.mem_map, List.not_mem_nil,
    or_false] at h
  rcases h with ((rfl | rfl | rfl | rfl | rfl | rfl) | ⟨t, -, rfl⟩) | ⟨t, -, rfl⟩
  any_goals exact Or.inl ⟨_, rfl⟩
  exact Or.inr ⟨_, rfl⟩

theorem nodup_written (u : User) : (u.written.map Prod.fst).Nodup := by
  unfold written
  cases u.resetToken <;> cases u.resetTokenIssued <;> simp

/-- What the user is written with under the name of a field. -/
def written? (u : User) : Field → Option Json
  | .id => some (.string u.id)
  | .profileName => some (.string u.profileName)
  | .loginName => some (.string u.loginName)
  | .passwordHash => some (.string u.passwordHash)
  | .email => some (.string u.email)
  | .emailVerified => some (.bool u.emailVerified)
  | .resetToken => u.resetToken.map .string
  | .resetTokenIssued => u.resetTokenIssued.map fun t => .string (String.ofList t.write)

theorem find?_written (u : User) (f : Field) :
    (u.written.find? fun m => m.1 == f).map Prod.snd = u.written? f := by
  unfold written
  cases hr : u.resetToken <;> cases hi : u.resetTokenIssued <;> cases f <;>
    simp [written?, hr, hi]

/-- Members under the names of different fields are taken as these fields. -/
theorem fields?_of_members {ms : List (Field × Json)} {ds : List (Literal × Document)}
    (hn : (ms.map Prod.fst).Nodup)
    (h : List.Forall₂ MemberMeans (ms.map fun m => (m.1.name, m.2)) ds) :
    ∃ fs, fields? ds = some fs ∧ fs.map Prod.fst = ms.map Prod.fst ∧
      List.Forall₂ Means (ms.map Prod.snd) (fs.map Prod.snd) := by
  induction ms generalizing ds with
  | nil =>
    cases h
    exact ⟨[], rfl, rfl, .nil⟩
  | cons m ms ih =>
    obtain ⟨hfresh, hn⟩ := List.nodup_cons.1 hn
    cases h with
    | @cons _ d _ ds hd hds =>
      obtain ⟨fs, hfs, hkeys, hall⟩ := ih hn hds
      have hnew : (fs.any fun e => e.1 == m.1) = false := by
        rw [List.any_eq_false]
        intro e he heq
        rw [← hkeys, ← eq_of_beq heq] at hfresh
        exact hfresh (List.mem_map_of_mem he)
      refine ⟨(m.1, d.2) :: fs, ?_, by simp [hkeys], .cons hd.2 hall⟩
      rw [fields?, hd.1]
      simp only [Option.bind_eq_bind, Option.bind_some, hfs, String.ofList_toList,
        Field.ofName?_name, hnew]
      rfl

/-- The documents of the fields mean what the fields were written with. -/
theorem rel_find? {ms : List (Field × Json)} {fs : List (Field × Document)}
    (hkeys : fs.map Prod.fst = ms.map Prod.fst)
    (h : List.Forall₂ Means (ms.map Prod.snd) (fs.map Prod.snd)) (f : Field) :
    Option.Rel Means ((ms.find? fun m => m.1 == f).map Prod.snd)
      ((fs.find? fun e => e.1 == f).map Prod.snd) := by
  induction ms generalizing fs with
  | nil =>
    rw [List.map_nil, List.map_eq_nil_iff] at hkeys
    subst hkeys
    exact .none
  | cons m ms ih =>
    cases fs with
    | nil => cases hkeys
    | cons e fs =>
      rw [List.map_cons, List.map_cons, List.cons.injEq] at hkeys
      cases h with
      | cons hd htl =>
        rw [List.find?_cons, List.find?_cons, hkeys.1]
        cases m.1 == f with
        | true => exact .some hd
        | false => exact ih hkeys.2 htl

theorem string?_of_means {s : String} {d : Option Document}
    (h : Option.Rel Means (some (.string s)) d) : d.bind string? = some s := by
  cases h with
  | some h =>
    cases h with
    | string hd => simp [string?, hd, String.ofList_toList]

theorem bool?_of_means {b : Bool} {d : Option Document}
    (h : Option.Rel Means (some (.bool b)) d) : ∃ d', d = some d' ∧ bool? d' = some b := by
  cases h with
  | some h =>
    cases h with
    | bool b => exact ⟨_, rfl, rfl⟩

theorem optional?_of_means {α : Type} {read : Document → Option α} {v : Option α}
    {d : Option Document} (write : α → String)
    (h : Option.Rel Means (v.map fun x => .string (write x)) d)
    (hread : ∀ x ps, v = some x → ps.denote = some (write x).toList →
      read (.string ps) = some x) : optional? read d = some v := by
  cases v with
  | none =>
    cases h
    rfl
  | some x =>
    cases h with
    | some h =>
      cases h with
      | string hd => simp [optional?, hread x _ rfl hd]

/-- All but the time of issue is read as it was written. -/
theorem ofFields?_of_means {u : User} {given : Field → Option Document}
    (h : ∀ f, Option.Rel Means (u.written? f) (given f)) :
    ofFields? given = (optional? instant? (given .resetTokenIssued)).map fun issued =>
      { u with resetTokenIssued := issued } := by
  have hid := string?_of_means (h .id)
  have hprofile := string?_of_means (h .profileName)
  have hlogin := string?_of_means (h .loginName)
  have hhash := string?_of_means (h .passwordHash)
  have hemail := string?_of_means (h .email)
  have htoken : optional? string? (given .resetToken) = some u.resetToken := by
    refine optional?_of_means (fun s : String => s) (h .resetToken) fun x ps _ hd => ?_
    rw [string?, hd]
    simp [String.ofList_toList]
  obtain ⟨d, hd, hb⟩ := bool?_of_means (h .emailVerified)
  simp only [ofFields?, hid, hprofile, hlogin, hhash, hemail, hd, hb, htoken,
    Option.bind_eq_bind, Option.bind_some]
  cases optional? instant? (given .resetTokenIssued) <;> rfl

theorem issued?_of_means {u : User} (hu : u.IsDated) {d : Option Document}
    (h : Option.Rel Means (u.written? .resetTokenIssued) d) :
    optional? instant? d = some u.resetTokenIssued := by
  refine optional?_of_means (fun t : Instant => String.ofList t.write) h fun t ps ht hd => ?_
  rw [instant?, string?, hd]
  simp only [String.toList_ofList, Option.map_some, Option.bind_some]
  exact Instant.read?_write t (hu t ht)

/-- Decoding the text of a user reads documents that mean what the fields were written with. -/
theorem exists_decode?_encode_eq (u : User) :
    ∃ given, decode? u.encode = ofFields? given ∧
      ∀ f, Option.Rel Means (u.written? f) (given f) := by
  have hne : u.written.map (fun m => (m.1.name, m.2)) ≠ [] := by
    simp [written]
  have hs : ∀ m ∈ u.written.map fun m => (m.1.name, m.2), IsScalar m.2 := by
    intro m hm
    obtain ⟨w, hw, rfl⟩ := List.mem_map.1 hm
    exact isScalar_of_mem_written hw
  obtain ⟨ds, hds, hms⟩ := Document.read?_write_object hne hs
  obtain ⟨fs, hfs, hkeys, hall⟩ := fields?_of_members (nodup_written u) hms
  refine ⟨fun f => (fs.find? fun e => e.1 == f).map Prod.snd, ?_, fun f => ?_⟩
  · rw [decode?, encode, Json.toText, String.toList_ofList, toJson_eq, hds]
    simp only [Option.bind_some, ofDocument?, hfs, Option.bind_eq_bind]
  · have := rel_find? hkeys hall f
    rwa [find?_written] at this

/-- The text of a record loses nothing of a user. -/
theorem decode?_encode {u : User} (hu : u.IsDated) : decode? u.encode = some u := by
  obtain ⟨given, hdecode, hmeans⟩ := exists_decode?_encode_eq u
  rw [hdecode, ofFields?_of_means hmeans, issued?_of_means hu (hmeans .resetTokenIssued)]
  rfl

/-- Only the time of issue can come back changed, if it has no date. -/
theorem eq_of_decode?_encode {u v : User} (h : decode? u.encode = some v) :
    v = { u with resetTokenIssued := v.resetTokenIssued } := by
  obtain ⟨given, hdecode, hmeans⟩ := exists_decode?_encode_eq u
  rw [hdecode, ofFields?_of_means hmeans] at h
  obtain ⟨issued, -, rfl⟩ := Option.map_eq_some_iff.1 h
  rfl

theorem uniqueValues_of_decode?_encode {u v : User} (h : decode? u.encode = some v) :
    v.uniqueValues = u.uniqueValues := by
  rw [eq_of_decode?_encode h]
  rfl

theorem isDated_of_ofFields? {given : Field → Option Document} {u : User}
    (h : ofFields? given = some u) : u.IsDated := by
  simp only [ofFields?, Option.bind_eq_bind, Option.bind_eq_some_iff] at h
  obtain ⟨_, -, _, -, _, -, _, -, _, -, h⟩ := h
  have hi : optional? instant? (given .resetTokenIssued) = some u.resetTokenIssued := by
    split at h
    all_goals
      simp only [Option.bind_eq_some_iff] at h
      obtain ⟨_, -, _, -, issued, hi, h⟩ := h
      cases h
      exact hi
  intro t ht
  rw [ht] at hi
  unfold optional? at hi
  split at hi
  · cases hi
  · cases hi
  · obtain ⟨t', hd, he⟩ := Option.map_eq_some_iff.1 hi
    cases he
    obtain ⟨s, -, hr⟩ := Option.bind_eq_some_iff.1 hd
    exact Instant.isDated_of_read? hr

/-- Every user that was read from a record can be written again without loss. -/
theorem isDated_of_decode? {s : String} {u : User} (h : decode? s = some u) : u.IsDated := by
  obtain ⟨d, -, hd⟩ := Option.bind_eq_some_iff.1 h
  cases d with
  | object members =>
    obtain ⟨fs, -, hf⟩ := Option.bind_eq_some_iff.1 hd
    exact isDated_of_ofFields? hf
  | array items =>
    simp only [ofDocument?] at hd
    split at hd
    · cases hd
    · exact isDated_of_ofFields? hd
  | null | bool | number | string => cases hd

end User

end Accounts
