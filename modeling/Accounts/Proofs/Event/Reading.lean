import Accounts.Event.Basic
import Accounts.Json.Reader
import Accounts.Proofs.Json.Written
import Accounts.Service.Environment

/-!
# Reading events

An event can be told from the message that it is sent as: the tag says which event it is, and the
value of the payload, which is parsed as any JSON text, has its texts (`read?_message`).
-/
namespace Accounts

open Text

namespace Json

/-- An object of texts. -/
def ofTexts (ms : List (String × String)) : List (String × Json) :=
  ms.map fun m => (m.1, .string m.2)

theorem ofMemberList?_of_means {ms : List (String × String)} {ds : List (Literal × Document)}
    (h : List.Forall₂ MemberMeans (ofTexts ms) ds) (depth : Nat) :
    ofMemberList? depth ds = some (ofTexts ms) := by
  induction ms generalizing ds with
  | nil =>
    cases h
    simp [ofMemberList?, ofTexts]
  | cons m ms ih =>
    cases h with
    | @cons _ d _ ds hd hds =>
      obtain ⟨key, doc⟩ := d
      obtain ⟨hkey, hvalue⟩ := hd
      cases hvalue with
      | string hs =>
        have hrest : ofMemberList? depth ds = some (ofTexts ms) := ih hds
        have hkey : key.denote = some m.1.toList := hkey
        simp [ofMemberList?, ofDocument?, hkey, hs, hrest, ofTexts]

/-- The text of an object of texts is parsed as that object, its members sorted. -/
theorem parse?_write_ofTexts {ms : List (String × String)} (hne : ms ≠ []) :
    parse? (Json.object (ofTexts ms)).write = some (ofMembers (ofTexts ms)) := by
  have hscalar : ∀ m ∈ ofTexts ms, IsScalar m.2 := by
    intro m hm
    obtain ⟨w, -, rfl⟩ := List.mem_map.1 hm
    exact Or.inl ⟨w.2, rfl⟩
  have hsome : ofTexts ms ≠ [] := by simpa [ofTexts] using hne
  obtain ⟨ds, hread, hms⟩ := Document.read?_write_object hsome hscalar
  have hlist := ofMemberList?_of_means hms 126
  simp [parse?, hread, maxDepth, ofDocument?, hlist]

theorem get?_cons (key other : String) (value : Json) (ms : List (String × Json)) :
    (Json.object ((key, value) :: ms)).get? other =
      if key = other then some value else (Json.object ms).get? other := by
  by_cases h : key = other <;> simp [get?, h]

theorem get?_insertMember (key other : String) (value : Json) (ms : List (String × Json)) :
    (Json.object (insertMember key value ms)).get? other =
      if key = other then some value else (Json.object ms).get? other := by
  induction ms with
  | nil => exact get?_cons key other value []
  | cons m ms ih =>
    obtain ⟨k, v⟩ := m
    unfold insertMember
    split
    · exact get?_cons key other value _
    · by_cases hkey : key = k
      · subst hkey
        by_cases h : key = other <;> simp [get?_cons, h]
      · rw [if_neg hkey, get?_cons, get?_cons, ih]
        by_cases h : key = other
        · have hother : k ≠ other := fun hk => hkey (h.trans hk.symm)
          simp [h, hother]
        · simp [h]

/-- The text of a member. -/
def text? (v : Json) (key : String) : Option String := (v.get? key).bind getString?

end Json

namespace Event

/-- The event that a message with this tag and this payload tells of. -/
def ofValue? (tag : String) (v : Json) : Option Event := do
  let id ← v.text? "user_id"
  if tag = "user.created" then
    let email ← v.text? "email"
    let loginName ← v.text? "login_name"
    pure (.created id email loginName)
  else if tag = "user.authenticated" then pure (.authenticated id)
  else if tag = "user.login_credentials_changed" then
    (v.text? "login_name").map (.credentialsChanged id)
  else if tag = "user.password_changed" then pure (.passwordChanged id)
  else if tag = "user.profile_name_changed" then
    (v.text? "profile_name").map (.profileNameChanged id)
  else if tag = "user.email_changed" then (v.text? "email").map (.emailChanged id)
  else if tag = "user.email_verified" then (v.text? "email").map (.emailVerified id)
  else if tag = "user.reset_login_credentials_token_created" then pure (.tokenCreated id)
  else if tag = "user.login_credentials_reset" then
    (v.text? "login_name").map (.credentialsReset id)
  else none

/-- Reads a message from nothing but its tag and the bytes of its payload. -/
def read? (m : Event.Message) : Option Event :=
  (Json.parseBytes? m.payload).bind (ofValue? m.tag)

theorem parseBytes?_payload (e : Event) :
    Json.parseBytes? (Utf8.encode e.payload.toList) =
      some (Json.ofMembers (Json.ofTexts e.members)) := by
  have hsome : e.members ≠ [] := by cases e <;> simp [members]
  have hwrite : e.payload.toList = (Json.object (Json.ofTexts e.members)).write :=
    String.toList_ofList
  rw [Json.parseBytes?, Utf8.decode?_encode, Option.bind_some, hwrite,
    Json.parse?_write_ofTexts hsome]

theorem ofValue?_members (e : Event) :
    ofValue? e.tag (Json.ofMembers (Json.ofTexts e.members)) = some e := by
  cases e <;>
    simp [members, tag, ofValue?, Json.ofTexts, Json.ofMembers, Json.text?,
      Json.get?_insertMember, Json.getString?]

/-- Every event is read from its message, whatever characters its texts have. -/
theorem read?_message (e : Event) : read? (Service.Environment.message e) = some e := by
  simp only [read?, Service.Environment.message, parseBytes?_payload, Option.bind_some]
  exact ofValue?_members e

end Event

end Accounts
