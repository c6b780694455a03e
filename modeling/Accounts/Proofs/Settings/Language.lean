import Accounts.Proofs.Text.Literal
import Accounts.Settings.Variables

/-!
# The language of the settings

What variables say, told without reading them: the word a variable is set to, the literal of a
number, a spelling of a flag, the names in a list. Variables are refused exactly for a word or a
name that is not known, and `Rejects` tells which one is reported; all others describe one
`Settings` (`settings_language`). Numbers and flags never refuse: what is not one of theirs counts
as not given.
-/
namespace Accounts.Settings

open Accounts.Text

variable {vars : Variables} {name : String}

/-! ## Single variables -/

/-- This has the property, or nothing has it and this is the default. -/
def OrDefault {α : Type} (P : α → Prop) (default x : α) : Prop :=
  P x ∨ (∀ y, ¬ P y) ∧ x = default

theorem getD_eq_iff {α : Type} {P : α → Prop} {o : Option α} {default x : α}
    (h : ∀ y, o = some y ↔ P y) : o.getD default = x ↔ OrDefault P default x := by
  unfold OrDefault
  simp only [← h]
  cases o with
  | none => simp [eq_comm]
  | some y => simp

theorem ofList_eq_iff {s : List Char} {t : String} : String.ofList s = t ↔ s = t.toList := by
  constructor
  · rintro rfl
    exact String.toList_ofList.symm
  · rintro rfl
    exact String.ofList_toList

theorem mem_map_toList (words : List String) {s : List Char} :
    s ∈ words.map String.toList ↔ String.ofList s ∈ words := by
  rw [List.mem_map]
  constructor
  · rintro ⟨t, ht, rfl⟩
    rwa [String.ofList_toList]
  · intro h
    exact ⟨_, h, String.toList_ofList⟩

/-- The variable is set to this word: its text without blanks at the ends and in small letters. A
blank text is no word. -/
def Says (vars : Variables) (name w : String) : Prop :=
  ∃ text, vars name = some text ∧ w = String.ofList (normalized text) ∧ w ≠ ""

/-- The variable is set to a word that is none of these. -/
def Foreign (vars : Variables) (name : String) (words : List String) (w : String) : Prop :=
  Says vars name w ∧ w ∉ words

/-- The variable is set to a literal of an integer from `lo` to `hi`. -/
def Counts (vars : Variables) (name : String) (lo hi n : Int) : Prop :=
  ∃ text, vars name = some text ∧ (lo ≤ n ∧ n ≤ hi) ∧
    Literal (decide (lo < 0)) (trim text.toList) n

/-- The variable is set to a literal of a number of so many bits. -/
def CountsBits (vars : Variables) (name : String) (bits n : Nat) : Prop :=
  Counts vars name 0 (2 ^ bits - 1) n

def spellings : Bool → List String
  | true => ["true", "1", "yes", "on"]
  | false => ["false", "0", "no", "off"]

/-- The variable is set to a spelling of this flag. -/
def Spells (vars : Variables) (name : String) (b : Bool) : Prop :=
  ∃ text, vars name = some text ∧ String.ofList (normalized text) ∈ spellings b

theorem choice_eq_iff {default w : String} :
    choice vars name default = w.toList ↔ OrDefault (Says vars name) default w := by
  have hword (v : String) :
      (((vars name).map normalized).filter fun s => !s.isEmpty).map String.ofList = some v ↔
        Says vars name v := by
    simp only [Option.map_eq_some_iff, Option.filter_eq_some_iff]
    constructor
    · rintro ⟨s, ⟨⟨text, htext, rfl⟩, hs⟩, rfl⟩
      exact ⟨text, htext, rfl, by simpa [ofList_eq_iff] using hs⟩
    · rintro ⟨text, htext, rfl, hne⟩
      exact ⟨_, ⟨⟨text, htext, rfl⟩, by simpa [ofList_eq_iff] using hne⟩, rfl⟩
  rw [← getD_eq_iff hword, ← ofList_eq_iff, choice]
  cases ((vars name).map normalized).filter fun s => !s.isEmpty <;> simp

theorem integer_eq_iff {lo hi default n : Int} :
    integer vars name lo hi default = n ↔ OrDefault (Counts vars name lo hi) default n := by
  refine getD_eq_iff fun m => ?_
  simp only [Option.bind_eq_some_iff, readWithin?_eq_some_iff, Counts]

theorem natural_eq_iff {bits default n : Nat} :
    natural vars name bits default = n ↔ OrDefault (CountsBits vars name bits) default n := by
  have hmax : ((Nat.pow 2 bits - 1 : Nat) : Int) = 2 ^ bits - 1 := by
    change ((2 ^ bits - 1 : Nat) : Int) = _
    rw [Nat.cast_sub Nat.one_le_two_pow, Nat.cast_pow]
    rfl
  have hread (m : Nat) :
      ((vars name).bind fun s => readWithin? 0 (2 ^ bits - 1) (trim s.toList)).map Int.toNat
        = some m ↔ CountsBits vars name bits m := by
    simp only [Option.map_eq_some_iff, Option.bind_eq_some_iff, readWithin?_eq_some_iff,
      CountsBits, Counts]
    constructor
    · rintro ⟨k, ⟨text, htext, hk, hliteral⟩, rfl⟩
      rw [Int.toNat_of_nonneg hk.1]
      exact ⟨text, htext, hk, hliteral⟩
    · intro h
      exact ⟨m, h, Int.toNat_natCast m⟩
  rw [← getD_eq_iff hread, natural, integer, hmax]
  cases (vars name).bind fun s => readWithin? 0 (2 ^ bits - 1) (trim s.toList) <;> simp

theorem mem_spellings {s : List Char} {b : Bool} :
    String.ofList s ∈ spellings b ↔ s ∈ if b then trueWords else falseWords := by
  cases b <;> exact (mem_map_toList (spellings _)).symm

theorem flag_eq_iff {default b : Bool} :
    flag vars name default = b ↔ OrDefault (Spells vars name) default b := by
  -- the two lists of words are disjoint, so that the order of the two tests does not matter
  let spelled (s : List Char) : Option Bool :=
    if s ∈ trueWords then some true else if s ∈ falseWords then some false else none
  have hspelled (s : List Char) (c : Bool) :
      spelled s = some c ↔ String.ofList s ∈ spellings c := by
    have hdisjoint : ∀ s ∈ trueWords, s ∉ falseWords := by decide
    rw [mem_spellings]
    by_cases htrue : s ∈ trueWords
    · cases c <;> simp [spelled, htrue, hdisjoint s htrue]
    · cases c <;> simp [spelled, htrue]
  have hread (c : Bool) :
      ((vars name).map normalized).bind spelled = some c ↔ Spells vars name c := by
    simp only [Option.bind_eq_some_iff, Option.map_eq_some_iff, hspelled, Spells]
    constructor
    · rintro ⟨_, ⟨text, htext, rfl⟩, h⟩
      exact ⟨text, htext, h⟩
    · rintro ⟨text, htext, h⟩
      exact ⟨_, ⟨text, htext, rfl⟩, h⟩
  rw [← getD_eq_iff hread, flag]
  cases (vars name).map normalized with
  | none => rfl
  | some s => grind

/-! ## Choices -/

/-- The word that decides a choice: what the variable says, or else the default. -/
abbrev Chosen (vars : Variables) (name default : String) (w : String) : Prop :=
  OrDefault (Says vars name) default w

theorem foreign_iff {default w : String} {words : List String} (h : default ∈ words) :
    Foreign vars name words w ↔
      String.ofList (choice vars name default) = w ∧ w ∉ words := by
  rw [ofList_eq_iff, choice_eq_iff]
  constructor
  · rintro ⟨hsaid, hw⟩
    exact ⟨.inl hsaid, hw⟩
  · rintro ⟨hsaid | ⟨_, rfl⟩, hw⟩
    · exact ⟨hsaid, hw⟩
    · exact absurd h hw

/-- A reading that fails exactly when the word is none of its own is refused for a foreign word. -/
theorem eq_error_iff_foreign {α : Type} {words : List String} {default : String}
    {r : Except SettingsError α} {e : SettingsError} (hdefault : default ∈ words)
    (hknown : String.ofList (choice vars name default) ∈ words → ∃ a, r = .ok a)
    (hunknown : String.ofList (choice vars name default) ∉ words →
      r = unsupported name (choice vars name default)) :
    r = .error e ↔ ∃ w, Foreign vars name words w ∧ e = .unsupported name w := by
  constructor
  · intro h
    by_cases hw : String.ofList (choice vars name default) ∈ words
    · obtain ⟨a, ha⟩ := hknown hw
      cases ha.symm.trans h
    · cases (hunknown hw).symm.trans h
      exact ⟨_, (foreign_iff hdefault).2 ⟨rfl, hw⟩, rfl⟩
  · rintro ⟨w, hw, rfl⟩
    obtain ⟨rfl, hw⟩ := (foreign_iff hdefault).1 hw
    exact hunknown hw

/-- A reading refused for foreign words alone gives a result if there is none. -/
theorem exists_ok_iff {α : Type} {words : List String} {r : Except SettingsError α}
    (h : ∀ e, r = .error e ↔ ∃ w, Foreign vars name words w ∧ e = .unsupported name w) :
    (∃ a, r = .ok a) ↔ ∀ w, ¬ Foreign vars name words w := by
  constructor
  · rintro ⟨a, rfl⟩ w hw
    cases (h _).2 ⟨w, hw, rfl⟩
  · intro hnone
    cases r with
    | ok a => exact ⟨a, rfl⟩
    | error e =>
      obtain ⟨w, hw, -⟩ := (h e).1 rfl
      exact absurd hw (hnone w)

def storageWords : List String := ["memory", "redis", "etcd"]

def identifierWords : List String := ["uuid", "seq"]

/-- A store in an etcd server: no time to live is one of no seconds. -/
structure DescribesEtcd (vars : Variables) (s : Backend.Etcd.Settings) : Prop where
  endpoint : s.endpoint = (vars "USERD_ETCD_ENDPOINT").getD "http://localhost:2379"
  keyPrefix : s.keyPrefix = (vars "USERD_ETCD_PREFIX").getD "userd"
  timeToLive : ∃ seconds, OrDefault (CountsBits vars "USERD_ETCD_TTL_SECS" 64) 0 seconds ∧
    (s.timeToLive = none ↔ seconds = 0) ∧
    ∀ d, s.timeToLive = some d → d = Duration.ofSeconds seconds

def DescribesRedisUrl (vars : Variables) (url : String) : Prop :=
  url = (vars "USERD_REDIS_URL").getD "redis://localhost:6379"

def DescribesStorage (vars : Variables) : Backend.Choice → Prop
  | .memory => Chosen vars "USERD_STORAGE" "memory" "memory"
  | .redis url => Chosen vars "USERD_STORAGE" "memory" "redis" ∧ DescribesRedisUrl vars url
  | .etcd s => Chosen vars "USERD_STORAGE" "memory" "etcd" ∧ DescribesEtcd vars s

def DescribesIdentifiers (vars : Variables) : IdentifierChoice → Prop
  | .random => Chosen vars "USERD_IDFACTORY" "uuid" "uuid"
  | .sequence mark =>
    Chosen vars "USERD_IDFACTORY" "uuid" "seq" ∧
      mark = (vars "USERD_IDFACTORY_SEQ_PREFIX").getD "user-"

theorem etcdOf_eq_iff {s : Backend.Etcd.Settings} : etcdOf vars = s ↔ DescribesEtcd vars s := by
  have hseconds := natural_eq_iff.1 (Eq.refl (natural vars "USERD_ETCD_TTL_SECS" 64 0))
  constructor
  · rintro rfl
    refine ⟨rfl, rfl, _, hseconds, ?_⟩
    by_cases hzero : natural vars "USERD_ETCD_TTL_SECS" 64 0 = 0 <;> simp [etcdOf, hzero, eq_comm]
  · rintro ⟨hendpoint, hprefix, seconds, hread, hnone, hsome⟩
    obtain ⟨endpoint, keyPrefix, timeToLive⟩ := s
    have hlive : (etcdOf vars).timeToLive = timeToLive := by
      rw [etcdOf, natural_eq_iff.2 hread]
      cases timeToLive with
      | none => simp [hnone.1 rfl]
      | some d => simpa [hsome d rfl] using hnone
    exact (Backend.Etcd.Settings.mk.injEq ..).mpr ⟨hendpoint.symm, hprefix.symm, hlive⟩

theorem storageOf_eq_ok_iff {c : Backend.Choice} :
    storageOf vars = .ok c ↔ DescribesStorage vars c := by
  constructor
  · intro h
    rw [storageOf] at h
    split at h
    · next hword =>
      cases h
      exact choice_eq_iff.1 hword
    split at h
    · next hword =>
      cases h
      exact ⟨choice_eq_iff.1 hword, rfl⟩
    split at h
    · next hword =>
      cases h
      exact ⟨choice_eq_iff.1 hword, etcdOf_eq_iff.1 rfl⟩
    · cases h
  · intro h
    cases c with
    | memory => simp [storageOf, choice_eq_iff.2 h]
    | redis url => simp [storageOf, choice_eq_iff.2 h.1, show url = redisUrlOf vars from h.2]
    | etcd s => simp [storageOf, choice_eq_iff.2 h.1, etcdOf_eq_iff.2 h.2]

theorem storageOf_eq_error_iff {e : SettingsError} :
    storageOf vars = .error e ↔
      ∃ w, Foreign vars "USERD_STORAGE" storageWords w ∧ e = .unsupported "USERD_STORAGE" w := by
  have hwords : "memory" ∈ storageWords := by decide
  refine eq_error_iff_foreign hwords (fun hw => ?_) fun hw => ?_
  · simp only [storageWords, List.mem_cons, List.not_mem_nil, or_false, ofList_eq_iff] at hw
    rcases hw with hw | hw | hw <;> simp [storageOf, hw]
  · simp only [storageWords, List.mem_cons, List.not_mem_nil, or_false, ofList_eq_iff,
      not_or] at hw
    simp only [storageOf, if_neg hw.1, if_neg hw.2.1, if_neg hw.2.2]

theorem storageOf_ok_iff :
    (∃ c, storageOf vars = .ok c) ↔ ∀ w, ¬ Foreign vars "USERD_STORAGE" storageWords w :=
  exists_ok_iff fun _ => storageOf_eq_error_iff

theorem identifiersOf_eq_ok_iff {c : IdentifierChoice} :
    identifiersOf vars = .ok c ↔ DescribesIdentifiers vars c := by
  constructor
  · intro h
    rw [identifiersOf] at h
    split at h
    · next hword =>
      cases h
      exact choice_eq_iff.1 hword
    split at h
    · next hword =>
      cases h
      exact ⟨choice_eq_iff.1 hword, rfl⟩
    · cases h
  · intro h
    cases c with
    | random => simp [identifiersOf, choice_eq_iff.2 h]
    | sequence mark => simp [identifiersOf, choice_eq_iff.2 h.1, h.2, defaultIdMark]

theorem identifiersOf_eq_error_iff {e : SettingsError} :
    identifiersOf vars = .error e ↔
      ∃ w, Foreign vars "USERD_IDFACTORY" identifierWords w ∧
        e = .unsupported "USERD_IDFACTORY" w := by
  have hwords : "uuid" ∈ identifierWords := by decide
  refine eq_error_iff_foreign hwords (fun hw => ?_) fun hw => ?_
  · simp only [identifierWords, List.mem_cons, List.not_mem_nil, or_false, ofList_eq_iff] at hw
    rcases hw with hw | hw <;> simp [identifiersOf, hw]
  · simp only [identifierWords, List.mem_cons, List.not_mem_nil, or_false, ofList_eq_iff,
      not_or] at hw
    simp only [identifiersOf, if_neg hw.1, if_neg hw.2]

theorem identifiersOf_ok_iff :
    (∃ c, identifiersOf vars = .ok c) ↔ ∀ w, ¬ Foreign vars "USERD_IDFACTORY" identifierWords w :=
  exists_ok_iff fun _ => identifiersOf_eq_error_iff

/-! ## Streams -/

def streamWords : List String := ["log", "redis", "collector"]

/-- The names of streams, and the two that stand for none. -/
def nameWords : List String := "" :: "none" :: streamWords

def nameOf (part : List Char) : String := String.ofList (trim part)

/-- The variable is set to these names, with commas between them and blanks around them. If it is
not set, the one name is `none`. -/
def Listed (vars : Variables) (names : List String) : Prop :=
  ∃ parts, Chosen vars "USERD_EVENTSTREAM" "none" (String.ofList (joined ',' parts)) ∧
    parts ≠ [] ∧ (∀ p ∈ parts, ',' ∉ p) ∧ names = parts.map nameOf

def wordOf : StreamChoice → String
  | .log => "log"
  | .redis _ => "redis"
  | .collector _ => "collector"

def DescribesStream (vars : Variables) : StreamChoice → Prop
  | .log => True
  | .redis usesChannel =>
    OrDefault (Spells vars "USERD_EVENTSTREAM_REDIS_PUBSUB") false usesChannel
  | .collector capacity =>
    OrDefault (CountsBits vars "USERD_EVENTSTREAM_COLLECTOR_MAX_ITEMS" 64) 100 capacity

/-- The streams are those named, in the order and as often as they are named. -/
structure DescribesStreams (vars : Variables) (names : List String)
    (streams : List StreamChoice) : Prop where
  words : streams.map wordOf = names.filter (· ∈ streamWords)
  each : ∀ s ∈ streams, DescribesStream vars s

theorem listed_iff {names : List String} :
    Listed vars names ↔
      names = (fields ',' (choice vars "USERD_EVENTSTREAM" "none")).map nameOf := by
  unfold Listed
  simp only [← choice_eq_iff, String.toList_ofList]
  constructor
  · rintro ⟨parts, hchoice, hne, hcommas, rfl⟩
    rw [hchoice, fields_joined parts hne hcommas]
  · rintro rfl
    exact ⟨_, (joined_fields ..).symm, fields_ne_nil _ _, fun _ => not_mem_of_mem_fields, rfl⟩

/-- The stream that a name stands for, if any. -/
def streamNamed (vars : Variables) (w : String) : Option StreamChoice :=
  if w = "log" then some .log
  else if w = "redis" then some (.redis (flag vars "USERD_EVENTSTREAM_REDIS_PUBSUB" false))
  else if w = "collector" then
    some (.collector (natural vars "USERD_EVENTSTREAM_COLLECTOR_MAX_ITEMS" 64 defaultCapacity))
  else none

theorem streamOf_eq (name : List Char) :
    streamOf vars name =
      if String.ofList name ∈ nameWords then .ok (streamNamed vars (String.ofList name))
      else unsupported "USERD_EVENTSTREAM" name := by
  simp only [nameWords, streamWords, List.mem_cons, List.not_mem_nil, or_false, streamNamed,
    ofList_eq_iff]
  by_cases hsilent : name = [] ∨ name = "none".toList
  · rcases hsilent with rfl | rfl <;> rfl
  by_cases hlog : name = "log".toList
  · subst hlog
    rfl
  by_cases hredis : name = "redis".toList
  · subst hredis
    rfl
  by_cases hcollector : name = "collector".toList
  · subst hcollector
    rfl
  rw [streamOf, if_neg hsilent, if_neg hlog, if_neg hredis, if_neg hcollector, if_neg]
  simp_all

theorem streamNamed_eq_some_iff {w : String} {s : StreamChoice} :
    streamNamed vars w = some s ↔ wordOf s = w ∧ DescribesStream vars s := by
  constructor
  · intro h
    unfold streamNamed at h
    split at h
    · next hw =>
      cases h
      exact ⟨hw.symm, trivial⟩
    split at h
    · next hw =>
      cases h
      exact ⟨hw.symm, flag_eq_iff.1 rfl⟩
    split at h
    · next hw =>
      cases h
      exact ⟨hw.symm, natural_eq_iff.1 rfl⟩
    · cases h
  · rintro ⟨rfl, hs⟩
    cases s with
    | log => rfl
    | redis usesChannel => simp [streamNamed, wordOf, flag_eq_iff.2 hs]
    | collector capacity => simp [streamNamed, wordOf, defaultCapacity, natural_eq_iff.2 hs]

theorem streamNamed_eq_none_iff {w : String} : streamNamed vars w = none ↔ w ∉ streamWords := by
  unfold streamNamed
  by_cases hlog : w = "log"
  · simp [hlog, streamWords]
  by_cases hredis : w = "redis"
  · simp [hredis, streamWords]
  by_cases hcollector : w = "collector"
  · simp [hcollector, streamWords]
  simp [hlog, hredis, hcollector, streamWords]

theorem describesStreams_iff {names : List String} {streams : List StreamChoice} :
    DescribesStreams vars names streams ↔ names.filterMap (streamNamed vars) = streams := by
  constructor
  · rintro ⟨hwords, heach⟩
    -- along the names: one that counts takes the first of the streams, another takes none
    induction names generalizing streams with
    | nil => simpa [eq_comm] using hwords
    | cons n names ih =>
      by_cases hn : n ∈ streamWords
      · rw [List.filter_cons_of_pos (by simpa using hn)] at hwords
        obtain ⟨s, rest, rfl, hs, hrest⟩ := List.map_eq_cons_iff.1 hwords
        have hnamed : streamNamed vars n = some s :=
          streamNamed_eq_some_iff.2 ⟨hs, heach s List.mem_cons_self⟩
        rw [List.filterMap_cons_some hnamed,
          ih hrest fun t ht => heach t (List.mem_cons_of_mem _ ht)]
      · rw [List.filter_cons_of_neg (by simpa using hn)] at hwords
        rw [List.filterMap_cons_none (streamNamed_eq_none_iff.2 hn), ih hwords heach]
  · rintro rfl
    constructor
    · induction names with
      | nil => rfl
      | cons n names ih =>
        cases hn : streamNamed vars n with
        | none =>
          rw [List.filterMap_cons_none hn, ih, List.filter_cons_of_neg]
          simpa using streamNamed_eq_none_iff.1 hn
        | some s =>
          have hmem : n ∈ streamWords := by
            by_contra h
            cases hn.symm.trans (streamNamed_eq_none_iff.2 h)
          rw [List.filterMap_cons_some hn, List.map_cons, ih, (streamNamed_eq_some_iff.1 hn).1,
            List.filter_cons_of_pos (by simpa using hmem)]
    · intro s hs
      obtain ⟨n, -, hn⟩ := List.mem_filterMap.1 hs
      exact (streamNamed_eq_some_iff.1 hn).2

/-- The names are read up to the first that is not known. -/
theorem streamsOf_eq (parts : List (List Char)) :
    streamsOf vars parts =
      match (parts.map nameOf).find? (· ∉ nameWords) with
      | none => .ok ((parts.map nameOf).filterMap (streamNamed vars))
      | some w => .error (.unsupported "USERD_EVENTSTREAM" w) := by
  induction parts with
  | nil => rfl
  | cons part parts ih =>
    rw [streamsOf, streamOf_eq, ih, List.map_cons, ← nameOf]
    by_cases hpart : nameOf part ∈ nameWords
    · rw [if_pos hpart, List.find?_cons_of_neg (by simpa using hpart)]
      cases (parts.map nameOf).find? (· ∉ nameWords) with
      | some w => rfl
      | none =>
        rw [List.filterMap_cons]
        cases streamNamed vars (nameOf part) <;> rfl
    · rw [if_neg hpart, List.find?_cons_of_pos (by simpa using hpart)]
      rfl

theorem streamsOf_eq_ok_iff {parts : List (List Char)} {streams : List StreamChoice} :
    streamsOf vars parts = .ok streams ↔
      (∀ n ∈ parts.map nameOf, n ∈ nameWords) ∧
        DescribesStreams vars (parts.map nameOf) streams := by
  rw [streamsOf_eq, describesStreams_iff]
  cases h : (parts.map nameOf).find? (· ∉ nameWords) with
  | none =>
    have hknown : ∀ n ∈ parts.map nameOf, n ∈ nameWords := by
      intro n hn
      simpa using List.find?_eq_none.1 h n hn
    rw [Except.ok.injEq]
    exact (and_iff_right hknown).symm
  | some w =>
    have hw : w ∉ nameWords := by simpa using List.find?_some h
    exact ⟨nofun, fun h' => absurd (h'.1 w (List.mem_of_find?_eq_some h)) hw⟩

theorem streamsOf_eq_error_iff {parts : List (List Char)} {e : SettingsError} :
    streamsOf vars parts = .error e ↔
      ∃ before w after, parts.map nameOf = before ++ w :: after ∧
        (∀ v ∈ before, v ∈ nameWords) ∧ w ∉ nameWords ∧
        e = .unsupported "USERD_EVENTSTREAM" w := by
  have hfind (w : String) : (parts.map nameOf).find? (· ∉ nameWords) = some w ↔
      w ∉ nameWords ∧ ∃ before after, parts.map nameOf = before ++ w :: after ∧
        ∀ v ∈ before, v ∈ nameWords := by
    rw [List.find?_eq_some_iff_append]
    simp
  rw [streamsOf_eq]
  constructor
  · intro h
    split at h
    · cases h
    · next w hw =>
      cases h
      obtain ⟨hunknown, before, after, hparts, hbefore⟩ := (hfind w).1 hw
      exact ⟨before, w, after, hparts, hbefore, hunknown, rfl⟩
  · rintro ⟨before, w, after, hparts, hbefore, hunknown, rfl⟩
    rw [(hfind w).2 ⟨hunknown, before, after, hparts, hbefore⟩]

/-! ## Cost and rules -/

structure DescribesCost (vars : Variables) (c : Hasher.Cost) : Prop where
  memory : OrDefault (CountsBits vars "USERD_ARGON2_M_COST" 32) 19456 c.memory
  passes : OrDefault (CountsBits vars "USERD_ARGON2_T_COST" 32) 2 c.passes
  lanes : OrDefault (CountsBits vars "USERD_ARGON2_P_COST" 32) 1 c.lanes

/-- A number of seconds is a lifetime if it is positive and its milliseconds fit a signed integer of
64 bits; any other is replaced by a day. -/
def DescribesLifetime (vars : Variables) (d : Duration) : Prop :=
  ∃ seconds,
    OrDefault (Counts vars "USERD_RESET_TOKEN_EXPIRY_SECS" (-2 ^ 63) (2 ^ 63 - 1)) 86400 seconds ∧
      d = Duration.ofSeconds (if 0 < seconds ∧ seconds * 1000 < 2 ^ 63 then seconds else 86400)

structure DescribesRules (vars : Variables) (r : Service.Rules) : Prop where
  verified :
    OrDefault (Spells vars "USERD_AUTH_EMAIL_MUST_BE_VERIFIED") true r.verifiedEmailRequired
  lifetime : DescribesLifetime vars r.tokenLifetime

theorem costOf_eq_iff {c : Hasher.Cost} : costOf vars = c ↔ DescribesCost vars c := by
  constructor
  · rintro rfl
    exact ⟨natural_eq_iff.1 rfl, natural_eq_iff.1 rfl, natural_eq_iff.1 rfl⟩
  · rintro ⟨hmemory, hpasses, hlanes⟩
    exact (Hasher.Cost.mk.injEq ..).mpr
      ⟨natural_eq_iff.2 hmemory, natural_eq_iff.2 hpasses, natural_eq_iff.2 hlanes⟩

theorem lifetimeOf_eq_iff {d : Duration} : lifetimeOf vars = d ↔ DescribesLifetime vars d := by
  have hfits (n : Int) : (0 < n ∧ n ≤ maxLifetime) ↔ (0 < n ∧ n * 1000 < 2 ^ 63) := by
    unfold maxLifetime
    omega
  have hbounds : minInt64 = -2 ^ 63 ∧ maxInt64 = 2 ^ 63 - 1 := by decide
  unfold DescribesLifetime lifetimeOf
  simp only [← integer_eq_iff, ← hbounds.1, ← hbounds.2, exists_eq_left', hfits]
  rw [apply_ite Duration.ofSeconds, eq_comm]
  rfl

theorem rulesOf_eq_iff {r : Service.Rules} : rulesOf vars = r ↔ DescribesRules vars r := by
  constructor
  · rintro rfl
    exact ⟨flag_eq_iff.1 rfl, lifetimeOf_eq_iff.1 rfl⟩
  · rintro ⟨hverified, hlifetime⟩
    exact (Service.Rules.mk.injEq ..).mpr
      ⟨flag_eq_iff.2 hverified, lifetimeOf_eq_iff.2 hlifetime⟩

theorem lifetime_bounds {d : Duration} (h : DescribesLifetime vars d) :
    0 < d.nanoseconds ∧ d.nanoseconds < 2 ^ 63 * 1000000 := by
  obtain ⟨seconds, -, rfl⟩ := h
  unfold Duration.ofSeconds Duration.perSecond
  dsimp only
  split <;> omega

/-! ## All settings -/

/-- The settings that the variables stand for. -/
structure Describes (vars : Variables) (s : Settings) : Prop where
  storage : DescribesStorage vars s.storage
  identifiers : DescribesIdentifiers vars s.identifiers
  cost : DescribesCost vars s.cost
  streams : ∃ names, Listed vars names ∧ (∀ n ∈ names, n ∈ nameWords) ∧
    DescribesStreams vars names s.streams
  eventMark : s.eventMark = (vars "USERD_EVENTSTREAM_PREFIX").getD ""
  redisUrl : DescribesRedisUrl vars s.redisUrl
  rules : DescribesRules vars s.rules

/-- What is reported if variables are refused: a foreign word of the storage, else one of the
identifiers, else the leftmost name of no stream. -/
inductive Rejects (vars : Variables) : SettingsError → Prop
  | storage {w : String} (hword : Foreign vars "USERD_STORAGE" storageWords w) :
    Rejects vars (.unsupported "USERD_STORAGE" w)
  | identifiers {w : String} (hstorage : ∀ v, ¬ Foreign vars "USERD_STORAGE" storageWords v)
    (hword : Foreign vars "USERD_IDFACTORY" identifierWords w) :
    Rejects vars (.unsupported "USERD_IDFACTORY" w)
  | stream {before after : List String} {w : String}
    (hstorage : ∀ v, ¬ Foreign vars "USERD_STORAGE" storageWords v)
    (hidentifiers : ∀ v, ¬ Foreign vars "USERD_IDFACTORY" identifierWords v)
    (hlisted : Listed vars (before ++ w :: after)) (hbefore : ∀ v ∈ before, v ∈ nameWords)
    (hword : w ∉ nameWords) :
    Rejects vars (.unsupported "USERD_EVENTSTREAM" w)

theorem bind_eq_ok_iff {α β : Type} {x : Except SettingsError α} {f : α → Except SettingsError β}
    {b : β} : x >>= f = .ok b ↔ ∃ a, x = .ok a ∧ f a = .ok b := by
  cases x with
  | error e => exact ⟨nofun, nofun⟩
  | ok a => simp [bind, Except.bind]

theorem bind_eq_error_iff {α β : Type} {x : Except SettingsError α}
    {f : α → Except SettingsError β} {e : SettingsError} :
    x >>= f = .error e ↔ x = .error e ∨ ∃ a, x = .ok a ∧ f a = .error e := by
  cases x with
  | error e => simp [bind, Except.bind]
  | ok a => simp [bind, Except.bind]

theorem ofVariables_eq_ok_iff {s : Settings} : ofVariables vars = .ok s ↔ Describes vars s := by
  simp only [ofVariables, bind_eq_ok_iff, storageOf_eq_ok_iff, identifiersOf_eq_ok_iff,
    streamsOf_eq_ok_iff]
  constructor
  · rintro ⟨storage, hstorage, identifiers, hidentifiers, streams, ⟨hknown, hstreams⟩, h⟩
    cases h
    exact ⟨hstorage, hidentifiers, costOf_eq_iff.1 rfl, ⟨_, listed_iff.2 rfl, hknown, hstreams⟩,
      rfl, rfl, rulesOf_eq_iff.1 rfl⟩
  · rintro ⟨hstorage, hidentifiers, hcost, ⟨names, hlisted, hknown, hstreams⟩, hmark, hurl, hrules⟩
    rw [listed_iff] at hlisted
    subst hlisted
    refine ⟨_, hstorage, _, hidentifiers, _, ⟨hknown, hstreams⟩, ?_⟩
    obtain ⟨storage, identifiers, cost, streams, eventMark, redisUrl, rules⟩ := s
    exact congrArg Except.ok ((Settings.mk.injEq ..).mpr ⟨rfl, rfl, costOf_eq_iff.2 hcost, rfl,
      hmark.symm, hurl.symm, rulesOf_eq_iff.2 hrules⟩)

theorem ofVariables_eq_error_iff {e : SettingsError} :
    ofVariables vars = .error e ↔ Rejects vars e := by
  simp only [ofVariables, bind_eq_error_iff, storageOf_eq_error_iff, identifiersOf_eq_error_iff,
    streamsOf_eq_error_iff]
  constructor
  · rintro (⟨w, hw, rfl⟩ | ⟨storage, hstorage, h⟩)
    · exact .storage hw
    have hnoStorage := storageOf_ok_iff.1 ⟨storage, hstorage⟩
    rcases h with ⟨w, hw, rfl⟩ | ⟨identifiers, hidentifiers, h⟩
    · exact .identifiers hnoStorage hw
    have hnoIdentifiers := identifiersOf_ok_iff.1 ⟨identifiers, hidentifiers⟩
    rcases h with ⟨before, w, after, hparts, hbefore, hw, rfl⟩ | ⟨streams, -, h⟩
    · exact .stream hnoStorage hnoIdentifiers (listed_iff.2 hparts.symm) hbefore hw
    · cases h
  · intro h
    cases h with
    | storage hw => exact .inl ⟨_, hw, rfl⟩
    | identifiers hnoStorage hw =>
      obtain ⟨storage, hstorage⟩ := storageOf_ok_iff.2 hnoStorage
      exact .inr ⟨storage, hstorage, .inl ⟨_, hw, rfl⟩⟩
    | stream hnoStorage hnoIdentifiers hlisted hbefore hw =>
      obtain ⟨storage, hstorage⟩ := storageOf_ok_iff.2 hnoStorage
      obtain ⟨identifiers, hidentifiers⟩ := identifiersOf_ok_iff.2 hnoIdentifiers
      exact .inr ⟨storage, hstorage, .inr ⟨identifiers, hidentifiers, .inl
        ⟨_, _, _, (listed_iff.1 hlisted).symm, hbefore, hw, rfl⟩⟩⟩

/-- Nothing but a foreign word or name is a fault, whichever is reported. -/
theorem refused_iff :
    (∃ e, ofVariables vars = .error e) ↔
      (∃ w, Foreign vars "USERD_STORAGE" storageWords w) ∨
      (∃ w, Foreign vars "USERD_IDFACTORY" identifierWords w) ∨
      ∃ names w, Listed vars names ∧ w ∈ names ∧ w ∉ nameWords := by
  constructor
  · rintro ⟨e, he⟩
    cases ofVariables_eq_error_iff.1 he with
    | storage hw => exact .inl ⟨_, hw⟩
    | identifiers _ hw => exact .inr (.inl ⟨_, hw⟩)
    | stream _ _ hlisted _ hw => exact .inr (.inr ⟨_, _, hlisted, by simp, hw⟩)
  · intro h
    cases hread : ofVariables vars with
    | error e => exact ⟨e, rfl⟩
    | ok s =>
      -- settings that are described leave no room for a foreign word
      obtain ⟨hstorage, hidentifiers, -, ⟨names, hlisted, hknown, -⟩, -⟩ :=
        ofVariables_eq_ok_iff.1 hread
      rcases h with ⟨w, hw⟩ | ⟨w, hw⟩ | ⟨names', w, hlisted', hmem, hw⟩
      · exact absurd hw (storageOf_ok_iff.1 ⟨_, storageOf_eq_ok_iff.2 hstorage⟩ w)
      · exact absurd hw (identifiersOf_ok_iff.1 ⟨_, identifiersOf_eq_ok_iff.2 hidentifiers⟩ w)
      · cases (listed_iff.1 hlisted').trans (listed_iff.1 hlisted).symm
        exact absurd (hknown w hmem) hw

/-- The whole language: what is refused and for which word, and what is meant by all else. A
lifetime is never without length and never too long to be counted. -/
theorem settings_language (vars : Variables) :
    ((∃ e, ofVariables vars = .error e) ↔
      (∃ w, Foreign vars "USERD_STORAGE" storageWords w) ∨
      (∃ w, Foreign vars "USERD_IDFACTORY" identifierWords w) ∨
      ∃ names w, Listed vars names ∧ w ∈ names ∧ w ∉ nameWords) ∧
    (∀ e, ofVariables vars = .error e ↔ Rejects vars e) ∧
    (∀ s, ofVariables vars = .ok s ↔ Describes vars s) ∧
    ∀ s, ofVariables vars = .ok s →
      0 < s.rules.tokenLifetime.nanoseconds ∧
        s.rules.tokenLifetime.nanoseconds < 2 ^ 63 * 1000000 :=
  ⟨refused_iff, fun _ => ofVariables_eq_error_iff, fun _ => ofVariables_eq_ok_iff,
    fun _ h => lifetime_bounds (ofVariables_eq_ok_iff.1 h).rules.lifetime⟩

def redisVariables : Variables
  | "USERD_STORAGE" => some " Redis "
  | "USERD_EVENTSTREAM" => some "log, collector,,LOG"
  | "USERD_EVENTSTREAM_COLLECTOR_MAX_ITEMS" => some "+7"
  | "USERD_ARGON2_T_COST" => some "4294967296"
  | "USERD_RESET_TOKEN_EXPIRY_SECS" => some "-5"
  | _ => none

theorem settings_language_redis :
    ofVariables redisVariables = .ok
      { standard with
        storage := .redis defaultRedisUrl
        streams := [.log, .collector 7, .log] } ∧
    0 < standard.rules.tokenLifetime.nanoseconds := by
  have h : ofVariables redisVariables = .ok
      { standard with
        storage := .redis defaultRedisUrl
        streams := [.log, .collector 7, .log] } := by
    rfl
  exact ⟨h, ((settings_language redisVariables).2.2.2 _ h).1⟩

end Accounts.Settings
