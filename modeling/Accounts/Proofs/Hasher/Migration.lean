import Accounts.Hasher.Costed
import Accounts.Proofs.Hasher.Phc

/-!
# From one cost to another

A hash made at one cost checks its password under a hasher of any other cost, and is outdated there
exactly if the costs differ. In general a text is not outdated exactly if it is the text of a hash
that was made at the cost of the hasher (`Phc.MadeAt`), and a text of no hash never checks a
password (`cost_migration`).
-/
namespace Accounts.Hasher

open Accounts.Text

/-- The memory has eight kibibytes for each lane, and memory and passes are numbers of 32 bits. -/
structure Cost.Usable (c : Cost) : Prop where
  memory : 8 ≤ c.memory
  memory_le : c.memory ≤ 4294967295
  room : 8 * c.lanes ≤ c.memory
  passes : 1 ≤ c.passes
  passes_le : c.passes ≤ 4294967295
  lanes : 1 ≤ c.lanes
  lanes_le : c.lanes ≤ 16777215

/-- A parameter that Argon2 has: a cost, an identifier of a key, or data. -/
inductive Known : List Char × List Char → Prop
  | cost {name : List Char} {n : Nat} (hname : name ∈ [['m'], ['t'], ['p']])
    (hn : n ≤ Cost.maxWord) : Known (name, digits n)
  | key {bs : List UInt8} (hbs : bs.length ≤ 8) :
    Known ("keyid".toList, Base64.encodeUnpadded .standard bs)
  | data {bs : List UInt8} (hbs : bs.length ≤ 32) :
    Known ("data".toList, Base64.encodeUnpadded .standard bs)

/-- The last parameter of this name, or the standard one where there is none, is this number. -/
def Gives (ps : List (List Char × List Char)) (name : List Char) (standard n : Nat) : Prop :=
  (ps.reverse.lookup name).getD (digits standard) = digits n

/-- A hash that was made at this cost, in the variant that is used. -/
structure Phc.MadeAt (h : Phc) (c : Cost) : Prop where
  algorithm : h.algorithm = "argon2id".toList
  known : ∀ q ∈ h.parameters, Known q
  memory : Gives h.parameters ['m'] 19456 c.memory
  passes : Gives h.parameters ['t'] 2 c.passes
  lanes : Gives h.parameters ['p'] 1 c.lanes
  usable : c.Usable

/-- What a parameter changes. -/
inductive Parameters.Sets (p : Parameters) : List Char × List Char → Parameters → Prop
  | memory {n : Nat} (hn : n ≤ Cost.maxWord) :
    Parameters.Sets p (['m'], digits n) { p with cost := { p.cost with memory := n } }
  | passes {n : Nat} (hn : n ≤ Cost.maxWord) :
    Parameters.Sets p (['t'], digits n) { p with cost := { p.cost with passes := n } }
  | lanes {n : Nat} (hn : n ≤ Cost.maxWord) :
    Parameters.Sets p (['p'], digits n) { p with cost := { p.cost with lanes := n } }
  | key {bs : List UInt8} (hbs : bs.length ≤ 8) :
    Parameters.Sets p ("keyid".toList, Base64.encodeUnpadded .standard bs) p
  | data {bs : List UInt8} (hbs : bs.length ≤ 32) :
    Parameters.Sets p ("data".toList, Base64.encodeUnpadded .standard bs) { p with data := bs }

/-- The parameters so far have been taken over. -/
structure Parameters.Taken (ps : List (List Char × List Char)) (c : Cost) : Prop where
  known : ∀ q ∈ ps, Known q
  memory : Gives ps ['m'] 19456 c.memory
  memory_le : c.memory ≤ Cost.maxWord
  passes : Gives ps ['t'] 2 c.passes
  passes_le : c.passes ≤ Cost.maxWord
  lanes : Gives ps ['p'] 1 c.lanes

variable {c c' : Cost} {h : Phc} {p p' : Parameters} {q : List Char × List Char}
  {ps : List (List Char × List Char)} {name : List Char} {m n standard : Nat}

/-! ### Costs that can be used -/

/-- The check of a cost leaves the bounds of memory and passes to the numbers it is given. -/
theorem Cost.usable_iff :
    c.Usable ↔ c.memory ≤ maxWord ∧ c.passes ≤ maxWord ∧ c.fault? = none := by
  unfold Cost.fault? Cost.maxWord Cost.maxLanes
  constructor
  · rintro ⟨_, hmemory, _, _, hpasses, _, _⟩
    refine ⟨hmemory, hpasses, ?_⟩
    rw [if_neg (by omega), if_neg (by omega), if_neg (by omega), if_neg (by omega)]
  · rintro ⟨hmemory, hpasses, hfault⟩
    split at hfault
    · cases hfault
    split at hfault
    · cases hfault
    split at hfault
    · cases hfault
    split at hfault
    · cases hfault
    constructor <;> omega

theorem Cost.validate_eq_ok_iff : c.validate = .ok () ↔ c.fault? = none := by
  unfold Cost.validate
  cases c.fault? <;> simp

/-! ### Parameters of a hash -/

theorem digits_injective (h : digits m = digits n) : m = n := by
  rw [← ofDigits_digits m, h, ofDigits_digits]

theorem Gives.unique (hm : Gives ps name standard m) (hn : Gives ps name standard n) : m = n :=
  digits_injective (hm.symm.trans hn)

theorem gives_concat_self : Gives (ps ++ [(name, digits n)]) name standard n := by
  simp [Gives]

theorem gives_concat_of_ne (hne : q.1 ≠ name) :
    Gives (ps ++ [q]) name standard n ↔ Gives ps name standard n := by
  obtain ⟨key, value⟩ := q
  simp [Gives, List.lookup_cons, beq_false_of_ne (Ne.symm hne)]

namespace Parameters

theorem bytes?_eq_some_iff {limit : Nat} {s : List Char} {bs : List UInt8} :
    bytes? limit s = some bs ↔ s = Base64.encodeUnpadded .standard bs ∧ bs.length ≤ limit := by
  rw [bytes?, Option.filter_eq_some_iff, Base64.decodeUnpadded?_eq_some_iff, decide_eq_true_eq]

theorem set?_eq_some_iff : set? p q = some p' ↔ Sets p q p' := by
  constructor
  · intro hset
    unfold set? at hset
    split at hset
    · obtain ⟨n, hn, rfl⟩ := Option.map_eq_some_iff.1 hset
      obtain ⟨rfl, hle⟩ := Phc.decimal?_eq_some_iff.1 hn
      exact .memory hle
    · obtain ⟨n, hn, rfl⟩ := Option.map_eq_some_iff.1 hset
      obtain ⟨rfl, hle⟩ := Phc.decimal?_eq_some_iff.1 hn
      exact .passes hle
    · obtain ⟨n, hn, rfl⟩ := Option.map_eq_some_iff.1 hset
      obtain ⟨rfl, hle⟩ := Phc.decimal?_eq_some_iff.1 hn
      exact .lanes hle
    · split at hset
      · next hname =>
        obtain ⟨bs, hbs, rfl⟩ := Option.map_eq_some_iff.1 hset
        obtain ⟨rfl, hle⟩ := bytes?_eq_some_iff.1 hbs
        exact hname ▸ .key hle
      · split at hset
        · next hname =>
          obtain ⟨bs, hbs, rfl⟩ := Option.map_eq_some_iff.1 hset
          obtain ⟨rfl, hle⟩ := bytes?_eq_some_iff.1 hbs
          exact hname ▸ .data hle
        · cases hset
  · rintro (hn | hn | hn | hbs | hbs)
    · simp [set?, Phc.decimal?_eq_some_iff.2 ⟨rfl, hn⟩]
    · simp [set?, Phc.decimal?_eq_some_iff.2 ⟨rfl, hn⟩]
    · simp [set?, Phc.decimal?_eq_some_iff.2 ⟨rfl, hn⟩]
    · simp [set?, bytes?_eq_some_iff.2 ⟨rfl, hbs⟩]
    · simp [set?, bytes?_eq_some_iff.2 ⟨rfl, hbs⟩]

theorem Sets.known (h : Sets p q p') : Known q := by
  cases h with
  | memory hn => exact .cost (by simp) hn
  | passes hn => exact .cost (by simp) hn
  | lanes hn => exact .cost (by simp) hn
  | key hbs => exact .key hbs
  | data hbs => exact .data hbs

theorem exists_sets (h : Known q) (p : Parameters) : ∃ p', Sets p q p' := by
  cases h with
  | cost hname hn =>
    simp only [List.mem_cons, List.not_mem_nil, or_false] at hname
    rcases hname with rfl | rfl | rfl
    · exact ⟨_, .memory hn⟩
    · exact ⟨_, .passes hn⟩
    · exact ⟨_, .lanes hn⟩
  | key hbs => exact ⟨_, .key hbs⟩
  | data hbs => exact ⟨_, .data hbs⟩

theorem Taken.concat (h : Taken ps p.cost) (hset : Sets p q p') : Taken (ps ++ [q]) p'.cost := by
  have hknown : ∀ r ∈ ps ++ [q], Known r := by
    intro r hr
    rcases List.mem_append.1 hr with hr | hr
    · exact h.known r hr
    · exact List.mem_singleton.1 hr ▸ hset.known
  have hother {name : List Char} {standard n : Nat} (hne : q.1 ≠ name)
      (hn : Gives ps name standard n) : Gives (ps ++ [q]) name standard n :=
    (gives_concat_of_ne hne).2 hn
  cases hset with
  | memory hn =>
    exact ⟨hknown, gives_concat_self, hn, hother (by simp) h.passes, h.passes_le,
      hother (by simp) h.lanes⟩
  | passes hn =>
    exact ⟨hknown, hother (by simp) h.memory, h.memory_le, gives_concat_self, hn,
      hother (by simp) h.lanes⟩
  | lanes hn =>
    exact ⟨hknown, hother (by simp) h.memory, h.memory_le, hother (by simp) h.passes, h.passes_le,
      gives_concat_self⟩
  | key hbs =>
    exact ⟨hknown, hother (by simp) h.memory, h.memory_le, hother (by simp) h.passes, h.passes_le,
      hother (by simp) h.lanes⟩
  | data hbs =>
    exact ⟨hknown, hother (by simp) h.memory, h.memory_le, hother (by simp) h.passes, h.passes_le,
      hother (by simp) h.lanes⟩

theorem taken_of_foldlM (hfold : ps.foldlM set? ⟨Cost.standard, []⟩ = some p) :
    Taken ps p.cost := by
  induction ps using List.reverseRecOn generalizing p with
  | nil =>
    cases hfold
    exact ⟨nofun, rfl, by decide, rfl, by decide, rfl⟩
  | append_singleton ps q ih =>
    rw [List.foldlM_append, Option.bind_eq_bind, Option.bind_eq_some_iff] at hfold
    obtain ⟨p₀, hp₀, hlast⟩ := hfold
    rw [List.foldlM_cons, Option.bind_eq_bind, Option.bind_eq_some_iff] at hlast
    obtain ⟨p₁, hset, ⟨⟩⟩ := hlast
    exact (ih hp₀).concat (set?_eq_some_iff.1 hset)

theorem exists_foldlM (hknown : ∀ q ∈ ps, Known q) (p : Parameters) :
    ∃ p', ps.foldlM set? p = some p' := by
  induction ps generalizing p with
  | nil => exact ⟨p, rfl⟩
  | cons q ps ih =>
    rw [List.forall_mem_cons] at hknown
    obtain ⟨p₁, hset⟩ := exists_sets hknown.1 p
    obtain ⟨p', hp'⟩ := ih hknown.2 p₁
    refine ⟨p', ?_⟩
    rw [List.foldlM_cons, set?_eq_some_iff.2 hset]
    exact hp'

theorem ofPhc?_eq_some_iff : ofPhc? h = some p ↔
    h.parameters.foldlM set? ⟨Cost.standard, []⟩ = some p ∧ p.cost.fault? = none := by
  unfold ofPhc?
  cases h.parameters.foldlM set? ⟨Cost.standard, []⟩ with
  | none => simp
  | some p₀ =>
    cases hfault : p₀.cost.fault? with
    | none =>
      simp only [Option.bind_eq_bind, Option.bind_some, hfault, Option.isNone_none, if_pos,
        Option.some.injEq]
      exact ⟨fun heq => ⟨heq, heq ▸ hfault⟩, And.left⟩
    | some reason =>
      simp only [Option.bind_eq_bind, Option.bind_some, hfault, Option.isNone_some,
        Option.some.injEq]
      exact ⟨nofun, fun ⟨heq, hnone⟩ => by rw [← heq, hfault] at hnone; cases hnone⟩

end Parameters

/-! ### Which hashes are current -/

theorem isCurrent_iff : isCurrent c h = true ↔ h.MadeAt c := by
  simp only [isCurrent, Bool.and_eq_true, Option.any_eq_true, beq_iff_eq]
  constructor
  · rintro ⟨halgorithm, p, hp, rfl⟩
    obtain ⟨hfold, hfault⟩ := Parameters.ofPhc?_eq_some_iff.1 hp
    have htaken := Parameters.taken_of_foldlM hfold
    exact ⟨halgorithm, htaken.known, htaken.memory, htaken.passes, htaken.lanes,
      Cost.usable_iff.2 ⟨htaken.memory_le, htaken.passes_le, hfault⟩⟩
  · rintro ⟨halgorithm, hknown, hmemory, hpasses, hlanes, husable⟩
    obtain ⟨p, hfold⟩ := Parameters.exists_foldlM hknown ⟨Cost.standard, []⟩
    have htaken := Parameters.taken_of_foldlM hfold
    have hcost : p.cost = c := by
      calc p.cost = ⟨p.cost.memory, p.cost.passes, p.cost.lanes⟩ := rfl
        _ = ⟨c.memory, c.passes, c.lanes⟩ := by
          rw [htaken.memory.unique hmemory, htaken.passes.unique hpasses,
            htaken.lanes.unique hlanes]
        _ = c := rfl
    refine ⟨halgorithm, p, Parameters.ofPhc?_eq_some_iff.2 ⟨hfold, ?_⟩, hcost⟩
    rw [hcost]
    exact (Cost.usable_iff.1 husable).2.2

theorem parse?_eq_none_iff {s : List Char} :
    Phc.parse? s = none ↔ ∀ h : Phc, h.WellFormed → s ≠ h.write := by
  simp only [Option.eq_none_iff_forall_ne_some, ne_eq, Phc.parse?_eq_some_iff, not_and]

theorem needsRehash_eq_false_iff {text : String} : (ofCost c).needsRehash text = false ↔
    ∃ h : Phc, h.WellFormed ∧ text.toList = h.write ∧ h.MadeAt c := by
  simp only [ofCost, Bool.not_eq_false', Option.any_eq_true, Phc.parse?_eq_some_iff, isCurrent_iff]
  constructor
  · rintro ⟨h, ⟨hh, htext⟩, hmade⟩
    exact ⟨h, hh, htext, hmade⟩
  · rintro ⟨h, hh, htext, hmade⟩
    exact ⟨h, ⟨hh, htext⟩, hmade⟩

/-! ### The hash of a password -/

variable {salt password : List UInt8}

theorem ofPhc?_stamp (hc : c.Usable) :
    Parameters.ofPhc? (stamp c salt password) = some ⟨c, []⟩ := by
  obtain ⟨hmemory, hpasses, hfault⟩ := Cost.usable_iff.1 hc
  have hlanes : c.lanes ≤ Cost.maxWord := hc.lanes_le.trans (by decide)
  rw [Parameters.ofPhc?_eq_some_iff]
  refine ⟨?_, hfault⟩
  simp [stamp, Parameters.set?, Phc.decimal?_eq_some_iff.2 ⟨rfl, hmemory⟩,
    Phc.decimal?_eq_some_iff.2 ⟨rfl, hpasses⟩, Phc.decimal?_eq_some_iff.2 ⟨rfl, hlanes⟩]

theorem wellFormed_stamp (hc : c.Usable) (hsalt : 3 ≤ salt.length ∧ salt.length ≤ 48) :
    (stamp c salt password).WellFormed where
  algorithm := by
    have hname : Phc.isName (variantName .id) = true := by decide +kernel
    exact hname
  version := by
    rintro n ⟨⟩
    decide
  parameters := by
    have hlanes : c.lanes ≤ Cost.maxWord := hc.lanes_le.trans (by decide)
    have hname : ∀ name ∈ [['m'], ['t'], ['p']], Phc.isName name = true := by decide
    simp only [stamp, List.mem_cons, List.not_mem_nil, or_false]
    rintro p (rfl | rfl | rfl)
    · exact ⟨hname _ (by simp), Phc.isValue_digits hc.memory_le⟩
    · exact ⟨hname _ (by simp), Phc.isValue_digits hc.passes_le⟩
    · exact ⟨hname _ (by simp), Phc.isValue_digits hlanes⟩
  short := by
    have hlength {n : Nat} (hn : n ≤ 4294967295) : (digits n).length ≤ 10 :=
      length_digits_le (by omega) (show n < 10 ^ 10 by omega)
    have hmemory := hlength hc.memory_le
    have hpasses := hlength hc.passes_le
    have hlanes := hlength (hc.lanes_le.trans (by omega))
    simp only [stamp, Phc.assignment, List.map_cons, List.map_nil, joined, List.length_append,
      List.length_cons, List.length_nil, Phc.maxParameterLength]
    omega
  unambiguous := nofun
  salt := by
    rintro s ⟨⟩
    have hlength := Base64.length_encodeUnpadded .standard salt
    refine ⟨by omega, ?_⟩
    simp only [Phc.isValue, Bool.and_eq_true, decide_eq_true_eq, List.all_eq_true]
    exact ⟨by omega, fun c hc => Phc.isValueChar_of_mem_encodeUnpadded hc⟩
  output := by
    rintro bs ⟨⟩
    rw [Argon2.length_hash _ (by decide)]
    exact ⟨rfl, by decide, by decide⟩

theorem checks_stamp (hc : c.Usable) (hsalt : minSaltBytes ≤ salt.length) :
    checks (stamp c salt password) password = true := by
  have hbytes : saltBytes? (Base64.encodeUnpadded .standard salt) = some salt := by
    rw [saltBytes?, Option.filter_eq_some_iff, Base64.decodeUnpadded?_encodeUnpadded]
    exact ⟨rfl, by simpa using hsalt⟩
  have hvariant : variant? (variantName .id) = some .id := by decide +kernel
  have hremake : remake? (stamp c salt password) outputBytes password =
      some (Argon2.hash ⟨.id, .v19, c⟩ outputBytes password salt []) := by
    simp only [remake?, ofPhc?_stamp hc, Option.bind_eq_bind, Option.bind_some]
    simp only [stamp, hvariant, Option.bind_some, hbytes]
    rfl
  have hlength : (Argon2.hash ⟨.id, .v19, c⟩ outputBytes password salt []).length = outputBytes :=
    Argon2.length_hash _ (by decide) _ _ _
  simp only [checks, Option.any_eq_true, beq_iff_eq]
  exact ⟨_, rfl, by rw [hlength, hremake]⟩

theorem isCurrent_stamp (hc : c.Usable) : isCurrent c' (stamp c salt password) = (c == c') := by
  have halgorithm : (stamp c salt password).algorithm = variantName .id := rfl
  simp [isCurrent, ofPhc?_stamp hc, halgorithm]

/-- A hasher of a usable cost makes hashes that every other one checks, and that are outdated at
another cost. Not outdated is what was made at the cost of the hasher, and nothing else. -/
theorem cost_migration (c c' : Cost) (hc : c.validate = .ok ())
    (hwords : c.memory ≤ Cost.maxWord ∧ c.passes ≤ Cost.maxWord)
    (hsalt : salt.length = (ofCost c).saltBytes) (password : String) :
    (∃ made, (ofCost c).hash salt password = some (.ok made) ∧
      (ofCost c').verify password made = some true ∧
      ((ofCost c').needsRehash made = true ↔ c ≠ c')) ∧
    ∀ text : String,
      ((ofCost c').needsRehash text = false ↔
        ∃ h : Phc, h.WellFormed ∧ text.toList = h.write ∧ h.MadeAt c') ∧
      ((∀ h : Phc, h.WellFormed → text.toList ≠ h.write) →
        ∀ password, (ofCost c').verify password text = some false) := by
  have husable : c.Usable :=
    Cost.usable_iff.2 ⟨hwords.1, hwords.2, Cost.validate_eq_ok_iff.1 hc⟩
  have hlength : salt.length = 16 := hsalt
  have hread : Phc.parse? (stamp c salt (bytesOf password)).write =
      some (stamp c salt (bytesOf password)) :=
    Phc.parse?_eq_some_iff.2 ⟨wellFormed_stamp husable (by omega), rfl⟩
  have hchecks : checks (stamp c salt (bytesOf password)) (bytesOf password) = true :=
    checks_stamp husable (by rw [hlength]; decide)
  refine ⟨⟨_, rfl, ?_, ?_⟩, fun text => ⟨needsRehash_eq_false_iff, fun hnone other => ?_⟩⟩
  · simp only [ofCost, String.toList_ofList, hread, Option.any_some, hchecks]
  · simp [ofCost, hread, isCurrent_stamp husable]
  · simp only [ofCost, parse?_eq_none_iff.2 hnone, Option.any_none]

/-- The cost is raised, and then memory and passes are the largest that there are. -/
theorem cost_migration_raised :
    (∃ made, (ofCost ⟨8, 1, 1⟩).hash (List.replicate 16 0) "secret" = some (.ok made) ∧
      (ofCost ⟨16, 2, 1⟩).verify "secret" made = some true ∧
      (ofCost ⟨16, 2, 1⟩).needsRehash made = true) ∧
    ∃ made, (ofCost ⟨4294967295, 4294967295, 16777215⟩).hash (List.replicate 16 7) "" =
        some (.ok made) ∧
      (ofCost ⟨4294967295, 4294967295, 16777215⟩).verify "" made = some true ∧
      (ofCost ⟨4294967295, 4294967295, 16777215⟩).needsRehash made = false := by
  constructor
  · obtain ⟨made, hmade, hverify, hrehash⟩ :=
      (cost_migration ⟨8, 1, 1⟩ ⟨16, 2, 1⟩ rfl (by decide) (List.length_replicate ..) "secret").1
    exact ⟨made, hmade, hverify, hrehash.2 (by decide)⟩
  · obtain ⟨made, hmade, hverify, hrehash⟩ :=
      (cost_migration ⟨4294967295, 4294967295, 16777215⟩ ⟨4294967295, 4294967295, 16777215⟩ rfl
        (by decide) (List.length_replicate ..) "").1
    refine ⟨made, hmade, hverify, ?_⟩
    rw [← Bool.not_eq_true, hrehash]
    exact fun hne => hne rfl

end Accounts.Hasher
