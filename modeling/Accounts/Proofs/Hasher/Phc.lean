import Accounts.Hasher.Phc
import Accounts.Proofs.Text.Literal

/-!
# What is a hash string

Each well-formed hash has one text, and texts of well-formed hashes are all that can be read
(`parse?_eq_some_iff`). Reading goes from field to field, so there is one such statement for each
kind of field.
-/
namespace Accounts.Hasher.Phc

open Accounts.Text

variable {s : List Char} {c : Char} {n : Nat} {p : List Char × List Char}
  {ps : List (List Char × List Char)} {fs rest : List (List Char)} {version : Option Nat}
  {salt : Option (List Char)} {output : Option (List UInt8)} {h : Phc}

/-- A parameter as it is written. -/
def assignment (p : List Char × List Char) : List Char := p.1 ++ '=' :: p.2

/-- What the parts of a hash are like. A single parameter named `v` would be the version. -/
structure WellFormed (h : Phc) : Prop where
  algorithm : isName h.algorithm
  version : ∀ n, h.version = some n → n ≤ Cost.maxWord
  parameters : ∀ p ∈ h.parameters, isName p.1 ∧ isValue p.2
  short : (joined ',' (h.parameters.map assignment)).length ≤ maxParameterLength
  unambiguous : h.version = none → ∀ value, h.parameters ≠ [(['v'], value)]
  salt : ∀ s, h.salt = some s → 4 ≤ s.length ∧ isValue s
  output : ∀ bs, h.output = some bs → h.salt.isSome ∧ 10 ≤ bs.length ∧ bs.length ≤ 64

/-! ### Names, values and numbers -/

theorem not_mem_of_isName (hs : isName s) (hc : isNameChar c = false) : c ∉ s := by
  simp only [isName, Bool.and_eq_true, List.all_eq_true] at hs
  intro hmem
  rw [hs.2 c hmem] at hc
  cases hc

theorem not_mem_of_isValue (hs : isValue s) (hc : isValueChar c = false) : c ∉ s := by
  simp only [isValue, Bool.and_eq_true, List.all_eq_true] at hs
  intro hmem
  rw [hs.2 c hmem] at hc
  cases hc

theorem isValue_digits (hn : n ≤ Cost.maxWord) : isValue (digits n) := by
  simp only [isValue, Bool.and_eq_true, decide_eq_true_eq, List.all_eq_true]
  have hlength : (digits n).length ≤ 10 := length_digits_le (by omega) (show n < 10 ^ 10 by
    simp only [Cost.maxWord] at hn
    omega)
  refine ⟨by omega, fun c hc => ?_⟩
  simp [isValueChar, isDigit_of_mem_digits hc]

theorem decimal?_eq_some_iff : decimal? s = some n ↔ s = digits n ∧ n ≤ Cost.maxWord := by
  unfold decimal?
  constructor
  · intro h
    split at h
    · cases h
    · next hzero =>
      obtain ⟨hread, hn⟩ := Option.filter_eq_some_iff.1 h
      have hs := readNat?_eq_some_iff.1 hread
      refine ⟨(hs.digits_eq fun hhead => ?_).symm, by simpa using hn⟩
      have := List.length_pos_iff.2 hs.nonempty
      have := not_and.1 hzero hhead
      omega
  · rintro ⟨rfl, hn⟩
    rw [if_neg, readNat?_digits]
    · simpa using hn
    · rintro ⟨hhead, hlength⟩
      rw [eq_zero_of_head?_digits hhead, digits] at hlength
      simp at hlength

/-! ### Parameters -/

theorem parameter?_eq_some_iff :
    parameter? s = some p ↔ s = assignment p ∧ isName p.1 ∧ isValue p.2 := by
  obtain ⟨name, value⟩ := p
  have hfields : fields '=' s = [name, value] ↔
      s = assignment (name, value) ∧ ∀ f ∈ [name, value], '=' ∉ f := fields_eq_iff (by simp)
  unfold parameter?
  constructor
  · intro h
    split at h
    · next name' value' heq =>
      split at h
      · next hvalid =>
        cases h
        rw [Bool.and_eq_true] at hvalid
        exact ⟨(hfields.1 heq).1, hvalid⟩
      · cases h
    · cases h
  · rintro ⟨hs, hname, hvalue⟩
    have heq := hfields.2 ⟨hs, by
      simp [not_mem_of_isName hname (show isNameChar '=' = false by decide),
        not_mem_of_isValue hvalue (show isValueChar '=' = false by decide)]⟩
    simp only [heq]
    rw [if_pos (by simpa using ⟨hname, hvalue⟩)]

theorem not_mem_assignment (hname : isName p.1) (hvalue : isValue p.2) (hc : c ≠ '=')
    (hcn : isNameChar c = false) (hcv : isValueChar c = false) : c ∉ assignment p := by
  simp [assignment, not_mem_of_isName hname hcn, not_mem_of_isValue hvalue hcv, hc]

theorem parameters?_eq_some_iff : parameters? s = some ps ↔
    ps ≠ [] ∧ s = joined ',' (ps.map assignment) ∧ s.length ≤ maxParameterLength ∧
      ∀ p ∈ ps, isName p.1 ∧ isValue p.2 := by
  unfold parameters?
  constructor
  · intro h
    split at h
    · cases h
    · next hlength =>
      obtain ⟨hmap, hall⟩ := (mapM_eq_some_iff fun _ _ => parameter?_eq_some_iff).1 h
      refine ⟨?_, ?_, by omega, hall⟩
      · rintro rfl
        exact fields_ne_nil ',' s hmap
      · rw [← hmap, joined_fields]
  · rintro ⟨hne, rfl, hlength, hall⟩
    rw [if_neg (by omega), mapM_eq_some_iff fun _ _ => parameter?_eq_some_iff]
    refine ⟨fields_joined _ (by simpa using hne) fun f hf => ?_, hall⟩
    obtain ⟨p, hp, rfl⟩ := List.mem_map.1 hf
    exact not_mem_assignment (hall p hp).1 (hall p hp).2 (by decide) (by decide) (by decide)

/-! ### Fields -/

def versionFields (version : Option Nat) : List (List Char) :=
  version.toList.map fun n => 'v' :: '=' :: digits n

def parameterFields (ps : List (List Char × List Char)) : List (List Char) :=
  if ps.isEmpty then [] else [joined ',' (ps.map assignment)]

def hashFields (salt : Option (List Char)) (output : Option (List UInt8)) : List (List Char) :=
  salt.toList ++ output.toList.map (Base64.encodeUnpadded .standard)

theorem write_eq (h : Phc) : h.write = joined '$' ([] :: h.algorithm ::
    (versionFields h.version ++ parameterFields h.parameters ++ hashFields h.salt h.output)) := by
  rw [hashFields, ← List.append_assoc]
  rfl

/-- A field that starts like a version is one unless there is a comma in it. -/
theorem takeVersion?_eq_some_iff : takeVersion? fs = some (version, rest) ↔
    fs = versionFields version ++ rest ∧ (∀ n, version = some n → n ≤ Cost.maxWord) ∧
      (version = none → ∀ s more, rest = ('v' :: '=' :: s) :: more → ',' ∈ s) := by
  unfold takeVersion?
  split
  · next s fs =>
    by_cases hcomma : ',' ∈ s
    · rw [if_pos hcomma]
      constructor
      · rintro ⟨⟩
        exact ⟨rfl, nofun, fun _ _ _ heq => by cases heq; exact hcomma⟩
      · rintro ⟨hfs, -, -⟩
        cases version with
        | none => rw [hfs]; rfl
        | some n =>
          obtain ⟨hs, -⟩ := List.cons.inj hfs
          have hs : s = digits n := by simpa using hs
          have := isDigit_of_mem_digits (hs ▸ hcomma)
          exact absurd this (by decide)
    · rw [if_neg hcomma]
      constructor
      · intro h
        split at h
        · obtain ⟨n, hn, heq⟩ := Option.map_eq_some_iff.1 h
          cases heq
          obtain ⟨rfl, hle⟩ := decimal?_eq_some_iff.1 hn
          exact ⟨rfl, fun _ hm => by cases hm; exact hle, nofun⟩
        · cases h
      · rintro ⟨hfs, hle, hnone⟩
        cases version with
        | none => exact absurd (hnone rfl s fs hfs.symm) hcomma
        | some n =>
          obtain ⟨hs, rfl⟩ := List.cons.inj hfs
          have hs : s = digits n := by simpa using hs
          rw [if_pos (hs ▸ isValue_digits (hle n rfl)),
            decimal?_eq_some_iff.2 ⟨hs, hle n rfl⟩]
          rfl
  · next hother =>
    constructor
    · rintro ⟨⟩
      exact ⟨rfl, nofun, fun _ s more heq => absurd heq (hother s more)⟩
    · rintro ⟨rfl, -, -⟩
      cases version with
      | none => rfl
      | some n => exact absurd rfl (hother (digits n) rest)

theorem parameterFields_of_ne_nil (hps : ps ≠ []) :
    parameterFields ps = [joined ',' (ps.map assignment)] := by
  simp [parameterFields, hps]

theorem mem_joined_assignment (hps : ps ≠ []) : '=' ∈ joined ',' (ps.map assignment) := by
  cases ps with
  | nil => exact absurd rfl hps
  | cons p ps => cases ps <;> simp [joined, assignment]

/-- A field of parameters is told by an equals sign. -/
theorem takeParameters?_eq_some_iff : takeParameters? fs = some (ps, rest) ↔
    fs = parameterFields ps ++ rest ∧
      ((joined ',' (ps.map assignment)).length ≤ maxParameterLength ∧
        ∀ p ∈ ps, isName p.1 ∧ isValue p.2) ∧
      (ps = [] → ∀ f more, rest = f :: more → '=' ∉ f) := by
  unfold takeParameters?
  split
  · next f fs =>
    by_cases hequals : '=' ∈ f
    · rw [if_pos hequals]
      constructor
      · intro h
        obtain ⟨qs, hqs, heq⟩ := Option.map_eq_some_iff.1 h
        cases heq
        obtain ⟨hne, rfl, hlength, hall⟩ := parameters?_eq_some_iff.1 hqs
        rw [parameterFields_of_ne_nil hne]
        exact ⟨rfl, ⟨hlength, hall⟩, fun hnil => absurd hnil hne⟩
      · rintro ⟨hfs, ⟨hlength, hall⟩, hnone⟩
        by_cases hne : ps = []
        · subst hne
          exact absurd hequals (hnone rfl f fs hfs.symm)
        · rw [parameterFields_of_ne_nil hne] at hfs
          obtain ⟨rfl, rfl⟩ := List.cons.inj hfs
          rw [parameters?_eq_some_iff.2 ⟨hne, rfl, hlength, hall⟩]
          rfl
    · rw [if_neg hequals]
      constructor
      · rintro ⟨⟩
        exact ⟨rfl, ⟨Nat.zero_le _, nofun⟩, fun _ _ _ heq => by cases heq; exact hequals⟩
      · rintro ⟨hfs, -, -⟩
        by_cases hne : ps = []
        · subst hne
          rw [hfs]
          rfl
        · rw [parameterFields_of_ne_nil hne] at hfs
          obtain ⟨rfl, -⟩ := List.cons.inj hfs
          exact absurd (mem_joined_assignment hne) hequals
  · constructor
    · rintro ⟨⟩
      exact ⟨rfl, ⟨Nat.zero_le _, nofun⟩, nofun⟩
    · rintro ⟨hfs, -, -⟩
      obtain ⟨hps, rfl⟩ := List.append_eq_nil_iff.1 hfs.symm
      by_cases hne : ps = []
      · rw [hne]
      · simp [parameterFields_of_ne_nil hne] at hps

theorem salt?_eq_some_iff {salt : List Char} :
    salt? s = some salt ↔ s = salt ∧ 4 ≤ salt.length ∧ isValue salt := by
  unfold salt?
  split
  · next hs =>
    rw [Option.some.injEq]
    exact ⟨fun h => ⟨h, h ▸ hs⟩, And.left⟩
  · next hs => exact ⟨nofun, fun ⟨heq, hvalid⟩ => absurd (heq ▸ hvalid) hs⟩

theorem output?_eq_some_iff {bs : List UInt8} : output? s = some bs ↔
    s = Base64.encodeUnpadded .standard bs ∧ 10 ≤ bs.length ∧ bs.length ≤ 64 := by
  rw [output?, Option.filter_eq_some_iff, Base64.decodeUnpadded?_eq_some_iff, decide_eq_true_eq]

theorem takeHash?_eq_some_iff : takeHash? fs = some (salt, output) ↔
    fs = hashFields salt output ∧ (∀ s, salt = some s → 4 ≤ s.length ∧ isValue s) ∧
      ∀ bs, output = some bs → salt.isSome ∧ 10 ≤ bs.length ∧ bs.length ≤ 64 := by
  constructor
  · intro h
    unfold takeHash? at h
    split at h
    · cases h
      exact ⟨rfl, nofun, nofun⟩
    · obtain ⟨s, hs, heq⟩ := Option.map_eq_some_iff.1 h
      cases heq
      obtain ⟨rfl, hvalid⟩ := salt?_eq_some_iff.1 hs
      exact ⟨rfl, fun _ heq => by cases heq; exact hvalid, nofun⟩
    · obtain ⟨s, hs, h⟩ := Option.bind_eq_some_iff.1 h
      obtain ⟨bs, hbs, heq⟩ := Option.bind_eq_some_iff.1 h
      cases heq
      obtain ⟨rfl, hvalid⟩ := salt?_eq_some_iff.1 hs
      obtain ⟨rfl, hlength⟩ := output?_eq_some_iff.1 hbs
      exact ⟨rfl, fun _ heq => by cases heq; exact hvalid,
        fun _ heq => by cases heq; exact ⟨rfl, hlength⟩⟩
    · cases h
  · rintro ⟨rfl, hsalt, houtput⟩
    cases salt with
    | none =>
      cases output with
      | none => rfl
      | some bs => cases (houtput bs rfl).1
    | some s =>
      have hs := salt?_eq_some_iff.2 ⟨rfl, hsalt s rfl⟩
      cases output with
      | none => simp [hashFields, takeHash?, hs]
      | some bs =>
        have hbs := output?_eq_some_iff.2 ⟨rfl, (houtput bs rfl).2⟩
        simp [hashFields, takeHash?, hs, hbs]

/-! ### Whole texts -/

theorem isValueChar_of_mem_encodeUnpadded {bs : List UInt8}
    (hc : c ∈ Base64.encodeUnpadded .standard bs) : isValueChar c := by
  have hall : ∀ v : Fin 64, isValueChar (Base64.Alphabet.standard.symbol v) = true := by
    decide +kernel
  obtain ⟨v, hv, rfl⟩ := List.mem_map.1 hc
  exact hall ⟨v, Base64.lt_of_mem_split hv⟩

theorem WellFormed.not_mem_of_mem_fields (hh : h.WellFormed) {f : List Char}
    (hf : f ∈ [] :: h.algorithm ::
      (versionFields h.version ++ parameterFields h.parameters ++ hashFields h.salt h.output)) :
    '$' ∉ f := by
  have hname : isNameChar '$' = false := by decide
  have hvalue : isValueChar '$' = false := by decide
  simp only [List.mem_cons, List.mem_append, hashFields, Option.mem_toList, List.mem_map,
    versionFields] at hf
  rcases hf with rfl | rfl | (⟨n, hn, rfl⟩ | hf) | hs | ⟨bs, hbs, rfl⟩
  · simp
  · exact not_mem_of_isName hh.algorithm hname
  · have hdigits := not_mem_of_isValue (isValue_digits (hh.version n hn)) hvalue
    simpa using hdigits
  · by_cases hne : h.parameters = []
    · simp [parameterFields, hne] at hf
    rw [parameterFields_of_ne_nil hne, List.mem_singleton] at hf
    rintro hmem
    rcases mem_joined (hf ▸ hmem) with hcomma | ⟨a, ha, hmem⟩
    · exact absurd hcomma (by decide)
    · obtain ⟨p, hp, rfl⟩ := List.mem_map.1 ha
      obtain ⟨hn, hv⟩ := hh.parameters p hp
      exact not_mem_assignment hn hv (by decide) hname hvalue hmem
  · exact not_mem_of_isValue (hh.salt f hs).2 hvalue
  · intro hmem
    rw [isValueChar_of_mem_encodeUnpadded hmem] at hvalue
    cases hvalue

/-- After the parameters there is a salt, which has no equals sign. -/
theorem WellFormed.not_mem_of_hashFields (hh : h.WellFormed) {f : List Char} {more}
    (heq : hashFields h.salt h.output = f :: more) : '=' ∉ f := by
  cases hsalt : h.salt with
  | none =>
    cases houtput : h.output with
    | none => simp [hsalt, houtput, hashFields] at heq
    | some bs => simpa [hsalt] using (hh.output bs houtput).1
  | some t =>
    rw [hsalt] at heq
    obtain ⟨rfl, -⟩ := List.cons.inj heq
    exact not_mem_of_isValue (hh.salt t hsalt).2 (by decide)

/-- Of a well-formed hash without a version no field would be taken for one. -/
theorem WellFormed.comma_mem (hh : h.WellFormed) (hversion : h.version = none) {more}
    (heq : parameterFields h.parameters ++ hashFields h.salt h.output = ('v' :: '=' :: s) :: more) :
    ',' ∈ s := by
  rcases hps : h.parameters with _ | ⟨p, _ | ⟨q, ps⟩⟩
  · -- a salt has no equals sign
    have hhash : hashFields h.salt h.output = ('v' :: '=' :: s) :: more := by
      simpa [hps, parameterFields] using heq
    exact absurd (by simp) (hh.not_mem_of_hashFields hhash)
  · -- a single parameter is not named like the version
    obtain ⟨hname, -⟩ := hh.parameters p (by simp [hps])
    have hp : assignment p = 'v' :: '=' :: s := by
      simp only [hps, parameterFields] at heq
      exact (List.cons.inj heq).1
    have hfields : p.1 :: fields '=' p.2 = ['v'] :: fields '=' s := by
      rw [← fields_append_cons (not_mem_of_isName hname (by decide))]
      exact congrArg (fields '=') hp
    have hv : p = (['v'], p.2) := Prod.ext (List.cons.inj hfields).1 rfl
    exact absurd (hv ▸ hps) (hh.unambiguous hversion p.2)
  · -- several parameters have commas between them
    have hmem : ',' ∈ 'v' :: '=' :: s := by
      simp only [hps, parameterFields] at heq
      rw [← (List.cons.inj heq).1]
      simp [joined]
    simpa using hmem

/-- A text is read as a hash exactly if it is the text of that hash. -/
theorem parse?_eq_some_iff : parse? s = some h ↔ h.WellFormed ∧ s = h.write := by
  unfold parse?
  constructor
  · intro hparse
    split at hparse
    · next algorithm fs hfields =>
      split at hparse
      · next halgorithm =>
        obtain ⟨⟨version, fs₁⟩, hversion, hparse⟩ := Option.bind_eq_some_iff.1 hparse
        obtain ⟨⟨ps, fs₂⟩, hps, hparse⟩ := Option.bind_eq_some_iff.1 hparse
        obtain ⟨⟨salt, output⟩, hhash, hparse⟩ := Option.bind_eq_some_iff.1 hparse
        cases hparse
        obtain ⟨rfl, hv, hcomma⟩ := takeVersion?_eq_some_iff.1 hversion
        obtain ⟨rfl, ⟨hshort, hall⟩, -⟩ := takeParameters?_eq_some_iff.1 hps
        obtain ⟨rfl, hsalt, houtput⟩ := takeHash?_eq_some_iff.1 hhash
        refine ⟨⟨halgorithm, hv, hall, hshort, ?_, hsalt, houtput⟩, ?_⟩
        · rintro hnone value rfl
          have hmem := hcomma hnone value _ rfl
          exact not_mem_of_isValue (hall _ (List.mem_singleton_self _)).2 (by decide) hmem
        · rw [write_eq, List.append_assoc, ← hfields, joined_fields]
      · cases hparse
    · cases hparse
  · rintro ⟨hh, rfl⟩
    have hfields := (fields_eq_iff (by simp)).2
      ⟨write_eq h, fun _ => hh.not_mem_of_mem_fields⟩
    rw [List.append_assoc] at hfields
    have hversion := takeVersion?_eq_some_iff.2
      ⟨rfl, hh.version, fun hnone _ _ heq => hh.comma_mem hnone heq⟩
    have hparameters := takeParameters?_eq_some_iff.2
      ⟨rfl, ⟨hh.short, hh.parameters⟩, fun _ _ _ heq => hh.not_mem_of_hashFields heq⟩
    have hhash := takeHash?_eq_some_iff.2 ⟨rfl, hh.salt, hh.output⟩
    simp only [hfields, if_pos hh.algorithm, hversion, hparameters, hhash, Option.bind_eq_bind,
      Option.bind_some]
    rfl

end Accounts.Hasher.Phc
