import AthenaVoice.Lib.Decimal

/-
  Spoken durations — `skills-timer/src/duration.rs`

  A duration is two words, an amount and a unit. The amount is any u64 in
  digits, or a number word up to ten; the product of the two is computed on u64
  without a check, so a build that checks arithmetic panics where it overflows
  and one that does not wraps. Parsing has three outcomes then: `none` for the
  panic, `some none` for a phrase that is no duration, and the seconds.

  French and English read the same way, from different words.

  What is proved:
    1. `parseDuration_fits`, `parseDuration_overflow`, `parseDuration_unspoken` —
       the outcome, from what the phrase says; `parseDuration_some`, back.
    2. `exactOn_iff` — the outcome is the exact product or nothing exactly when
       the product of what is said is below 2^64.

  Correspondence (Rust ↔ Lean):
    `parse_fr_duration`, `parse_en_duration`     `parseFrDuration`, `parseEnDuration`
    `parse_amount`, `parse_amount_en`            `parseAmount`, `parseAmountEn`
    `parse_unit_seconds`, `…_en`                 `parseUnitSeconds`, `parseUnitSecondsEn`
-/

namespace AthenaVoice.Skills.Timer

open Lib

/-- `a * b` on u64; `none` is the panic of a build that checks arithmetic. -/
def mulU64 (checks : Bool) (a b : Nat) : Option Nat :=
  if a * b < 2 ^ 64 then some (a * b) else if checks then none else some (a * b % 2 ^ 64)

/-- The arms of a `match` over words, each with the words it is for. -/
abbrev Arms := List (List Text × Nat)

/-- What the first arm for the word gives. -/
def matchArms (arms : Arms) (word : Text) : Option Nat := (arms.find? (fun arm => arm.1.contains word)).map Prod.snd

/-- A number in digits, or a number word of the table. -/
def amountOf (arms : Arms) (u : Unicode) (word : Text) : Option Nat :=
  (parseU64 word).or (matchArms arms (u.toLowercase word))

/-- The arms of `parse_amount`. -/
def amountArms : Arms :=
  [(["un".toList, "une".toList], 1), (["deux".toList], 2), (["trois".toList], 3), (["quatre".toList], 4),
    (["cinq".toList], 5), (["six".toList], 6), (["sept".toList], 7), (["huit".toList], 8), (["neuf".toList], 9),
    (["dix".toList], 10)]

/-- The arms of `parse_amount_en`. -/
def amountArmsEn : Arms :=
  [(["a".toList, "an".toList, "one".toList], 1), (["two".toList], 2), (["three".toList], 3), (["four".toList], 4),
    (["five".toList], 5), (["six".toList], 6), (["seven".toList], 7), (["eight".toList], 8), (["nine".toList], 9),
    (["ten".toList], 10)]

/-- The arms of `parse_unit_seconds`. -/
def unitArms : Arms :=
  [(["seconde".toList, "secondes".toList], 1), (["minute".toList, "minutes".toList], 60),
    (["heure".toList, "heures".toList], 3600)]

/-- The arms of `parse_unit_seconds_en`. -/
def unitArmsEn : Arms :=
  [(["second".toList, "seconds".toList], 1), (["minute".toList, "minutes".toList], 60),
    (["hour".toList, "hours".toList], 3600)]

def parseAmount (u : Unicode) (word : Text) : Option Nat := amountOf amountArms u word

def parseAmountEn (u : Unicode) (word : Text) : Option Nat := amountOf amountArmsEn u word

def parseUnitSeconds (u : Unicode) (word : Text) : Option Nat := matchArms unitArms (u.toLowercase word)

def parseUnitSecondsEn (u : Unicode) (word : Text) : Option Nat := matchArms unitArmsEn (u.toLowercase word)

/-- Two words and no third, read by `amount` and by `unitSeconds`. -/
def parseDuration (checks : Bool) (amount unitSeconds : Text → Option Nat) (text : Text) : Option (Option Nat) :=
  match Str.splitWhitespace text with
  | [amountWord, unitWord] =>
    match amount amountWord, unitSeconds unitWord with
    | some a, some s => (mulU64 checks a s).map some
    | _, _ => some none
  | _ => some none

def parseFrDuration (checks : Bool) (u : Unicode) (text : Text) : Option (Option Nat) :=
  parseDuration checks (parseAmount u) (parseUnitSeconds u) text

def parseEnDuration (checks : Bool) (u : Unicode) (text : Text) : Option (Option Nat) :=
  parseDuration checks (parseAmountEn u) (parseUnitSecondsEn u) text

example : parseFrDuration true .ascii "Deux heures".toList = some (some 7200) ∧
    parseEnDuration true .ascii "an  hour".toList = some (some 3600) ∧
    parseFrDuration true .ascii "deux jours".toList = some none := by decide

/-! ## What a phrase says -/

/-- The phrase says `d` seconds: an amount and a unit whose product, in the
natural numbers, is `d`. -/
def Spoken (amount unitSeconds : Text → Option Nat) (text : Text) (d : Nat) : Prop :=
  ∃ amountWord unitWord a s, Str.splitWhitespace text = [amountWord, unitWord] ∧ amount amountWord = some a ∧
    unitSeconds unitWord = some s ∧ d = a * s

def SpokenFr (u : Unicode) : Text → Nat → Prop := Spoken (parseAmount u) (parseUnitSeconds u)

def SpokenEn (u : Unicode) : Text → Nat → Prop := Spoken (parseAmountEn u) (parseUnitSecondsEn u)

/-- What is said, if anything is, fits a u64. -/
def Fits (said : Nat → Prop) : Prop := ∀ d, said d → d < 2 ^ 64

/-- Parsing returned, and returned nothing or exactly what is said. -/
def ExactOn (said : Nat → Prop) (outcome : Option (Option Nat)) : Prop :=
  outcome = some none ∨ ∃ d, said d ∧ outcome = some (some d)

/-! ## Parsing -/

section Parsing

variable {checks : Bool} {amount unitSeconds : Text → Option Nat} {text : Text}

theorem Spoken.unique {d d' : Nat} (h : Spoken amount unitSeconds text d) (h' : Spoken amount unitSeconds text d') :
    d = d' := by
  obtain ⟨w, v, a, s, hwords, ha, hs, rfl⟩ := h
  obtain ⟨w', v', a', s', hwords', ha', hs', rfl⟩ := h'
  rw [hwords] at hwords'
  cases hwords'
  rw [ha] at ha'
  rw [hs] at hs'
  cases ha'
  cases hs'
  rfl

theorem parseDuration_spoken {d : Nat} (h : Spoken amount unitSeconds text d) :
    ∃ a s, d = a * s ∧ parseDuration checks amount unitSeconds text = (mulU64 checks a s).map some := by
  obtain ⟨w, v, a, s, hwords, ha, hs, rfl⟩ := h
  refine ⟨a, s, rfl, ?_⟩
  unfold parseDuration
  rw [hwords]
  show (match amount w, unitSeconds v with
    | some a, some s => (mulU64 checks a s).map some
    | _, _ => some none) = _
  rw [ha, hs]

theorem parseDuration_unspoken (h : ∀ d, ¬ Spoken amount unitSeconds text d) :
    parseDuration checks amount unitSeconds text = some none := by
  unfold parseDuration
  split
  · rename_i w v hwords
    split
    · rename_i a s ha hs
      exact absurd ⟨w, v, a, s, hwords, ha, hs, rfl⟩ (h (a * s))
    · rfl
  · rfl

theorem parseDuration_fits {d : Nat} (h : Spoken amount unitSeconds text d) (hfits : d < 2 ^ 64) :
    parseDuration checks amount unitSeconds text = some (some d) := by
  obtain ⟨a, s, rfl, hparse⟩ := parseDuration_spoken h
  rw [hparse, mulU64, if_pos hfits]
  rfl

/-- What does not fit is not read: the build panics or reads less. -/
theorem parseDuration_overflow {d : Nat} (h : Spoken amount unitSeconds text d) (hover : ¬ d < 2 ^ 64) :
    parseDuration checks amount unitSeconds text = if checks then none else some (some (d % 2 ^ 64)) := by
  obtain ⟨a, s, rfl, hparse⟩ := parseDuration_spoken h
  rw [hparse, mulU64, if_neg hover]
  cases checks <;> rfl

/-- What is read as a number of seconds is what is said, unless the build does
not check arithmetic and what is said does not fit. -/
theorem parseDuration_some {n : Nat} (h : parseDuration checks amount unitSeconds text = some (some n)) :
    ∃ d, Spoken amount unitSeconds text d ∧ (n = d ∨ (checks = false ∧ ¬ d < 2 ^ 64)) := by
  by_cases hsaid : ∃ d, Spoken amount unitSeconds text d
  · obtain ⟨d, hd⟩ := hsaid
    refine ⟨d, hd, ?_⟩
    by_cases hfits : d < 2 ^ 64
    · rw [parseDuration_fits hd hfits] at h
      exact Or.inl (Option.some.inj (Option.some.inj h)).symm
    · rw [parseDuration_overflow hd hfits] at h
      cases checks with
      | true => cases h
      | false => exact Or.inr ⟨rfl, hfits⟩
  · rw [parseDuration_unspoken (fun d hd => hsaid ⟨d, hd⟩)] at h
    cases h

/-- **Parsing is exact** exactly when what is said fits. -/
theorem exactOn_iff : ExactOn (Spoken amount unitSeconds text) (parseDuration checks amount unitSeconds text) ↔
    Fits (Spoken amount unitSeconds text) := by
  constructor
  · intro hexact d hd
    by_contra hover
    rw [parseDuration_overflow hd hover] at hexact
    cases checks with
    | true => rcases hexact with hnone | ⟨d', -, hsome⟩ <;> contradiction
    | false =>
      rcases hexact with hnone | ⟨d', hd', hsome⟩
      · cases hnone
      · -- the product wrapped is not the product
        have hmod := Nat.mod_lt d (show 0 < 2 ^ 64 by decide)
        have hwrapped : d % 2 ^ 64 = d' := Option.some.inj (Option.some.inj hsome)
        have hsame := hd.unique hd'
        omega
  · intro hfits
    by_cases hsaid : ∃ d, Spoken amount unitSeconds text d
    · obtain ⟨d, hd⟩ := hsaid
      exact Or.inr ⟨d, hd, parseDuration_fits hd (hfits d hd)⟩
    · exact Or.inl (parseDuration_unspoken (fun d hd => hsaid ⟨d, hd⟩))

end Parsing

end AthenaVoice.Skills.Timer
