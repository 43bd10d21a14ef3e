import AthenaVoice.Intent.Engine
import Mathlib.Data.List.Infix

/-
  The text a slot is given — `intent/engine.rs`

  The walk finds the literals in the lower-cased utterance, and cuts the text
  of a slot out of the original one at the byte offsets found there. Lower case
  may take another number of bytes ("İ" takes two, its lower case three), and
  then the offsets mark another text.

  What is proved:
    1. `mem_slots_of_walk` — every value of a slot was cut out where the walk
       met that slot.
    2. `slots_aligned` — each value is a trimmed part of the utterance, of the
       slot's kind, and its lower case stands between the literals, when the
       offsets mark the same part in both texts.
    3. `city_cut_off` — a letter that grows in front of the literals: the city
       loses its first letter.
-/

namespace AthenaVoice.Intent

open Lib Lib.Str Sdk

/-! ## What the walk reaches -/

/-- From some segments and a walk, the loop comes to the rest of the segments
with another. -/
inductive Reaches (U : Unicode) (rule : HostPatternRule) (input n : Text) :
    List Segment → Walk → List Segment → Walk → Prop where
  | refl (segments w) : Reaches U rule input n segments w segments w
  | literal {lit rest w w₁ rest' w'} (hstep : walkLiteral U n lit w = .ok (some w₁))
      (hrest : Reaches U rule input n rest w₁ rest' w') :
      Reaches U rule input n (.literal lit :: rest) w rest' w'
  | slot {name rest w w₁ rest' w'} (hstep : walkSlot U rule input n name rest.head? w = .ok w₁)
      (hrest : Reaches U rule input n rest w₁ rest' w') :
      Reaches U rule input n (.slot name :: rest) w rest' w'

/-- The walk as `try_match_phrase` begins it. -/
def Walk.start : Walk := { cursor := 0, slots := [], filledPhrase := [] }

/-- Matching the phrase, the walk meets the slot with the cursor at `start`,
the next literal is found at `stop` (or the utterance ends there), and the
slot is given the value `raw`. -/
def SlotTaken (U : Unicode) (phrase : Text) (rule : HostPatternRule) (input name raw : Text)
    (start stop : Nat) : Prop :=
  ∃ rest w, Reaches U rule input (U.toLowercase input) (splitPhrase phrase) Walk.start (.slot name :: rest) w ∧
    w.cursor = start ∧ slotEnd U (U.toLowercase input) rest.head? start = .ok stop ∧
    (getRange input start stop).map trim = some raw ∧ raw ≠ [] ∧ slotMatchesKind raw rule name = true

/-- The value is a trimmed part of the utterance, the lower case of that part
stands between the two places of the lower-cased utterance, and it is of the
slot's kind. -/
def Aligned (U : Unicode) (rule : HostPatternRule) (input name raw : Text) (start stop : Nat) : Prop :=
  ∃ part, part <:+: input ∧ raw = trim part ∧
    getRange (U.toLowercase input) start stop = some (U.toLowercase part) ∧ slotMatchesKind raw rule name = true

/-- Every value that the match gives a slot is aligned with the places where
its neighbours were found. -/
def SlotsAligned (F : Floats) (U : Unicode) (S : Strsim) (phrase : Text) (rule : HostPatternRule)
    (input : Text) : Prop :=
  ∀ m, tryMatchPhrase F U S phrase rule input = .ok (some m) → ∀ name raw, (name, some raw) ∈ m.intent.slots →
    ∃ start stop, SlotTaken U phrase rule input name raw start stop ∧ Aligned U rule input name raw start stop

/-- The byte offsets mark the same part in the text and in its lower case. -/
def SamePart (U : Unicode) (s : Text) (start stop : Nat) : Prop :=
  ∃ pre part post, s = pre ++ part ++ post ∧
    U.toLowercase s = U.toLowercase pre ++ U.toLowercase part ++ U.toLowercase post ∧
    len pre = start ∧ len (pre ++ part) = stop ∧
    len (U.toLowercase pre) = start ∧ len (U.toLowercase pre ++ U.toLowercase part) = stop

/-- Wherever a slot is given a value, the offsets mark the same part in both texts. -/
def OffsetsAgree (U : Unicode) (phrase : Text) (rule : HostPatternRule) (input : Text) : Prop :=
  ∀ name raw start stop, SlotTaken U phrase rule input name raw start stop → SamePart U input start stop

section

variable {U : Unicode} {rule : HostPatternRule} {input n : Text}

theorem mem_insert {k k' : Text} {v v' : Option Text} : ∀ {slots : Slots},
    (k', v') ∈ slots.insert k v → (k' = k ∧ v' = v) ∨ (k', v') ∈ slots := by
  intro slots
  induction slots with
  | nil =>
    intro h
    simpa [Slots.insert] using h
  | cons e rest ih =>
    obtain ⟨k₁, v₁⟩ := e
    intro h
    unfold Slots.insert at h
    split at h
    · rcases List.mem_cons.mp h with h | h
      · cases h
        exact Or.inl ⟨rfl, rfl⟩
      · exact Or.inr (List.mem_cons_of_mem _ h)
    · split at h
      · rcases List.mem_cons.mp h with h | h
        · cases h
          exact Or.inl ⟨rfl, rfl⟩
        · exact Or.inr h
      · rcases List.mem_cons.mp h with h | h
        · exact Or.inr (List.mem_cons.mpr (Or.inl h))
        · exact (ih h).imp_right (List.mem_cons_of_mem _)

theorem walkLiteral_slots {lit : Text} {w w' : Walk} (h : walkLiteral U n lit w = .ok (some w')) :
    w'.slots = w.slots := by
  unfold walkLiteral at h
  simp only at h
  split at h
  · cases h
  · split at h
    · cases h
      rfl
    · split at h
      · cases h
      · cases h
        rfl

theorem walkSlot_cases {name : Text} {next : Option Segment} {w w' : Walk}
    (h : walkSlot U rule input n name next w = .ok w') :
    w'.slots = w.slots.insert name none ∨
      ∃ raw stop, slotEnd U n next w.cursor = .ok stop ∧ (getRange input w.cursor stop).map trim = some raw ∧
        raw ≠ [] ∧ slotMatchesKind raw rule name = true ∧ w'.slots = w.slots.insert name (some raw) := by
  unfold walkSlot at h
  split at h
  · cases h
  · rename_i stop hstop
    split at h
    · cases h
      exact Or.inl rfl
    · rename_i raw hraw
      split at h
      · rename_i hok
        cases h
        simp only [Bool.and_eq_true, Bool.not_eq_true', List.isEmpty_eq_false_iff] at hok
        exact Or.inr ⟨raw, stop, hstop, hraw, hok.1, hok.2, rfl⟩
      · cases h
        exact Or.inl rfl

/-- **Where a value comes from.** It was there before, or the walk gave it when
it met the slot. -/
theorem mem_slots_of_walk {name raw : Text} : ∀ (segments : List Segment) (w w' : Walk),
    walk U rule input n segments w = .ok (some w') → (name, some raw) ∈ w'.slots →
    (name, some raw) ∈ w.slots ∨ ∃ rest w₁ stop, Reaches U rule input n segments w (.slot name :: rest) w₁ ∧
      slotEnd U n rest.head? w₁.cursor = .ok stop ∧ (getRange input w₁.cursor stop).map trim = some raw ∧
      raw ≠ [] ∧ slotMatchesKind raw rule name = true := by
  intro segments
  induction segments with
  | nil =>
    intro w w' h hmem
    cases h
    exact Or.inl hmem
  | cons seg segments ih =>
    intro w w' h hmem
    cases seg with
    | literal lit =>
      simp only [walk] at h
      split at h
      · cases h
      · cases h
      · rename_i w₁ hw₁
        rcases ih w₁ w' h hmem with hbefore | ⟨rest, w₂, stop, hreach, htaken⟩
        · exact Or.inl (walkLiteral_slots hw₁ ▸ hbefore)
        · exact Or.inr ⟨rest, w₂, stop, .literal hw₁ hreach, htaken⟩
    | slot name' =>
      simp only [walk] at h
      split at h
      · cases h
      · rename_i w₁ hw₁
        rcases ih w₁ w' h hmem with hbefore | ⟨rest, w₂, stop, hreach, htaken⟩
        · rcases walkSlot_cases hw₁ with hslots | ⟨raw', stop, hstop, hraw, hne, hkind, hslots⟩
          · rw [hslots] at hbefore
            rcases mem_insert hbefore with ⟨-, hnull⟩ | hbefore
            · cases hnull
            · exact Or.inl hbefore
          · rw [hslots] at hbefore
            rcases mem_insert hbefore with ⟨hname, hval⟩ | hbefore
            · cases hname
              cases hval
              exact Or.inr ⟨segments, w, stop, .refl _ _, hstop, hraw, hne, hkind⟩
            · exact Or.inl hbefore
        · exact Or.inr ⟨rest, w₂, stop, .slot hw₁ hreach, htaken⟩

theorem slotTaken_of_match {S : Strsim} {phrase name raw : Text} {m : IntentMatch}
    (h : tryMatchPhrase F U S phrase rule input = .ok (some m)) (hmem : (name, some raw) ∈ m.intent.slots) :
    ∃ start stop, SlotTaken U phrase rule input name raw start stop := by
  unfold tryMatchPhrase at h
  simp only at h
  split at h
  · cases h
    cases hmem
  · split at h
    · cases h
    · cases h
    · rename_i w hw
      cases h
      rcases mem_slots_of_walk _ _ _ hw hmem with hbefore | ⟨rest, w₁, stop, hreach, htaken⟩
      · cases hbefore
      · exact ⟨w₁.cursor, stop, rest, w₁, hreach, rfl, htaken⟩

theorem aligned_of_samePart {phrase name raw : Text} {start stop : Nat}
    (h : SlotTaken U phrase rule input name raw start stop) (hsame : SamePart U input start stop) :
    Aligned U rule input name raw start stop := by
  obtain ⟨rest, w, -, -, -, hraw, -, hkind⟩ := h
  obtain ⟨pre, part, post, hinput, hlower, rfl, rfl, hstart, hstop⟩ := hsame
  refine ⟨part, ⟨pre, post, hinput.symm⟩, ?_, ?_, hkind⟩
  · rw [hinput, getRange_append] at hraw
    cases hraw
    rfl
  · rw [hlower, ← hstart, ← hstop]
    exact getRange_append _ _ _

end

/-- **Slots.** Where every slot's offsets mark the same part in the utterance
and in its lower case, the values are the texts between the literals. -/
theorem slots_aligned (F : Floats) (U : Unicode) (S : Strsim) (phrase : Text) (rule : HostPatternRule) (input : Text)
    (h : OffsetsAgree U phrase rule input) : SlotsAligned F U S phrase rule input := by
  intro m hm name raw hmem
  obtain ⟨start, stop, htaken⟩ := slotTaken_of_match hm hmem
  exact ⟨start, stop, htaken, aligned_of_samePart htaken (h name raw start stop htaken)⟩

/-! ## Texts that keep their lengths -/

/-- Each part of the text has its own lower case, of as many bytes. -/
def LowersInPlace (U : Unicode) (s : Text) : Prop :=
  ∀ pre part post, s = pre ++ part ++ post →
    U.toLowercase s = U.toLowercase pre ++ U.toLowercase part ++ U.toLowercase post ∧
      len (U.toLowercase pre) = len pre ∧ len (U.toLowercase part) = len part

theorem offsetsAgree_of_lowersInPlace {U : Unicode} {input : Text} (h : LowersInPlace U input) (phrase : Text)
    (rule : HostPatternRule) : OffsetsAgree U phrase rule input := by
  intro name raw start stop htaken
  obtain ⟨rest, w, -, -, -, hraw, -⟩ := htaken
  obtain ⟨part, hpart, -⟩ := Option.map_eq_some_iff.mp hraw
  obtain ⟨pre, post, hinput, hstart, hstop⟩ := getRange_eq_some hpart
  obtain ⟨hlower, hpre, hlen⟩ := h pre part post hinput
  refine ⟨pre, part, post, hinput, hlower, hstart, hstop, hpre.trans hstart, ?_⟩
  rw [len_append, hpre, hlen, ← len_append]
  exact hstop

theorem utf8Size_toLower (c : Char) : c.toLower.utf8Size = c.utf8Size := by
  unfold Char.toLower
  split
  · rename_i h
    obtain ⟨hA, hZ⟩ := h
    rw [ge_iff_le, UInt32.le_iff_toNat_le] at hA
    rw [UInt32.le_iff_toNat_le] at hZ
    have h65 : 'A'.val.toNat = 65 := rfl
    have h90 : 'Z'.val.toNat = 90 := rfl
    have hc : c.val ≤ 127 := by
      rw [UInt32.le_iff_toNat_le]
      show c.val.toNat ≤ 127
      omega
    have hlower : c.val + ('a'.val - 'A'.val) ≤ 127 := by
      rw [UInt32.le_iff_toNat_le, UInt32.toNat_add]
      show (c.val.toNat + 32) % 4294967296 ≤ 127
      omega
    rw [Char.utf8Size_eq_one_iff.mpr hc]
    exact Char.utf8Size_eq_one_iff.mpr hlower
  · rfl

theorem lowersInPlace_ascii (s : Text) : LowersInPlace Unicode.ascii s := by
  have hlen : ∀ t : Text, len (t.map Char.toLower) = len t := by
    intro t
    induction t with
    | nil => rfl
    | cons c t ih => rw [List.map_cons, len_cons, len_cons, ih, utf8Size_toLower]
  intro pre part post h
  refine ⟨?_, hlen pre, hlen part⟩
  rw [h]
  show List.map Char.toLower _ = _
  rw [List.map_append, List.map_append]
  rfl

/-! ## A city between two words -/

def cityPhrase : Text := "in \x7bcity\x7d now".toList

def cityRule : HostPatternRule :=
  { intent := "weather".toList, phrases := [cityPhrase], slots := [{ name := "city".toList, kind := .string }] }

/-- In ASCII the city is what stands between the words. -/
theorem city_aligned : OffsetsAgree Unicode.ascii cityPhrase cityRule "well, in Rome now".toList ∧
    SlotsAligned .ieee Unicode.ascii Strsim.reference cityPhrase cityRule "well, in Rome now".toList := by
  have hagree := offsetsAgree_of_lowersInPlace (lowersInPlace_ascii "well, in Rome now".toList) cityPhrase cityRule
  exact ⟨hagree, slots_aligned .ieee Unicode.ascii Strsim.reference cityPhrase cityRule _ hagree⟩

/-- The lower case of a character: that of "İ" is an "i" and a combining dot. -/
def lowerDotted (c : Char) : Text := if c = Char.ofNat 0x130 then ['i', Char.ofNat 0x307] else [c.toLower]

/-- The tables as they are on ASCII text and "İ". -/
def Unicode.dotted : Unicode where
  toLowercase := List.flatMap lowerDotted
  isAlphanumeric c := c.isAlphanum || c = Char.ofNat 0x130
  toLowercase_nil := rfl

def dottedInput : Text := Char.ofNat 0x130 :: " in Rome now".toList

theorem dotted_match : ∃ m, tryMatchPhrase F Unicode.dotted Strsim.reference cityPhrase cityRule dottedInput =
    .ok (some m) ∧
    m.intent.slots = [("city".toList, some "ome".toList)] := ⟨_, rfl, rfl⟩

theorem dotted_places {name raw : Text} {start stop : Nat}
    (h : SlotTaken Unicode.dotted cityPhrase cityRule dottedInput name raw start stop) : start = 7 ∧ stop = 11 := by
  obtain ⟨rest, w, hreach, rfl, hstop, -⟩ := h
  have hsplit : splitPhrase cityPhrase = [.literal "in ".toList, .slot "city".toList, .literal " now".toList] := by
    decide
  rw [hsplit] at hreach
  cases hreach with
  | literal hstep hrest =>
    cases hstep
    cases hrest with
    | refl =>
      cases hstop
      exact ⟨rfl, rfl⟩
    | slot hslot hnow =>
      cases hnow with
      | literal hlit hend => cases hend

/-- The letter in front grows by a byte: "Rome" loses its "R". -/
theorem city_cut_off : ¬ SlotsAligned .ieee Unicode.dotted Strsim.reference cityPhrase cityRule dottedInput := by
  intro h
  obtain ⟨m, hm, hslots⟩ := dotted_match
  have hmem : ("city".toList, some "ome".toList) ∈ m.intent.slots := by
    rw [hslots]
    exact List.mem_cons_self
  obtain ⟨start, stop, htaken, part, hpart, hraw, htext, -⟩ := h m hm _ _ hmem
  obtain ⟨rfl, rfl⟩ := dotted_places htaken
  have hinfix : part ∈ dottedInput.tails.flatMap List.inits := by
    obtain ⟨t, hprefix, hsuffix⟩ := List.infix_iff_prefix_suffix.mp hpart
    exact List.mem_flatMap.mpr ⟨t, (List.mem_tails t _).mpr hsuffix, (List.mem_inits part t).mpr hprefix⟩
  have hnone : ∀ p ∈ dottedInput.tails.flatMap List.inits,
      trim p = "ome".toList → Unicode.dotted.toLowercase p ≠ "rome".toList := by decide
  apply hnone part hinfix hraw.symm
  have hbetween : getRange (Unicode.dotted.toLowercase dottedInput) 7 11 = some "rome".toList := by decide
  rw [hbetween] at htext
  exact (Option.some.inj htext).symm

end AthenaVoice.Intent
