import AthenaVoice.Intent.Engine

/-
  Which candidate wins

  `better` compares within a band: two candidates at most `SPECIFICITY_EPSILON`
  apart are ranked by word count, others by confidence. Word counts inside the
  band are not a refinement of the order by confidence, so `better` is not
  transitive and `find_match`, a left fold, is a selection with a preference
  that has cycles and ties.

  What is proved:
    1. `find_match_exact_phrase` — a locale with a slot-less phrase that says
       the utterance word for word always matches, and with confidence 1 unless
       another phrase inside the band has at least as many words.
    2. `exact_phrase_outranked` — the exception is real: a phrase with a word
       appended outranks the utterance's own phrase.
    3. `find_match_order_independent_iff` — the winner's confidence and
       specificity do not depend on the order of the index when some candidate
       beats every other; when each rule contributes one candidate, only then.
    4. `find_match_order_dependent` — two phrases of equal word count inside the
       band: the one that stands first in the index wins.
-/

namespace AthenaVoice.Intent

open Lib Lib.Str Sdk

theorem better_asymm (F : Floats) (a b : Rank) (h : better F a b) : ¬ better F b a := by
  have hneg : F.f32.round (b.1 - a.1) = -F.f32.round (a.1 - b.1) := by rw [← F.f32.round_neg, neg_sub]
  unfold better at *
  simp only at h ⊢
  rw [hneg, abs_neg]
  split at h
  · rename_i hband
    rw [if_pos hband]
    omega
  · rename_i hband
    rw [if_neg hband]
    intro hba
    linarith

/-! ## The phrase that is the utterance -/

/-- A slot-less phrase of the locale with the normal form of the utterance. An
empty phrase has no segment, and is compared with the utterance as it stands. -/
def ExactPhrase (U : Unicode) (text locale : Text) (index : RuleIndex) : Prop :=
  ∃ entry ∈ index.entries locale, ∃ phrase ∈ entry.1.phrases,
    '{' ∉ phrase ∧ normalizeLiteral U phrase = normalizeLiteral U text ∧ (phrase = [] → text = [])

/-- The exact phrase decides: whenever the locale has one, the match has
confidence 1. -/
def ExactPhraseWins (F : Floats) (U : Unicode) (S : Strsim) (text locale : Text) (index : RuleIndex) : Prop :=
  ExactPhrase U text locale index →
    ∃ m, findMatch F U S text locale index = .ok (some m) ∧ m.confidence = 1

/-- The words of the utterance, symbols stripped. -/
def utteranceWords (U : Unicode) (text : Text) : Nat :=
  (splitWhitespace (normalizeLiteral U text)).length

section

variable (F : Floats) (U : Unicode) (S : Strsim)

/-- A slot-less phrase with the utterance's normal form has confidence 1 and
the utterance's word count. -/
theorem matchLiteral_exact {lit text : Text} (rule : HostPatternRule)
    (h : normalizeLiteral U lit = normalizeLiteral U text) :
    (matchLiteral F U S lit rule text).rank = (1, utteranceWords U text) := by
  have hw := window_le_one F S (normalizeLiteral U text) (normalizeLiteral U text)
  simp only [matchLiteral, IntentMatch.rank, utteranceWords, h, S.normalized_self F]
  rw [max_eq_left hw, F.f32.round_one]

/-- An utterance no longer than the phrase has no window: the whole-string
similarity is the confidence. -/
theorem matchLiteral_confidence {lit text : Text} (rule : HostPatternRule)
    (h : utteranceWords U text ≤ utteranceWords U lit) :
    (matchLiteral F U S lit rule text).confidence =
      F.f32.round (S.normalized F (normalizeLiteral U lit) (normalizeLiteral U text)) := by
  have hw : bestWindowSimilarity F S (normalizeLiteral U lit) (normalizeLiteral U text) = 0 := by
    unfold bestWindowSimilarity
    exact if_pos (Or.inr h)
  simp only [matchLiteral, hw, zero_mul, F.f64.round_zero]
  rw [max_eq_left (S.normalized_nonneg F _ _)]

theorem tryMatchPhrase_literal {phrase lit : Text} (rule : HostPatternRule) (text : Text)
    (h : splitPhrase phrase = [.literal lit]) :
    tryMatchPhrase F U S phrase rule text = .ok (some (matchLiteral F U S lit rule text)) := by
  unfold tryMatchPhrase
  simp only [h]

theorem tryMatchPhrase_nil (rule : HostPatternRule) :
    ∃ c, tryMatchPhrase F U S [] rule [] = .ok (some c) ∧ c.rank = (1, utteranceWords U []) := by
  have hself : F.f32.round (S.normalized F (U.toLowercase []) (U.toLowercase [])) = 1 := by
    rw [S.normalized_self F, F.f32.round_one]
  refine ⟨_, rfl, ?_⟩
  have hwords : utteranceWords U [] = 0 := by
    unfold utteranceWords normalizeLiteral
    rw [U.toLowercase_nil]
    rfl
  rw [hwords]
  exact Prod.ext hself rfl

/-- A slot-less phrase with the utterance's normal form is a candidate of
confidence 1. -/
theorem tryMatchPhrase_exact {phrase text : Text} (rule : HostPatternRule) (hslot : '{' ∉ phrase)
    (hnorm : normalizeLiteral U phrase = normalizeLiteral U text) (hempty : phrase = [] → text = []) :
    ∃ c, tryMatchPhrase F U S phrase rule text = .ok (some c) ∧ c.rank = (1, utteranceWords U text) := by
  have hsplit := splitPhrase_slotless hslot
  cases hphrase : phrase with
  | nil =>
    rw [hempty hphrase]
    exact tryMatchPhrase_nil F U S rule
  | cons c cs =>
    rw [hphrase] at hsplit hnorm
    exact ⟨_, tryMatchPhrase_literal F U S rule text hsplit, matchLiteral_exact F U S rule hnorm⟩

theorem exists_exact_candidate {text locale : Text} {index : RuleIndex}
    (h : ExactPhrase U text locale index) :
    ∃ e ∈ candidates F U S text locale index, e.rank = (1, utteranceWords U text) := by
  obtain ⟨entry, hentry, phrase, hphrase, hslot, hnorm, hempty⟩ := h
  obtain ⟨c, hc, hrank⟩ := tryMatchPhrase_exact F U S entry.1 hslot hnorm hempty
  have hconf : c.confidence = 1 := congrArg Prod.fst hrank
  refine ⟨c.withSkill entry.2, ?_, hrank⟩
  refine (mem_candidates F U S).mpr ⟨entry, hentry, phrase, hphrase, c, hc, ?_, rfl⟩
  rw [hconf]
  exact F.f32.round_le_one (by norm_num)

omit U S in
theorem epsilon_nonneg : 0 ≤ SPECIFICITY_EPSILON F := F.f32.round_nonneg (by norm_num)

/-- **An exact phrase matches.** The winner has confidence 1 and at least the
utterance's words, unless a candidate below 1 but inside the band has as many
words as the utterance. -/
theorem find_match_exact_phrase {text locale : Text} {index : RuleIndex}
    (h : ExactPhrase U text locale index) :
    ∃ m, findMatch F U S text locale index = .ok (some m) ∧
      ((m.confidence = 1 ∧ utteranceWords U text ≤ m.specificity) ∨
        ∃ c ∈ candidates F U S text locale index, 1 - SPECIFICITY_EPSILON F ≤ c.confidence ∧
          c.confidence < 1 ∧ utteranceWords U text ≤ c.specificity) := by
  obtain ⟨e, he, hrank⟩ := exists_exact_candidate F U S h
  have hone_e : e.confidence = 1 := congrArg Prod.fst hrank
  rw [findMatch_eq]
  by_cases hband : ∃ c ∈ candidates F U S text locale index, 1 - SPECIFICITY_EPSILON F ≤ c.confidence ∧
      c.confidence < 1 ∧ utteranceWords U text ≤ c.specificity
  · cases hsel : select IntentMatch.rank (better F) (candidates F U S text locale index) with
    | none =>
      rw [select_eq_none.mp hsel] at he
      cases he
    | some m => exact ⟨m, rfl, Or.inr hband⟩
  · -- inside the band, a candidate with the utterance's words has confidence 1
    have hone : ∀ x ∈ candidates F U S text locale index, 1 - x.confidence ≤ SPECIFICITY_EPSILON F →
        utteranceWords U text ≤ x.specificity → x.confidence = 1 := by
      intro x hx hclose hwords
      by_contra hne
      have hlt := lt_of_le_of_ne (candidate_confidence_le_one hx) hne
      exact hband ⟨x, hx, by linarith, hlt, hwords⟩
    -- the exact candidate is good, what it does not beat is good, and so is what beats a good one
    have hgood := select_good IntentMatch.rank (better F)
      (G := fun k => k.1 = 1 ∧ utteranceWords U text ≤ k.2) he (by rw [hrank]; exact ⟨rfl, le_refl _⟩)
      (by
        intro x hx hunbeaten
        have hle := candidate_confidence_le_one hx
        have hxr : x.rank = (x.confidence, x.specificity) := rfl
        have hdiff := candidate_diff_exact he hx
        rw [hone_e] at hdiff
        rw [hrank, hxr] at hunbeaten
        unfold better at hunbeaten
        simp only at hunbeaten
        rw [hdiff, abs_of_nonneg (by linarith)] at hunbeaten
        split at hunbeaten
        · rename_i hclose
          have hwords : utteranceWords U text ≤ x.specificity := by omega
          exact ⟨hone x hx hclose hwords, hwords⟩
        · rename_i hfar
          have hpos := epsilon_nonneg F
          exact absurd (by linarith) hunbeaten)
      (by
        intro x hx y hy hgood hbt
        have hle := candidate_confidence_le_one hx
        have hxr : x.rank = (x.confidence, x.specificity) := rfl
        have hdiff := candidate_diff_exact hx hy
        have hy₁ : y.confidence = 1 := hgood.1
        rw [hy₁] at hdiff
        rw [hxr] at hbt
        unfold better at hbt
        simp only at hbt
        rw [hgood.1, hdiff, abs_sub_comm, abs_of_nonneg (by linarith)] at hbt
        split at hbt
        · rename_i hclose
          have hwords : utteranceWords U text ≤ x.specificity := hgood.2.trans (le_of_lt hbt)
          exact ⟨hone x hx hclose hwords, hwords⟩
        · exact absurd hbt (by linarith))
    obtain ⟨m, hm, hG⟩ := hgood
    exact ⟨m, by rw [hm], Or.inl hG⟩

end

/-! ### Two phrases inside the band -/

/-- A rule of one phrase without slots, and its skill. -/
def phraseEntry (intent phrase : Text) : RuleEntry :=
  ({ intent := intent, phrases := [phrase], slots := [] }, "lights".toList)

def twoEntries (e e' : RuleEntry) : RuleIndex :=
  (RuleIndex.new.insert "en".toList e.1 e.2).insert "en".toList e'.1 e'.2

theorem entries_twoEntries (e e' : RuleEntry) : (twoEntries e e').entries "en".toList = [e, e'] := by
  unfold twoEntries
  rw [RuleIndex.entries_insert, RuleIndex.entries_insert, RuleIndex.entries_new, if_pos rfl]
  rfl

theorem candidates_twoEntries (F : Floats) (U : Unicode) (S : Strsim) (text : Text) (e e' : RuleEntry) :
    candidates F U S text "en".toList (twoEntries e e') =
      entryCandidates F U S text e ++ entryCandidates F U S text e' := by
  unfold candidates
  rw [entries_twoEntries]
  simp

/-- The utterance, and the phrase it repeats. -/
def lightsOff : Text := "turn off the lights in the upstairs guest bedroom".toList

/-- The same phrase with a number appended. -/
def lightsOff2 : Text := lightsOff ++ " 2".toList

def lightsOn : Text := "turn on the lights in the upstairs guest bedroom".toList

section

variable {F : Floats}

theorem entryCandidates_phraseEntry (intent phrase : Text)
    (hsplit : splitPhrase phrase = [.literal phrase])
    (hnorm : normalizeLiteral Unicode.ascii phrase = phrase)
    (hwords : utteranceWords Unicode.ascii lightsOff ≤ utteranceWords Unicode.ascii phrase)
    (hconf : MATCH_THRESHOLD F ≤ F.f32.round (Strsim.reference.normalized F phrase lightsOff)) :
    ∃ m, entryCandidates F Unicode.ascii Strsim.reference lightsOff (phraseEntry intent phrase) = [m] ∧
      m.rank = (F.f32.round (Strsim.reference.normalized F phrase lightsOff), utteranceWords Unicode.ascii phrase) := by
  let entry := phraseEntry intent phrase
  let m := matchLiteral F Unicode.ascii Strsim.reference phrase entry.1 lightsOff
  have hm : m.confidence = F.f32.round (Strsim.reference.normalized F phrase lightsOff) := by
    have hutter : normalizeLiteral Unicode.ascii lightsOff = lightsOff := by decide
    have := matchLiteral_confidence F Unicode.ascii Strsim.reference entry.1 hwords
    rw [hnorm, hutter] at this
    exact this
  have hphrase : phraseCandidate F Unicode.ascii Strsim.reference lightsOff entry.1 entry.2 phrase =
      some (m.withSkill entry.2) := by
    unfold phraseCandidate
    rw [tryMatchPhrase_literal F Unicode.ascii Strsim.reference entry.1 lightsOff hsplit]
    exact if_pos (by rw [hm]; exact hconf)
  refine ⟨m.withSkill entry.2, ?_, ?_⟩
  · show [phrase].filterMap _ = _
    rw [List.filterMap_cons, hphrase]
    rfl
  · exact Prod.ext hm rfl

theorem entryCandidates_lightsOff (F : Floats) :
    ∃ m, entryCandidates F Unicode.ascii Strsim.reference lightsOff
      (phraseEntry "bedroom.off".toList lightsOff) = [m] ∧
      m.rank = (1, 9) := by
  have hone : F.f32.round (Strsim.reference.normalized F lightsOff lightsOff) = 1 := by
    rw [Strsim.normalized_self, F.f32.round_one]
  obtain ⟨m, hm, hrank⟩ := entryCandidates_phraseEntry (F := F) "bedroom.off".toList lightsOff
    (by decide) (by decide) (le_refl _) (by rw [hone]; exact F.f32.round_le_one (by norm_num))
  rw [hone, show utteranceWords Unicode.ascii lightsOff = 9 by decide] at hrank
  exact ⟨m, hm, hrank⟩

variable (hF : F.Precise)
include hF

theorem Floats.Precise.threshold_le : MATCH_THRESHOLD F ≤ 9 / 10 := by
  have h := abs_le.mp (hF.f32 (8 / 10) (by norm_num [abs_le]))
  unfold MATCH_THRESHOLD
  linarith [h.2]

theorem Floats.Precise.better_iff {c b : Rank} (h : |c.1 - b.1| ≤ 49 / 1000) : better F c b ↔ b.2 < c.2 := by
  have hepsilon := abs_le.mp (hF.f32 (5 / 100) (by norm_num [abs_le]))
  have hdiff := abs_le.mp (hF.f32 (c.1 - b.1) (h.trans (by norm_num)))
  rw [abs_le] at h
  have hband : |F.f32.round (c.1 - b.1)| ≤ SPECIFICITY_EPSILON F := by
    unfold SPECIFICITY_EPSILON
    rw [abs_le]
    constructor <;> linarith [h.1, h.2, hepsilon.1, hdiff.1, hdiff.2]
  unfold better
  simp only
  rw [if_pos hband]

theorem lightsOff2_similarity :
    |F.f32.round (Strsim.reference.normalized F lightsOff2 lightsOff) - 49 / 51| ≤ 3 / 10 ^ 6 := by
  have hdist : Strsim.reference.distance lightsOff2 lightsOff = 2 := reference_distance_append lightsOff " 2".toList
  have hlen : max lightsOff2.length lightsOff.length = 51 := by decide
  have hnear := Strsim.reference.normalized_near hF (s := lightsOff2) (t := lightsOff) (by omega) (by omega)
  rw [hdist, hlen] at hnear
  norm_num at hnear ⊢
  exact hnear

theorem entryCandidates_lightsOff2 :
    ∃ m, entryCandidates F Unicode.ascii Strsim.reference lightsOff (phraseEntry "bedroom2.off".toList lightsOff2) =
        [m] ∧ |m.confidence - 49 / 51| ≤ 3 / 10 ^ 6 ∧ m.specificity = 10 := by
  have hnear := lightsOff2_similarity hF
  have hlow := (abs_le.mp hnear).1
  have hthreshold := hF.threshold_le
  obtain ⟨m, hm, hrank⟩ := entryCandidates_phraseEntry (F := F) "bedroom2.off".toList lightsOff2
    (by decide) (by decide) (by decide) (by linarith)
  have hconf : m.confidence = F.f32.round (Strsim.reference.normalized F lightsOff2 lightsOff) :=
    congrArg Prod.fst hrank
  have hwords : m.specificity = utteranceWords Unicode.ascii lightsOff2 := congrArg Prod.snd hrank
  refine ⟨m, hm, ?_, ?_⟩
  · rw [hconf]
    exact hnear
  · rw [hwords]
    decide

end

/-- An index with the utterance's own phrase, then the longer one. -/
def guestBedrooms : RuleIndex :=
  twoEntries (phraseEntry "bedroom.off".toList lightsOff) (phraseEntry "bedroom2.off".toList lightsOff2)

/-- Both phrases are candidates, and the longer one is better: a word more, and
less than the band away. -/
theorem guestBedrooms_candidates {F : Floats} (hF : F.Precise) : ∃ a b,
    candidates F Unicode.ascii Strsim.reference lightsOff "en".toList guestBedrooms = [a, b] ∧
      b.confidence < 1 ∧ better F b.rank a.rank := by
  obtain ⟨a, hacand, ha⟩ := entryCandidates_lightsOff F
  obtain ⟨b, hbcand, hb, hwords⟩ := entryCandidates_lightsOff2 hF
  have hnear := abs_le.mp hb
  refine ⟨a, b, ?_, by linarith [hnear.2], ?_⟩
  · rw [guestBedrooms, candidates_twoEntries, hacand, hbcand]
    rfl
  · have hclose : |b.rank.1 - a.rank.1| ≤ 49 / 1000 := by
      rw [ha]
      show |b.confidence - 1| ≤ _
      rw [abs_le]
      constructor <;> linarith [hnear.1, hnear.2]
    rw [hF.better_iff hclose, ha]
    show 9 < b.specificity
    omega

theorem guestBedrooms_exactPhrase : ExactPhrase Unicode.ascii lightsOff "en".toList guestBedrooms := by
  refine ⟨phraseEntry "bedroom.off".toList lightsOff, ?_, lightsOff, ?_, by decide, rfl, by decide⟩
  · rw [guestBedrooms, entries_twoEntries]
    exact List.mem_cons_self
  · exact List.mem_singleton_self _

/-- The utterance's own phrase is there and loses, over the rationals and in
floats. -/
theorem exact_phrase_outranked :
    ¬ ExactPhraseWins .exact Unicode.ascii Strsim.reference lightsOff "en".toList guestBedrooms ∧
      ¬ ExactPhraseWins .ieee Unicode.ascii Strsim.reference lightsOff "en".toList guestBedrooms := by
  have hloses : ∀ {F : Floats}, F.Precise →
      ¬ ExactPhraseWins F Unicode.ascii Strsim.reference lightsOff "en".toList guestBedrooms := by
    intro F hF h
    obtain ⟨a, b, hcand, hconf, hbetter⟩ := guestBedrooms_candidates hF
    obtain ⟨m, hm, hone⟩ := h guestBedrooms_exactPhrase
    rw [findMatch_eq, hcand] at hm
    simp only [select, List.foldl_cons, List.foldl_nil, pick, if_pos hbetter] at hm
    cases hm
    exact hconf.ne hone
  exact ⟨hloses Floats.exact_precise, hloses Floats.ieee_precise⟩

/-- The general statement at this index. -/
theorem find_match_guestBedrooms : ∃ m,
    findMatch .exact Unicode.ascii Strsim.reference lightsOff "en".toList guestBedrooms = .ok (some m) ∧
      ((m.confidence = 1 ∧ utteranceWords Unicode.ascii lightsOff ≤ m.specificity) ∨
        ∃ c ∈ candidates .exact Unicode.ascii Strsim.reference lightsOff "en".toList guestBedrooms,
          1 - SPECIFICITY_EPSILON .exact ≤ c.confidence ∧ c.confidence < 1 ∧
            utteranceWords Unicode.ascii lightsOff ≤ c.specificity) :=
  find_match_exact_phrase .exact Unicode.ascii Strsim.reference guestBedrooms_exactPhrase

/-! ## The order of the index -/

/-- Two indexes with the same entries for every locale, in any order. -/
def SameEntries (idx idx' : RuleIndex) : Prop :=
  ∀ locale, (idx'.entries locale).Perm (idx.entries locale)

/-- One answer for two indexes: no match on both, or matches of equal rank, and
of equal intent and skill when a single candidate has that rank. -/
def Agree (F : Floats) (U : Unicode) (S : Strsim) (text locale : Text) (idx idx' : RuleIndex) : Prop :=
  (findMatch F U S text locale idx = .ok none ∧ findMatch F U S text locale idx' = .ok none) ∨
  ∃ m m', findMatch F U S text locale idx = .ok (some m) ∧ findMatch F U S text locale idx' = .ok (some m') ∧
    m'.rank = m.rank ∧
    ((candidates F U S text locale idx).countP (fun c => c.rank = m.rank) = 1 →
      m'.intent = m.intent ∧ m'.skill = m.skill)

/-- The answer does not depend on the order in which the index was filled. -/
def OrderIndependent (F : Floats) (U : Unicode) (S : Strsim) (text locale : Text) (idx : RuleIndex) : Prop :=
  ∀ idx', SameEntries idx idx' → Agree F U S text locale idx idx'

/-- There is no candidate, or the rank of one is better than every other rank. -/
def Decided (F : Floats) (U : Unicode) (S : Strsim) (text locale : Text) (idx : RuleIndex) : Prop :=
  candidates F U S text locale idx = [] ∨
    ∃ k, Decisive IntentMatch.rank (better F) (candidates F U S text locale idx) k

section

variable (F : Floats) (U : Unicode) (S : Strsim)

theorem candidates_perm (text locale : Text) {idx idx' : RuleIndex} (h : SameEntries idx idx') :
    (candidates F U S text locale idx').Perm (candidates F U S text locale idx) :=
  (h locale).flatMap_right _

theorem eq_of_countP_one {α : Type} {p : α → Bool} {l : List α} (h : l.countP p = 1) {x y : α}
    (hx : x ∈ l) (hpx : p x = true) (hy : y ∈ l) (hpy : p y = true) : x = y := by
  rw [List.countP_eq_length_filter] at h
  obtain ⟨z, hz⟩ := List.length_eq_one_iff.mp h
  have hx' : x ∈ l.filter p := List.mem_filter.mpr ⟨hx, hpx⟩
  have hy' : y ∈ l.filter p := List.mem_filter.mpr ⟨hy, hpy⟩
  rw [hz, List.mem_singleton] at hx' hy'
  rw [hx', hy']

/-- Agreement is equality of the winning ranks: a rank that one candidate has
names the candidate. -/
theorem agree_iff {text locale : Text} {idx idx' : RuleIndex} (h : SameEntries idx idx') :
    Agree F U S text locale idx idx' ↔
      (select IntentMatch.rank (better F) (candidates F U S text locale idx')).map IntentMatch.rank =
        (select IntentMatch.rank (better F) (candidates F U S text locale idx)).map IntentMatch.rank := by
  have hperm := candidates_perm F U S text locale h
  unfold Agree
  simp only [findMatch_eq]
  cases hs : select IntentMatch.rank (better F) (candidates F U S text locale idx) with
  | none =>
    rw [select_eq_none] at hs
    rw [hs, List.perm_nil] at hperm
    simp [hperm, select]
  | some m =>
    cases hs' : select IntentMatch.rank (better F) (candidates F U S text locale idx') with
    | none =>
      rw [select_eq_none] at hs'
      have hmem := select_mem hs
      rw [hs'] at hperm
      rw [List.nil_perm.mp hperm] at hmem
      cases hmem
    | some m' =>
      have hm : m ∈ candidates F U S text locale idx := select_mem hs
      have hm' : m' ∈ candidates F U S text locale idx := hperm.mem_iff.mp (select_mem hs')
      simp only [Option.map_some, Option.some.injEq]
      refine ⟨?_, ?_⟩
      · intro h
        rcases h with h | h
        · cases h.1
        · obtain ⟨x, x', hx, hx', hr, -⟩ := h
          cases hx
          cases hx'
          exact hr
      · intro hr
        refine Or.inr ⟨m, m', rfl, rfl, hr, ?_⟩
        -- one candidate of that rank: both indices have the same
        intro hone
        have := eq_of_countP_one hone hm (by simp) hm' (by simpa using hr)
        rw [this]
        exact ⟨rfl, rfl⟩

theorem orderIndependent_of_decided {text locale : Text} {idx : RuleIndex}
    (h : Decided F U S text locale idx) : OrderIndependent F U S text locale idx := by
  intro idx' hsame
  exact (agree_iff F U S hsame).mpr
    ((perm_invariant_iff (better_asymm F) _).mpr h _ (candidates_perm F U S text locale hsame))

/-- An index with the entries of one locale rearranged. -/
def RuleIndex.rearranged (idx : RuleIndex) (locale : Text) (rules : List RuleEntry) : RuleIndex :=
  ⟨fun l => if l = locale then some rules else idx.byLocale l⟩

theorem RuleIndex.entries_rearranged (idx : RuleIndex) (locale l : Text) (rules : List RuleEntry) :
    (idx.rearranged locale rules).entries l = if l = locale then rules else idx.entries l := by
  by_cases h : l = locale
  · simp [RuleIndex.entries, RuleIndex.forLocale, RuleIndex.rearranged, h]
  · simp [RuleIndex.entries, RuleIndex.forLocale, RuleIndex.rearranged, h]

theorem decided_of_orderIndependent {text locale : Text} {idx : RuleIndex}
    (hrules : ∀ entry ∈ idx.entries locale, (entryCandidates F U S text entry).length ≤ 1)
    (h : OrderIndependent F U S text locale idx) : Decided F U S text locale idx := by
  refine (perm_invariant_iff (better_asymm F) _).mp ?_
  intro l' hp
  obtain ⟨rules, hrules', rfl⟩ := exists_perm_flatMap l' (idx.entries locale) hrules hp
  have hsame : SameEntries idx (idx.rearranged locale rules) := by
    intro l
    rw [RuleIndex.entries_rearranged]
    split
    · rename_i hl
      rw [hl]
      exact hrules'
    · exact List.Perm.refl _
  have hagree := (agree_iff F U S hsame).mp (h _ hsame)
  rw [show candidates F U S text locale (idx.rearranged locale rules) =
      rules.flatMap (entryCandidates F U S text) by
    simp [candidates, RuleIndex.entries_rearranged]] at hagree
  exact hagree

/-- **Order independence.** A rank better than every other rank of the locale
wins whatever the order of the index; where each rule contributes at most one
candidate, only such a rank does. -/
theorem find_match_order_independent_iff (text locale : Text) (idx : RuleIndex) :
    (Decided F U S text locale idx → OrderIndependent F U S text locale idx) ∧
    ((∀ entry ∈ idx.entries locale, (entryCandidates F U S text entry).length ≤ 1) →
      (OrderIndependent F U S text locale idx ↔ Decided F U S text locale idx)) := by
  refine ⟨orderIndependent_of_decided F U S, ?_⟩
  intro hrules
  exact ⟨decided_of_orderIndependent F U S hrules, orderIndependent_of_decided F U S⟩

end

/-- Where the longer phrase is better than the other one, no order matters. -/
theorem guestBedrooms_order_independent :
    OrderIndependent .ieee Unicode.ascii Strsim.reference lightsOff "en".toList guestBedrooms := by
  refine (find_match_order_independent_iff .ieee Unicode.ascii Strsim.reference lightsOff "en".toList
    guestBedrooms).1 (Or.inr ?_)
  obtain ⟨a, b, hcand, -, hbetter⟩ := guestBedrooms_candidates Floats.ieee_precise
  refine ⟨b.rank, ⟨b, by rw [hcand]; simp, rfl⟩, ?_⟩
  intro x hx hne
  rw [hcand] at hx
  simp at hx
  rcases hx with rfl | rfl
  · exact hbetter
  · exact absurd rfl hne

theorem lightsOn_distance : Strsim.reference.distance lightsOn lightsOff ≤ 2 ∧
    1 ≤ Strsim.reference.distance lightsOn lightsOff := by
  let rest : Text := " the lights in the upstairs guest bedroom".toList
  have hfuel : lightsOn.length + lightsOff.length = 91 + "turn o".toList.length := by decide
  have hon : lightsOn = "turn o".toList ++ 'n' :: rest := rfl
  have hoff : lightsOff = "turn o".toList ++ 'f' :: 'f' :: rest := rfl
  refine ⟨?_, ?_⟩
  · show distanceWith (lightsOn.length + lightsOff.length) lightsOn lightsOff ≤ 2
    rw [hfuel, hon, hoff]
    calc _ ≤ distanceWith 91 ('n' :: rest) ('f' :: 'f' :: rest) := distanceWith_append_le _ 91 _ _
      _ ≤ distanceWith 90 rest ('f' :: rest) + 1 := distanceWith_substitute_le 'n' 'f' 90 rest _
      _ ≤ distanceWith 89 rest rest + 1 + 1 := Nat.add_le_add_right (distanceWith_insert_le 'f' 88 rest rest) 1
      _ = 2 := by rw [distanceWith_self]
  · have hlow := (le_distanceWith (lightsOn.length + lightsOff.length) lightsOn lightsOff (le_refl _)).1
    have hlen : lightsOff.length = lightsOn.length + 1 := by decide
    show 1 ≤ distanceWith (lightsOn.length + lightsOff.length) lightsOn lightsOff
    omega

theorem lightsOn_similarity {F : Floats} (hF : F.Precise) :
    955 / 1000 < F.f32.round (Strsim.reference.normalized F lightsOn lightsOff) ∧
      F.f32.round (Strsim.reference.normalized F lightsOn lightsOff) < 1 - 1 / 1000 := by
  have hlen : max lightsOn.length lightsOff.length = 49 := by decide
  have hle : (Strsim.reference.distance lightsOn lightsOff : ℚ) ≤ 2 := by exact_mod_cast lightsOn_distance.1
  have hge : (1 : ℚ) ≤ Strsim.reference.distance lightsOn lightsOff := by exact_mod_cast lightsOn_distance.2
  have hnear := Strsim.reference.normalized_near hF (s := lightsOn) (t := lightsOff) (by omega) (by omega)
  rw [hlen] at hnear
  have hbounds := abs_le.mp hnear
  push_cast at hbounds
  constructor <;> linarith [hbounds.1, hbounds.2]

/-- The opposite request, found first in the index, is answered: as many words,
less than the band away. The other way round the utterance's own phrase is. -/
theorem find_match_order_dependent :
    ¬ OrderIndependent .ieee Unicode.ascii Strsim.reference lightsOff "en".toList
      (twoEntries (phraseEntry "bedroom.off".toList lightsOff)
        (phraseEntry "bedroom.on".toList lightsOn)) := by
  intro h
  have hF := Floats.ieee_precise
  obtain ⟨hlow, hhigh⟩ := lightsOn_similarity hF
  have hthreshold := hF.threshold_le
  obtain ⟨a, hacand, ha⟩ := entryCandidates_lightsOff .ieee
  obtain ⟨b, hbcand, hb⟩ := entryCandidates_phraseEntry "bedroom.on".toList lightsOn
    (by decide) (by decide) (by decide) (by linarith)
  rw [show utteranceWords Unicode.ascii lightsOn = 9 by decide] at hb
  -- equal word counts inside the band: neither beats the other, so the first stays
  have hclose : |b.rank.1 - a.rank.1| ≤ 49 / 1000 := by
    rw [ha, hb, abs_le]
    simp only
    constructor <;> linarith
  have htie : ¬ better .ieee b.rank a.rank ∧ ¬ better .ieee a.rank b.rank := by
    rw [hF.better_iff hclose, hF.better_iff (by rw [abs_sub_comm]; exact hclose), ha, hb]
    exact ⟨lt_irrefl 9, lt_irrefl 9⟩
  let on := phraseEntry "bedroom.on".toList lightsOn
  let off := phraseEntry "bedroom.off".toList lightsOff
  have hsame : SameEntries (twoEntries off on) (twoEntries on off) := by
    intro l
    unfold twoEntries
    simp only [RuleIndex.entries_insert, RuleIndex.entries_new]
    split
    · exact List.Perm.swap _ _ _
    · exact List.Perm.refl _
  have hagree := (agree_iff .ieee Unicode.ascii Strsim.reference hsame).mp (h _ hsame)
  rw [candidates_twoEntries, candidates_twoEntries, hacand, hbcand] at hagree
  simp only [select, List.singleton_append, List.foldl_cons, List.foldl_nil, pick, if_neg htie.1,
    if_neg htie.2, Option.map_some, Option.some.injEq] at hagree
  rw [ha, hb] at hagree
  have hone := congrArg Prod.fst hagree
  simp only at hone
  linarith

end AthenaVoice.Intent
