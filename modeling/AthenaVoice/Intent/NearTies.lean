import AthenaVoice.Intent.BestMatch
import AthenaVoice.Lib.Band

/-
  Near ties in `find_match` — `intent/engine.rs`

  Two phrases count as tied inside the band of `SPECIFICITY_EPSILON`, and the
  more specific one wins. The band is laid around the running best, not around
  the best there is: a phrase tied with the best gives way to a more specific
  one tied with it, and so on down. The order of the phrases is that of the
  index, which `rebuild_index` fills in the order of a hash map.

  What is proved:
    1. `candidates_eq` — the candidates are those of the phrases, however these
       are arranged in rules.
    2. `find_match_near_best_iff` — in every arrangement of the same phrases the
       match is near the best and the most specific of those, exactly when no
       candidate below the band rivals the ones that are.
    3. `find_match_drifts` — three phrases, each tied with the next: the last
       wins, more than the band below the first.
-/

namespace AthenaVoice.Intent

open Lib Lib.Str Sdk

/-! ## Phrases -/

/-- A phrase with what a match needs of its rule, and the skill. -/
structure PhraseEntry where
  intent : Text
  slots : List HostSlotSpec
  skill : Text
  phrase : Text
  deriving DecidableEq

def phraseEntries (entry : RuleEntry) : List PhraseEntry :=
  entry.1.phrases.map (fun phrase => ⟨entry.1.intent, entry.1.slots, entry.2, phrase⟩)

/-- The phrases of a locale, in index order. -/
def phrasesOf (index : RuleIndex) (locale : Text) : List PhraseEntry := (index.entries locale).flatMap phraseEntries

def PhraseEntry.rule (p : PhraseEntry) : HostPatternRule :=
  { intent := p.intent, phrases := [p.phrase], slots := p.slots }

/-- Two indexes with the same phrases for a locale, in any order, under rules
of any number. -/
def SamePhrases (locale : Text) (idx idx' : RuleIndex) : Prop :=
  (phrasesOf idx' locale).Perm (phrasesOf idx locale)

section

variable (F : Floats) (U : Unicode) (S : Strsim)

/-- What a phrase makes of the utterance; `none` if it does not match at all. -/
def PhraseEntry.match? (text : Text) (p : PhraseEntry) : Option IntentMatch :=
  match tryMatchPhrase F U S p.phrase p.rule text with
  | .ok m => m.map (fun candidate => candidate.withSkill p.skill)
  | .error _ => none

/-- The ranks of all phrases that match, whatever their confidence. -/
def phraseRanks (text locale : Text) (index : RuleIndex) : List Rank :=
  ((phrasesOf index locale).filterMap (PhraseEntry.match? F U S text)).map IntentMatch.rank

/-- The match is at most the band below the best of the pool, and no rank of
the pool at most the band below the best is more specific. -/
def NearBest (pool : List Rank) (m : Rank) : Prop :=
  (∀ c ∈ pool, c.1 - m.1 ≤ SPECIFICITY_EPSILON F) ∧
    ∀ c ∈ pool, (∀ d ∈ pool, d.1 - c.1 ≤ SPECIFICITY_EPSILON F) → c.2 ≤ m.2

/-- There is no match if no phrase reaches the threshold, and a match near the
best of the pool otherwise. -/
def FindsNearBest (text locale : Text) (index : RuleIndex) (pool : List Rank) : Prop :=
  (findMatch F U S text locale index = .ok none ↔
      ∀ c ∈ phraseRanks F U S text locale index, c.1 < MATCH_THRESHOLD F) ∧
    ∀ m, findMatch F U S text locale index = .ok (some m) → NearBest F pool m.rank

/-! ## A match does not look at the rule's other phrases -/

variable {rule rule' : HostPatternRule}

theorem walkSlot_congr (hslots : rule.slots = rule'.slots) (input n name : Text) (next : Option Segment) (w : Walk) :
    walkSlot U rule input n name next w = walkSlot U rule' input n name next w := by
  unfold walkSlot slotMatchesKind
  rw [hslots]

theorem walk_congr (hslots : rule.slots = rule'.slots) (input n : Text) : ∀ (segments : List Segment) (w : Walk),
    walk U rule input n segments w = walk U rule' input n segments w := by
  intro segments
  induction segments with
  | nil => intro w; rfl
  | cons seg rest ih =>
    intro w
    cases seg with
    | literal lit => simp only [walk, ih]
    | slot name => simp only [walk, walkSlot_congr U hslots, ih]

theorem tryMatchPhrase_congr (hintent : rule.intent = rule'.intent) (hslots : rule.slots = rule'.slots)
    (phrase input : Text) : tryMatchPhrase F U S phrase rule input = tryMatchPhrase F U S phrase rule' input := by
  unfold tryMatchPhrase matchLiteral
  simp only [hintent, walk_congr U hslots]

/-- What a phrase contributes to the choice. -/
def PhraseEntry.candidate (text : Text) (p : PhraseEntry) : Option IntentMatch :=
  phraseCandidate F U S text p.rule p.skill p.phrase

theorem entryCandidates_eq (text : Text) (entry : RuleEntry) :
    entryCandidates F U S text entry = (phraseEntries entry).filterMap (PhraseEntry.candidate F U S text) := by
  unfold entryCandidates phraseEntries
  rw [List.filterMap_map]
  apply List.filterMap_congr
  intro phrase _
  let p : PhraseEntry := ⟨entry.1.intent, entry.1.slots, entry.2, phrase⟩
  have hmatch : tryMatchPhrase F U S phrase entry.1 text = tryMatchPhrase F U S phrase p.rule text :=
    tryMatchPhrase_congr F U S (show entry.1.intent = p.rule.intent from rfl)
      (show entry.1.slots = p.rule.slots from rfl) phrase text
  show phraseCandidate F U S text entry.1 entry.2 phrase = phraseCandidate F U S text p.rule entry.2 phrase
  unfold phraseCandidate
  rw [hmatch]

/-- **The candidates are those of the phrases.** -/
theorem candidates_eq (text locale : Text) (index : RuleIndex) :
    candidates F U S text locale index = (phrasesOf index locale).filterMap (PhraseEntry.candidate F U S text) := by
  unfold candidates phrasesOf
  rw [List.filterMap_flatMap]
  apply List.flatMap_congr
  intro entry _
  exact entryCandidates_eq F U S text entry

theorem candidate_eq (text : Text) (p : PhraseEntry) : p.candidate F U S text =
    (p.match? F U S text).filter (fun m => MATCH_THRESHOLD F ≤ m.confidence) := by
  unfold PhraseEntry.candidate PhraseEntry.match? phraseCandidate
  cases tryMatchPhrase F U S p.phrase p.rule text with
  | error e => rfl
  | ok m =>
    cases m with
    | none => rfl
    | some candidate =>
      show (if candidate.confidence ≥ MATCH_THRESHOLD F then _ else _) = _
      simp [Option.filter, IntentMatch.withSkill]

theorem select_better {text locale : Text} {index : RuleIndex} {l : List IntentMatch}
    (hl : ∀ m ∈ l, m ∈ candidates F U S text locale index) :
    select IntentMatch.rank (better F) l = select IntentMatch.rank (bandBeats (SPECIFICITY_EPSILON F)) l := by
  refine select_congr (fun x hx y hy => ?_)
  have hdiff := candidate_diff_exact (hl x hx) (hl y hy)
  have hdiff' : F.f32.round (x.rank.1 - y.rank.1) = x.rank.1 - y.rank.1 := hdiff
  unfold better
  simp only [hdiff']
  exact Iff.rfl

theorem mem_ranks (text locale : Text) (index : RuleIndex) (k : Rank) :
    k ∈ (candidates F U S text locale index).map IntentMatch.rank ↔
      k ∈ phraseRanks F U S text locale index ∧ MATCH_THRESHOLD F ≤ k.1 := by
  rw [candidates_eq]
  unfold phraseRanks
  simp only [List.mem_map, List.mem_filterMap, candidate_eq, Option.filter_eq_some_iff, decide_eq_true_eq]
  constructor
  · intro h
    obtain ⟨m, ⟨p, hp, hm, hthr⟩, rfl⟩ := h
    exact ⟨⟨m, ⟨p, hp, hm⟩, rfl⟩, hthr⟩
  · intro h
    obtain ⟨⟨m, ⟨p, hp, hm⟩, rfl⟩, hthr⟩ := h
    exact ⟨m, ⟨p, hp, hm, hthr⟩, rfl⟩

theorem find_match_none (text locale : Text) (index : RuleIndex) :
    findMatch F U S text locale index = .ok none ↔
      ∀ c ∈ phraseRanks F U S text locale index, c.1 < MATCH_THRESHOLD F := by
  have hnone : findMatch F U S text locale index = .ok none ↔
      (candidates F U S text locale index).map IntentMatch.rank = [] := by
    rw [findMatch_eq, List.map_eq_nil_iff, Except.ok.injEq]
    exact select_eq_none
  rw [hnone, List.eq_nil_iff_forall_not_mem]
  simp only [mem_ranks, not_and, not_le]

/-! ## Arrangements -/

theorem candidates_samePhrases (text : Text) {locale : Text} {idx idx' : RuleIndex} (h : SamePhrases locale idx idx') :
    (candidates F U S text locale idx').Perm (candidates F U S text locale idx) := by
  rw [candidates_eq, candidates_eq]
  exact h.filterMap _

theorem phraseRanks_samePhrases (text : Text) {locale : Text} {idx idx' : RuleIndex} (h : SamePhrases locale idx idx') :
    (phraseRanks F U S text locale idx').Perm (phraseRanks F U S text locale idx) := (h.filterMap _).map _

theorem exists_arrangement (text locale : Text) (idx : RuleIndex) {l : List IntentMatch}
    (hp : l.Perm (candidates F U S text locale idx)) :
    ∃ idx', SamePhrases locale idx idx' ∧ candidates F U S text locale idx' = l := by
  rw [candidates_eq, List.filterMap_eq_flatMap_toList] at hp
  have hone : ∀ p ∈ phrasesOf idx locale, (p.candidate F U S text).toList.length ≤ 1 := by
    intro p _
    cases p.candidate F U S text <;> simp
  obtain ⟨ps, hps, hl⟩ := exists_perm_flatMap l (phrasesOf idx locale) hone hp
  let idx' := idx.rearranged locale (ps.map (fun p => (p.rule, p.skill)))
  have hphrases : phrasesOf idx' locale = ps := by
    show (idx'.entries locale).flatMap phraseEntries = ps
    rw [RuleIndex.entries_rearranged, if_pos rfl, List.flatMap_map]
    exact List.flatMap_singleton' ps
  refine ⟨idx', ?_, ?_⟩
  · unfold SamePhrases
    rw [hphrases]
    exact hps
  · rw [candidates_eq, hphrases, List.filterMap_eq_flatMap_toList]
    exact hl

theorem nearBest_map_iff (l : List IntentMatch) (k : Rank) :
    NearBest F (l.map IntentMatch.rank) k ↔ TopKey IntentMatch.rank (SPECIFICITY_EPSILON F) l k := by
  unfold NearBest TopKey NearTop
  simp only [List.forall_mem_map]

/-- In every arrangement the winner is near the best of the candidates exactly
when none is rivalled. -/
theorem winner_top_iff_unrivalled (text locale : Text) (idx : RuleIndex) :
    (∀ idx', SamePhrases locale idx idx' → ∀ m, findMatch F U S text locale idx' = .ok (some m) →
        NearBest F ((candidates F U S text locale idx').map IntentMatch.rank) m.rank) ↔
      Unrivalled IntentMatch.rank (SPECIFICITY_EPSILON F) (candidates F U S text locale idx) := by
  rw [← select_top_iff_unrivalled (epsilon_nonneg F)]
  have hwins : ∀ idx' m, findMatch F U S text locale idx' = .ok (some m) ↔
      select IntentMatch.rank (bandBeats (SPECIFICITY_EPSILON F)) (candidates F U S text locale idx') = some m := by
    intro idx' m
    rw [findMatch_eq, select_better F U S (fun _ h => h), Except.ok.injEq]
  simp only [hwins, nearBest_map_iff]
  constructor
  · intro h l hp m hm
    obtain ⟨idx', hsame, rfl⟩ := exists_arrangement F U S text locale idx hp
    exact (TopKey.perm hp).mp (h idx' hsame m hm)
  · intro h idx' hsame m hm
    have hp := candidates_samePhrases F U S text hsame
    exact (TopKey.perm hp).mpr (h _ hp m hm)

/-! ## Phrases below the threshold -/

omit U S in
theorem near_pool_iff {pool l : List Rank}
    (hmem : ∀ k, k ∈ l ↔ k ∈ pool ∧ MATCH_THRESHOLD F ≤ k.1) {e : Rank}
    (he : e ∈ l) (c : Rank) : (∀ d ∈ pool, d.1 - c.1 ≤ SPECIFICITY_EPSILON F) ↔
      ∀ d ∈ l, d.1 - c.1 ≤ SPECIFICITY_EPSILON F := by
  constructor
  · intro h d hd
    exact h d ((hmem d).mp hd).1
  · intro h d hd
    by_cases hthr : MATCH_THRESHOLD F ≤ d.1
    · exact h d ((hmem d).mpr ⟨hd, hthr⟩)
    · have hlow : d.1 < e.1 := (not_le.mp hthr).trans_le ((hmem e).mp he).2
      have hbest := h e he
      linarith

omit U S in
theorem nearBest_pool_iff {pool l : List Rank}
    (hmem : ∀ k, k ∈ l ↔ k ∈ pool ∧ MATCH_THRESHOLD F ≤ k.1) {m : Rank}
    (hm : m ∈ l) : NearBest F pool m ↔ NearBest F l m ∧
      ∀ c ∈ pool, c.1 < MATCH_THRESHOLD F → (∀ d ∈ l, d.1 - c.1 ≤ SPECIFICITY_EPSILON F) →
        c.2 ≤ m.2 := by
  have hnear := near_pool_iff F hmem hm
  unfold NearBest
  simp only [hnear]
  constructor
  · intro h
    exact ⟨⟨h.1, fun c hc => h.2 c ((hmem c).mp hc).1⟩, fun c hc _ => h.2 c hc⟩
  · intro h
    refine ⟨h.1.1, ?_⟩
    intro c hc hcnear
    by_cases hthr : MATCH_THRESHOLD F ≤ c.1
    · exact h.1.2 c ((hmem c).mpr ⟨hc, hthr⟩) hcnear
    · exact h.2 c hc (not_le.mp hthr) hcnear

/-- No phrase that misses the threshold, but is near the best candidate, is more
specific than a top one. -/
def NoneGated (text locale : Text) (idx : RuleIndex) : Prop :=
  ∀ c ∈ phraseRanks F U S text locale idx, c.1 < MATCH_THRESHOLD F →
    NearTop IntentMatch.rank (SPECIFICITY_EPSILON F) (candidates F U S text locale idx) c →
    ∀ e ∈ candidates F U S text locale idx,
      TopKey IntentMatch.rank (SPECIFICITY_EPSILON F) (candidates F U S text locale idx) e.rank →
        c.2 ≤ e.specificity

theorem winner_mem {text locale : Text} {idx : RuleIndex} {m : IntentMatch}
    (h : findMatch F U S text locale idx = .ok (some m)) : m ∈ candidates F U S text locale idx := by
  rw [findMatch_eq, Except.ok.injEq] at h
  exact select_mem h

/-- With the phrases below the threshold in the pool, they must not be more
specific than the winner either. -/
theorem winner_near_pool_iff {text locale : Text} {idx : RuleIndex} {m : IntentMatch}
    (h : findMatch F U S text locale idx = .ok (some m)) :
    NearBest F (phraseRanks F U S text locale idx) m.rank ↔
      NearBest F ((candidates F U S text locale idx).map IntentMatch.rank) m.rank ∧
      ∀ c ∈ phraseRanks F U S text locale idx, c.1 < MATCH_THRESHOLD F →
        NearTop IntentMatch.rank (SPECIFICITY_EPSILON F) (candidates F U S text locale idx) c →
          c.2 ≤ m.specificity := by
  rw [nearBest_pool_iff F (mem_ranks F U S text locale idx) (List.mem_map_of_mem (winner_mem F U S h))]
  unfold NearTop
  simp only [List.forall_mem_map]
  rfl

/-- **Near ties.** In every arrangement of the same phrases there is no match
exactly when no phrase reaches the threshold, and a match is near the best
candidate and the most specific of those, exactly when no candidate below the
band rivals those in it; and the same with the phrases that miss the threshold
counted in, when none of them is more specific. -/
theorem find_match_near_best_iff (text locale : Text) (idx : RuleIndex) :
    ((∀ idx', SamePhrases locale idx idx' →
        FindsNearBest F U S text locale idx' ((candidates F U S text locale idx').map IntentMatch.rank)) ↔
      Unrivalled IntentMatch.rank (SPECIFICITY_EPSILON F) (candidates F U S text locale idx)) ∧
    ((∀ idx', SamePhrases locale idx idx' →
        FindsNearBest F U S text locale idx' (phraseRanks F U S text locale idx')) ↔
      Unrivalled IntentMatch.rank (SPECIFICITY_EPSILON F) (candidates F U S text locale idx) ∧
        NoneGated F U S text locale idx) := by
  have hfirst := winner_top_iff_unrivalled F U S text locale idx
  refine ⟨⟨?_, ?_⟩, ⟨?_, ?_⟩⟩
  · intro h
    exact hfirst.mp (fun idx' hsame m hm => (h idx' hsame).2 m hm)
  · intro h idx' hsame
    exact ⟨find_match_none F U S text locale idx', hfirst.mpr h idx' hsame⟩
  · intro h
    refine ⟨hfirst.mp (fun idx' hsame m hm => ((winner_near_pool_iff F U S hm).mp ((h idx' hsame).2 m hm)).1), ?_⟩
    intro c hc hthr hnear e he htop
    cases hs : select IntentMatch.rank (better F) (candidates F U S text locale idx) with
    | none =>
      rw [select_eq_none.mp hs] at he
      cases he
    | some m =>
      have hm : findMatch F U S text locale idx = .ok (some m) := by rw [findMatch_eq, hs]
      obtain ⟨hbest, hgated⟩ := (winner_near_pool_iff F U S hm).mp ((h idx (List.Perm.refl _)).2 m hm)
      have hmtop := (nearBest_map_iff F _ _).mp hbest
      exact (hgated c hc hthr hnear).trans (htop.2 m (winner_mem F U S hm) hmtop.1)
  · intro h idx' hsame
    obtain ⟨hrival, hgated⟩ := h
    refine ⟨find_match_none F U S text locale idx', ?_⟩
    intro m hm
    have hbest := hfirst.mpr hrival idx' hsame m hm
    refine (winner_near_pool_iff F U S hm).mpr ⟨hbest, ?_⟩
    intro c hc hthr hnear
    have hp := candidates_samePhrases F U S text hsame
    exact hgated c ((phraseRanks_samePhrases F U S text hsame).mem_iff.mp hc) hthr ((NearTop.perm hp).mp hnear) m
      (hp.mem_iff.mp (winner_mem F U S hm)) ((TopKey.perm hp).mp ((nearBest_map_iff F _ _).mp hbest))

end

/-! ### Three phrases, each tied with the next -/

/-- The phrase with two numbers appended. -/
def lightsOff22 : Text := lightsOff ++ " 2 2".toList

theorem lightsOff22_similarity {F : Floats} (hF : F.Precise) :
    |F.f32.round (Strsim.reference.normalized F lightsOff22 lightsOff) - 49 / 53| ≤ 3 / 10 ^ 6 := by
  have hdist : Strsim.reference.distance lightsOff22 lightsOff = 4 :=
    reference_distance_append lightsOff " 2 2".toList
  have hlen : max lightsOff22.length lightsOff.length = 53 := by decide
  have hnear := Strsim.reference.normalized_near hF (s := lightsOff22) (t := lightsOff) (by omega) (by omega)
  rw [hdist, hlen] at hnear
  norm_num at hnear ⊢
  exact hnear

/-- An index with the utterance's own phrase and two longer ones. -/
def threeBedrooms : RuleIndex :=
  guestBedrooms.insert "en".toList (phraseEntry "bedroom22.off".toList lightsOff22).1
    (phraseEntry "bedroom22.off".toList lightsOff22).2

/-- The longest phrase, tied with the second, wins: confidence 49/53 against 1. -/
theorem find_match_drifts :
    ¬ FindsNearBest .ieee Unicode.ascii Strsim.reference lightsOff "en".toList threeBedrooms
        ((candidates .ieee Unicode.ascii Strsim.reference lightsOff "en".toList threeBedrooms).map IntentMatch.rank) ∧
      ¬ FindsNearBest .ieee Unicode.ascii Strsim.reference lightsOff "en".toList threeBedrooms
        (phraseRanks .ieee Unicode.ascii Strsim.reference lightsOff "en".toList threeBedrooms) := by
  have hF := Floats.ieee_precise
  have hnear := abs_le.mp (lightsOff22_similarity hF)
  have hthreshold := hF.threshold_le
  obtain ⟨a, hacand, ha⟩ := entryCandidates_lightsOff .ieee
  obtain ⟨b, hbcand, hb, hbwords⟩ := entryCandidates_lightsOff2 hF
  obtain ⟨c, hccand, hc⟩ := entryCandidates_phraseEntry "bedroom22.off".toList lightsOff22
    (by decide) (by decide) (by decide) (by linarith [hnear.1])
  rw [show utteranceWords Unicode.ascii lightsOff22 = 11 by decide] at hc
  have hbnear := abs_le.mp hb
  have hcand : candidates .ieee Unicode.ascii Strsim.reference lightsOff "en".toList threeBedrooms = [a, b, c] := by
    unfold candidates threeBedrooms
    rw [RuleIndex.entries_insert, guestBedrooms, entries_twoEntries, if_pos rfl]
    simp only [List.cons_append, List.nil_append, List.flatMap_cons, List.flatMap_nil, List.append_nil]
    rw [hacand, hbcand]
    exact congrArg _ (congrArg _ hccand)
  -- each is less than the band below the one before
  have hab : |b.rank.1 - a.rank.1| ≤ 49 / 1000 := by
    rw [ha]
    show |b.confidence - 1| ≤ _
    rw [abs_le]
    constructor <;> linarith [hbnear.1, hbnear.2]
  have hbc : |c.rank.1 - b.rank.1| ≤ 49 / 1000 := by
    rw [hc]
    show |_ - b.confidence| ≤ _
    rw [abs_le]
    constructor <;> linarith [hbnear.1, hbnear.2, hnear.1, hnear.2]
  have hbetter : better .ieee b.rank a.rank ∧ better .ieee c.rank b.rank := by
    rw [hF.better_iff hab, hF.better_iff hbc, ha, hc]
    show 9 < b.specificity ∧ b.specificity < 11
    omega
  have hwins : findMatch .ieee Unicode.ascii Strsim.reference lightsOff "en".toList threeBedrooms = .ok (some c) := by
    rw [findMatch_eq, hcand]
    simp only [select, List.foldl_cons, List.foldl_nil, pick, if_pos hbetter.1, if_pos hbetter.2]
  -- the first phrase is in both pools
  have hfar : ∀ pool : List Rank, ((1, 9) : Rank) ∈ pool → ¬ NearBest .ieee pool c.rank := by
    intro pool hpool hbest
    have hgap := hbest.1 _ hpool
    have hepsilon := abs_le.mp (hF.f32 (5 / 100) (by norm_num [abs_le]))
    rw [hc] at hgap
    unfold SPECIFICITY_EPSILON at hgap
    simp only at hgap
    linarith [hnear.2, hepsilon.2]
  have hmem : ((1, 9) : Rank) ∈
      (candidates .ieee Unicode.ascii Strsim.reference lightsOff "en".toList threeBedrooms).map IntentMatch.rank := by
    rw [hcand, ← ha]
    exact List.mem_cons_self
  refine ⟨fun h => hfar _ hmem (h.2 c hwins), fun h => hfar _ ?_ (h.2 c hwins)⟩
  exact ((mem_ranks _ _ _ _ _ _ _).mp hmem).1

end AthenaVoice.Intent
