import AthenaVoice.Intent.Rule
import AthenaVoice.Lib.Selection
import AthenaVoice.Intent.Similarity

/-
  The intent matcher — `intent/engine.rs`

  A phrase is split at its `{slot}` placeholders. A phrase without a slot is
  compared as a whole, symbols stripped; a phrase with slots is walked over the
  lower-cased utterance, the text between two literals filling a slot, and the
  filled phrase is compared with the utterance. The best candidate of the
  locale wins.

  The walk searches in the lower-cased utterance but slices the original one at
  the same byte offsets. `normalised_input[cursor..]` panics off a character
  boundary, so the walk answers in `Except Panic`.

  What is proved:
    1. `tryMatchPhrase_ok` — the cursor never leaves the character boundaries
       of the lower-cased utterance, so no slice panics.
    2. `findMatch_eq` — the nested loops are one selection over the candidates
       of the locale, in index order.
    3. `confidence_le_one` — no candidate is more confident than 1.
    4. `candidate_diff_exact` — the difference of two confidences is not rounded.

  Correspondence (Rust ↔ Lean):
    `normalize_literal`       `normalizeLiteral`
    `split_phrase`, `Segment` `splitPhrase`, `Segment`
    `slot_matches_kind`       `slotMatchesKind`
    `best_window_similarity`  `bestWindowSimilarity`
    `try_match_phrase`        `tryMatchPhrase` (`walkLiteral`, `walkSlot`, `walk`)
    `find_match`              `findMatch` (`better`, `considerPhrase`)
-/

namespace AthenaVoice.Intent

open Lib Lib.Str Sdk

def MATCH_THRESHOLD (F : Floats) : ℚ := F.f32.round (8 / 10)

def SPECIFICITY_EPSILON (F : Floats) : ℚ := F.f32.round (5 / 100)

structure IntentMatch where
  intent : Sdk.Intent
  skill : Text
  confidence : ℚ
  specificity : Nat
  deriving DecidableEq

/-- `with_skill`: the candidate with the skill of its entry. -/
def IntentMatch.withSkill (m : IntentMatch) (skill : Text) : IntentMatch :=
  { intent := m.intent, skill := skill, confidence := m.confidence, specificity := m.specificity }

/-- A slice off a character boundary. -/
inductive Panic where
  | notCharBoundary
  deriving DecidableEq, Repr

/-! ## Normal forms and segments -/

/-- The loop of `normalize_literal`: `out` and `pending_space`. -/
def normalizeLiteralFrom (U : Unicode) : Text → Bool → Text → Text
  | out, _, [] => out
  | out, pendingSpace, c :: cs =>
    if U.isAlphanumeric c || c == '\'' || c == '-' then
      normalizeLiteralFrom U ((if pendingSpace && !out.isEmpty then out ++ [' '] else out) ++ [c]) false cs
    else normalizeLiteralFrom U out true cs

def normalizeLiteral (U : Unicode) (s : Text) : Text :=
  normalizeLiteralFrom U [] false (U.toLowercase s)

inductive Segment where
  | literal (lit : Text)
  | slot (name : Text)
  deriving DecidableEq, Repr

/-- An empty literal is not pushed. -/
def pushLiteral (buf : Text) : List Segment := if buf.isEmpty then [] else [.literal buf]

/-- The loop of `split_phrase`. The second argument is the slot name being
read, if the loop is inside a placeholder; an unclosed one ends with the
phrase. -/
def splitPhraseFrom : Text → Option Text → Text → List Segment
  | buf, none, [] => pushLiteral buf
  | _, some name, [] => [.slot name]
  | buf, none, c :: cs =>
    if c == '{' then pushLiteral buf ++ splitPhraseFrom [] (some []) cs
    else splitPhraseFrom (buf ++ [c]) none cs
  | _, some name, c :: cs =>
    if c == '}' then .slot name :: splitPhraseFrom [] none cs
    else splitPhraseFrom [] (some (name ++ [c])) cs

def splitPhrase (phrase : Text) : List Segment := splitPhraseFrom [] none phrase

example : splitPhrase "de \x7bn\x7d min\x7bu".toList =
    [.literal "de ".toList, .slot "n".toList, .literal " min".toList, .slot "u".toList] := by decide

theorem splitPhrase_slotless {phrase : Text} (h : '{' ∉ phrase) : splitPhrase phrase = pushLiteral phrase := by
  have hloop : ∀ (cs buf : Text), '{' ∉ cs → splitPhraseFrom buf none cs = pushLiteral (buf ++ cs) := by
    intro cs
    induction cs with
    | nil => intro buf _; rw [List.append_nil]; rfl
    | cons c cs ih =>
      intro buf hc
      have hne : (c == '{') = false := by
        rw [beq_eq_false_iff_ne]
        exact fun heq => hc (heq ▸ List.mem_cons_self)
      have hrest := ih (buf ++ [c]) (fun hm => hc (List.mem_cons_of_mem c hm))
      rw [List.append_assoc, List.singleton_append] at hrest
      simp only [splitPhraseFrom, hne, Bool.false_eq_true, if_false]
      exact hrest
  exact hloop phrase [] h

def slotMatchesKind (raw : Text) (rule : HostPatternRule) (slotName : Text) : Bool :=
  match rule.slots.find? (fun s => s.name == slotName) with
  | none => true
  | some spec =>
    match spec.kind with
    | .string => true
    | .number => parsesF64 raw
    | .oneOf options => options.any (fun opt => eqIgnoreAsciiCase opt raw)

/-- The contiguous word windows of one size. -/
def windows (words : List Text) (size : Nat) : List Text :=
  if size > words.length then []
  else (List.range (words.length - size + 1)).map
    (fun start => join [' '] ((words.drop start).take size))

def bestWindowSimilarity (F : Floats) (S : Strsim) (phrase input : Text) : ℚ :=
  let words := splitWhitespace input
  let n := (splitWhitespace phrase).length
  if n = 0 ∨ words.length ≤ n then 0
  else ([max (n - 1) 1, n, n + 1].flatMap (windows words)).foldl
    (fun best window => max best (S.normalized F phrase window)) 0

/-! ## Matching one phrase -/

/-- What the walk over the segments carries. -/
structure Walk where
  cursor : Nat
  slots : Slots
  filledPhrase : Text

/-- A literal segment: found at or after the cursor, or found with its trailing
white space trimmed, or the phrase does not match. -/
def walkLiteral (U : Unicode) (normalisedInput lit : Text) (w : Walk) : Except Panic (Option Walk) :=
  let litLower := U.toLowercase lit
  match sliceFrom normalisedInput w.cursor with
  | none => .error .notCharBoundary
  | some rest =>
    match find rest litLower with
    | some hit =>
      .ok (some { w with cursor := w.cursor + (hit + len litLower),
                         filledPhrase := w.filledPhrase ++ lit })
    | none =>
      match find rest (trimEnd litLower) with
      | none => .ok none
      | some hit =>
        .ok (some { w with cursor := w.cursor + (hit + len (trimEnd litLower)),
                           filledPhrase := w.filledPhrase ++ trimEnd lit })

/-- Where a slot value ends: at the next literal, at the cursor if that literal
is not found, or at the end of the utterance. -/
def slotEnd (U : Unicode) (normalisedInput : Text) (next : Option Segment) (cursor : Nat) :
    Except Panic Nat :=
  match next with
  | some (.literal lit) =>
    match sliceFrom normalisedInput cursor with
    | none => .error .notCharBoundary
    | some rest => .ok (cursor + (find rest (U.toLowercase lit)).getD 0)
  | _ => .ok (len normalisedInput)

/-- A slot segment: the trimmed text of the original utterance between the
cursor and the end, or null. -/
def walkSlot (U : Unicode) (rule : HostPatternRule) (input normalisedInput name : Text)
    (next : Option Segment) (w : Walk) : Except Panic Walk :=
  match slotEnd U normalisedInput next w.cursor with
  | .error e => .error e
  | .ok stop =>
    match (getRange input w.cursor stop).map trim with
    | none => .ok { w with slots := w.slots.insert name none }
    | some raw =>
      if !raw.isEmpty && slotMatchesKind raw rule name then
        .ok { cursor := stop, slots := w.slots.insert name (some raw),
              filledPhrase := w.filledPhrase ++ raw }
      else .ok { w with slots := w.slots.insert name none }

def walk (U : Unicode) (rule : HostPatternRule) (input normalisedInput : Text) :
    List Segment → Walk → Except Panic (Option Walk)
  | [], w => .ok (some w)
  | .literal lit :: rest, w =>
    match walkLiteral U normalisedInput lit w with
    | .error e => .error e
    | .ok none => .ok none
    | .ok (some w') => walk U rule input normalisedInput rest w'
  | .slot name :: rest, w =>
    match walkSlot U rule input normalisedInput name rest.head? w with
    | .error e => .error e
    | .ok w' => walk U rule input normalisedInput rest w'

/-- The whole-phrase branch of `try_match_phrase`. -/
def matchLiteral (F : Floats) (U : Unicode) (S : Strsim) (lit : Text) (rule : HostPatternRule) (input : Text) :
    IntentMatch :=
  let litLower := normalizeLiteral U lit
  let inputNorm := normalizeLiteral U input
  let whole := S.normalized F litLower inputNorm
  { intent := { name := rule.intent, slots := [], locale := [] }
    skill := []
    confidence := F.f32.round
      (max whole (F.f64.round (bestWindowSimilarity F S litLower inputNorm * F.f64.round (95 / 100))))
    specificity := (splitWhitespace litLower).length }

def tryMatchPhrase (F : Floats) (U : Unicode) (S : Strsim) (phrase : Text) (rule : HostPatternRule) (input : Text) :
    Except Panic (Option IntentMatch) :=
  let segments := splitPhrase phrase
  let normalisedInput := U.toLowercase input
  match segments with
  | [.literal lit] => .ok (some (matchLiteral F U S lit rule input))
  | _ =>
    match walk U rule input normalisedInput segments { cursor := 0, slots := [], filledPhrase := [] } with
    | .error e => .error e
    | .ok none => .ok none
    | .ok (some w) =>
      .ok (some
        { intent := { name := rule.intent, slots := w.slots, locale := [] }
          skill := []
          confidence := F.f32.round (S.normalized F (U.toLowercase w.filledPhrase) normalisedInput)
          specificity := (splitWhitespace w.filledPhrase).length })

/-! ## The best candidate -/

/-- Confidence and specificity, all that the choice looks at. -/
abbrev Rank := ℚ × Nat

def IntentMatch.rank (m : IntentMatch) : Rank := (m.confidence, m.specificity)

/-- `better`: within the band the more specific candidate wins, outside it the
more confident one. -/
def better (F : Floats) (c b : Rank) : Prop :=
  let diff := F.f32.round (c.1 - b.1)
  if |diff| ≤ SPECIFICITY_EPSILON F then c.2 > b.2 else diff > 0

instance (F : Floats) : DecidableRel (better F) := fun c b => by unfold better; infer_instance

-- 1 and 0.95 are 0.05 apart, in `f32` more than that
example : better .exact (Floats.exact.f32.round (19 / 20), 6) (1, 5) ∧
    better .ieee (1, 5) (Floats.ieee.f32.round (19 / 20), 6) := by decide +kernel

/-- The body of the inner loop of `find_match`. -/
def considerPhrase (F : Floats) (U : Unicode) (S : Strsim) (text : Text) (rule : HostPatternRule) (skill : Text)
    (best : Option IntentMatch) (phrase : Text) : Except Panic (Option IntentMatch) :=
  match tryMatchPhrase F U S phrase rule text with
  | .error e => .error e
  | .ok none => .ok best
  | .ok (some candidate) =>
    if candidate.confidence ≥ MATCH_THRESHOLD F then
      let withSkill := candidate.withSkill skill
      match best with
      | none => .ok (some withSkill)
      | some b => if better F withSkill.rank b.rank then .ok (some withSkill) else .ok (some b)
    else .ok best

def findMatch (F : Floats) (U : Unicode) (S : Strsim) (text locale : Text) (index : RuleIndex) :
    Except Panic (Option IntentMatch) :=
  match index.forLocale locale with
  | none => .ok none
  | some rules =>
    rules.foldlM
      (fun best entry => entry.1.phrases.foldlM (considerPhrase F U S text entry.1 entry.2) best) none

/-! ## No slice panics -/

theorem walkLiteral_ok (U : Unicode) (n lit : Text) {w : Walk} (hw : IsCharBoundary n w.cursor) :
    ∃ r, walkLiteral U n lit w = .ok r ∧ ∀ w', r = some w' → IsCharBoundary n w'.cursor := by
  obtain ⟨rest, hrest⟩ := sliceFrom_isSome_iff.mpr hw
  unfold walkLiteral
  rw [hrest]
  cases hf : find rest (U.toLowercase lit) with
  | some hit =>
    refine ⟨some { w with cursor := w.cursor + (hit + len (U.toLowercase lit)),
                          filledPhrase := w.filledPhrase ++ lit }, by simp [hf], ?_⟩
    intro w' h
    cases h
    exact (IsCharBoundary.find hrest hf).2
  | none =>
    cases hg : find rest (trimEnd (U.toLowercase lit)) with
    | none => exact ⟨none, by simp [hf, hg], fun _ h => by cases h⟩
    | some hit =>
      refine ⟨some { w with cursor := w.cursor + (hit + len (trimEnd (U.toLowercase lit))),
                            filledPhrase := w.filledPhrase ++ trimEnd lit }, by simp [hf, hg], ?_⟩
      intro w' h
      cases h
      exact (IsCharBoundary.find hrest hg).2

theorem slotEnd_ok (U : Unicode) (n : Text) (next : Option Segment) {cursor : Nat}
    (hw : IsCharBoundary n cursor) :
    ∃ stop, slotEnd U n next cursor = .ok stop ∧ IsCharBoundary n stop := by
  unfold slotEnd
  split
  · rename_i lit
    obtain ⟨rest, hrest⟩ := sliceFrom_isSome_iff.mpr hw
    rw [hrest]
    cases hf : find rest (U.toLowercase lit) with
    | none => exact ⟨cursor, by simp [hf], hw⟩
    | some hit => exact ⟨cursor + hit, by simp [hf], (IsCharBoundary.find hrest hf).1⟩
  · exact ⟨_, rfl, IsCharBoundary.len n⟩

theorem walkSlot_ok (U : Unicode) (rule : HostPatternRule) (input n name : Text) (next : Option Segment)
    {w : Walk} (hw : IsCharBoundary n w.cursor) :
    ∃ w', walkSlot U rule input n name next w = .ok w' ∧ IsCharBoundary n w'.cursor := by
  obtain ⟨stop, hstop, hb⟩ := slotEnd_ok U n next hw
  unfold walkSlot
  rw [hstop]
  simp only
  split
  · exact ⟨_, rfl, hw⟩
  · split
    · exact ⟨_, rfl, hb⟩
    · exact ⟨_, rfl, hw⟩

theorem walk_ok (U : Unicode) (rule : HostPatternRule) (input n : Text) :
    ∀ (segments : List Segment) (w : Walk), IsCharBoundary n w.cursor →
      ∃ r, walk U rule input n segments w = .ok r := by
  intro segments
  induction segments with
  | nil => intro w _; exact ⟨some w, rfl⟩
  | cons seg rest ih =>
    intro w hw
    cases seg with
    | literal lit =>
      obtain ⟨r, hr, hb⟩ := walkLiteral_ok U n lit hw
      cases r with
      | none => exact ⟨none, by simp [walk, hr]⟩
      | some w' =>
        obtain ⟨r', hr'⟩ := ih w' (hb w' rfl)
        exact ⟨r', by simp [walk, hr, hr']⟩
    | slot name =>
      obtain ⟨w', hw', hb⟩ := walkSlot_ok U rule input n name rest.head? hw
      obtain ⟨r', hr'⟩ := ih w' hb
      exact ⟨r', by simp [walk, hw', hr']⟩

/-- **No panic.** Matching a phrase never slices inside a character. -/
theorem tryMatchPhrase_ok (F : Floats) (U : Unicode) (S : Strsim) (phrase : Text) (rule : HostPatternRule)
    (input : Text) : ∃ r, tryMatchPhrase F U S phrase rule input = .ok r := by
  unfold tryMatchPhrase
  simp only
  split
  · exact ⟨_, rfl⟩
  · obtain ⟨r, hr⟩ := walk_ok U rule input (U.toLowercase input) (splitPhrase phrase)
      { cursor := 0, slots := [], filledPhrase := [] } (IsCharBoundary.zero _)
    rw [hr]
    cases r with
    | none => exact ⟨none, rfl⟩
    | some w => exact ⟨_, rfl⟩

/-! ## Candidates -/

variable (F : Floats) (U : Unicode) (S : Strsim)

/-- What a phrase contributes to the choice. -/
def phraseCandidate (text : Text) (rule : HostPatternRule) (skill phrase : Text) : Option IntentMatch :=
  match tryMatchPhrase F U S phrase rule text with
  | .ok (some candidate) =>
    if candidate.confidence ≥ MATCH_THRESHOLD F then some (candidate.withSkill skill) else none
  | _ => none

/-- What an entry contributes, in phrase order. -/
def entryCandidates (text : Text) (entry : RuleEntry) : List IntentMatch :=
  entry.1.phrases.filterMap (phraseCandidate F U S text entry.1 entry.2)

/-- The candidates of a locale, in index order. -/
def candidates (text locale : Text) (index : RuleIndex) : List IntentMatch :=
  (index.entries locale).flatMap (entryCandidates F U S text)

theorem considerPhrase_eq (text : Text) (rule : HostPatternRule) (skill : Text)
    (best : Option IntentMatch) (phrase : Text) :
    considerPhrase F U S text rule skill best phrase =
      .ok ((phraseCandidate F U S text rule skill phrase).toList.foldl
        (pick IntentMatch.rank (better F)) best) := by
  obtain ⟨r, hr⟩ := tryMatchPhrase_ok F U S phrase rule text
  unfold considerPhrase phraseCandidate
  rw [hr]
  cases r with
  | none => rfl
  | some c =>
    simp only
    split
    · cases best with
      | none => rfl
      | some b =>
        simp only [Option.toList, List.foldl_cons, List.foldl_nil, pick]
        split <;> rfl
    · rfl

theorem foldlM_considerPhrase (text : Text) (rule : HostPatternRule) (skill : Text) :
    ∀ (phrases : List Text) (best : Option IntentMatch),
      phrases.foldlM (considerPhrase F U S text rule skill) best =
        .ok ((phrases.filterMap (phraseCandidate F U S text rule skill)).foldl
          (pick IntentMatch.rank (better F)) best) := by
  intro phrases
  induction phrases with
  | nil => intro best; rfl
  | cons phrase rest ih =>
    intro best
    rw [List.foldlM_cons, considerPhrase_eq]
    show rest.foldlM _ _ = _
    rw [ih, List.filterMap_cons]
    cases phraseCandidate F U S text rule skill phrase <;> rfl

/-- **`find_match` selects among the candidates of the locale.** -/
theorem findMatch_eq (text locale : Text) (index : RuleIndex) :
    findMatch F U S text locale index =
      .ok (select IntentMatch.rank (better F) (candidates F U S text locale index)) := by
  have hfold : ∀ (rules : List RuleEntry) (best : Option IntentMatch),
      rules.foldlM
        (fun best entry => entry.1.phrases.foldlM (considerPhrase F U S text entry.1 entry.2) best) best =
      .ok ((rules.flatMap (entryCandidates F U S text)).foldl (pick IntentMatch.rank (better F)) best) := by
    intro rules
    induction rules with
    | nil => intro best; rfl
    | cons entry rest ih =>
      intro best
      rw [List.foldlM_cons, foldlM_considerPhrase]
      show rest.foldlM _ _ = _
      rw [ih, List.flatMap_cons, List.foldl_append]
      rfl
  unfold findMatch candidates RuleIndex.entries select
  cases index.forLocale locale with
  | none => rfl
  | some rules => exact hfold rules none

/-! ## Confidences -/

theorem bestWindowSimilarity_le_one (phrase input : Text) : bestWindowSimilarity F S phrase input ≤ 1 := by
  have hfold : ∀ (ws : List Text) (best : ℚ), best ≤ 1 →
      ws.foldl (fun best window => max best (S.normalized F phrase window)) best ≤ 1 := by
    intro ws
    induction ws with
    | nil => intro best h; exact h
    | cons w ws ih => intro best h; exact ih _ (max_le h (S.normalized_le_one F phrase w))
  unfold bestWindowSimilarity
  simp only
  split
  · exact zero_le_one
  · exact hfold _ _ zero_le_one

theorem bestWindowSimilarity_nonneg (phrase input : Text) : 0 ≤ bestWindowSimilarity F S phrase input := by
  have hfold : ∀ (ws : List Text) (best : ℚ), 0 ≤ best →
      0 ≤ ws.foldl (fun best window => max best (S.normalized F phrase window)) best := by
    intro ws
    induction ws with
    | nil => intro best h; exact h
    | cons w ws ih => intro best h; exact ih _ (le_max_of_le_left h)
  unfold bestWindowSimilarity
  simp only
  split
  · exact le_refl 0
  · exact hfold _ _ (le_refl 0)

theorem window_le_one (phrase input : Text) :
    F.f64.round (bestWindowSimilarity F S phrase input * F.f64.round (95 / 100)) ≤ 1 := by
  have hfactor := F.f64.round_le_one (show (95 / 100 : ℚ) ≤ 1 by norm_num)
  exact F.f64.round_le_one ((mul_le_of_le_one_right (bestWindowSimilarity_nonneg F S phrase input) hfactor).trans
    (bestWindowSimilarity_le_one F S phrase input))

theorem matchLiteral_confidence_le_one (lit : Text) (rule : HostPatternRule) (input : Text) :
    (matchLiteral F U S lit rule input).confidence ≤ 1 :=
  F.f32.round_le_one (max_le (S.normalized_le_one F _ _) (window_le_one F S _ _))

/-- No candidate is more confident than 1. -/
theorem confidence_le_one {phrase input : Text} {rule : HostPatternRule} {c : IntentMatch}
    (h : tryMatchPhrase F U S phrase rule input = .ok (some c)) : c.confidence ≤ 1 := by
  unfold tryMatchPhrase at h
  simp only at h
  split at h
  · cases h
    exact matchLiteral_confidence_le_one F U S _ _ _
  · split at h
    · cases h
    · cases h
    · cases h
      exact F.f32.round_le_one (S.normalized_le_one F _ _)

theorem confidence_rounded {phrase input : Text} {rule : HostPatternRule} {c : IntentMatch}
    (h : tryMatchPhrase F U S phrase rule input = .ok (some c)) : F.f32.round c.confidence = c.confidence := by
  unfold tryMatchPhrase at h
  simp only at h
  split at h
  · cases h
    exact F.f32.round_round _
  · split at h
    · cases h
    · cases h
    · cases h
      exact F.f32.round_round _

theorem mem_candidates {text locale : Text} {index : RuleIndex} {m : IntentMatch} :
    m ∈ candidates F U S text locale index ↔ ∃ entry ∈ index.entries locale, ∃ phrase ∈ entry.1.phrases,
      ∃ c, tryMatchPhrase F U S phrase entry.1 text = .ok (some c) ∧ c.confidence ≥ MATCH_THRESHOLD F ∧
        m = c.withSkill entry.2 := by
  have hphrase : ∀ (entry : RuleEntry) (phrase : Text),
      phraseCandidate F U S text entry.1 entry.2 phrase = some m ↔
        ∃ c, tryMatchPhrase F U S phrase entry.1 text = .ok (some c) ∧ c.confidence ≥ MATCH_THRESHOLD F ∧
          m = c.withSkill entry.2 := by
    intro entry phrase
    unfold phraseCandidate
    obtain ⟨r, hr⟩ := tryMatchPhrase_ok F U S phrase entry.1 text
    rw [hr]
    cases r with
    | none => simp
    | some c =>
      simp only
      split
      · rename_i hc
        refine ⟨?_, ?_⟩
        · intro h
          cases h
          exact ⟨c, rfl, hc, rfl⟩
        · intro h
          obtain ⟨c', hc', -, rfl⟩ := h
          cases hc'
          rfl
      · rename_i hc
        refine ⟨?_, ?_⟩
        · intro h
          cases h
        intro h
        obtain ⟨c', hc', hthr, -⟩ := h
        cases hc'
        exact absurd hthr hc
  simp only [candidates, entryCandidates, List.mem_flatMap, List.mem_filterMap, hphrase]

section

variable {F U S} {text locale : Text} {index : RuleIndex} {m m' : IntentMatch}

theorem candidate_confidence_le_one (h : m ∈ candidates F U S text locale index) : m.confidence ≤ 1 := by
  obtain ⟨entry, -, phrase, -, c, hc, -, rfl⟩ := (mem_candidates F U S).mp h
  show c.confidence ≤ 1
  exact confidence_le_one F U S hc

theorem candidate_confidence_ge (h : m ∈ candidates F U S text locale index) : 1 / 2 ≤ m.confidence := by
  obtain ⟨entry, -, phrase, -, c, -, hthr, rfl⟩ := (mem_candidates F U S).mp h
  have hhalf := F.f32.half_le_round (show (1 / 2 : ℚ) ≤ 8 / 10 by norm_num)
  exact hhalf.trans hthr

/-- Two candidates are both between 1/2 and 1, so their difference is exact. -/
theorem candidate_diff_exact (h : m ∈ candidates F U S text locale index)
    (h' : m' ∈ candidates F U S text locale index) :
    F.f32.round (m.confidence - m'.confidence) = m.confidence - m'.confidence := by
  have hrounded : ∀ {c}, c ∈ candidates F U S text locale index → F.f32.round c.confidence = c.confidence := by
    intro c hc
    obtain ⟨entry, -, phrase, -, c', hc', -, rfl⟩ := (mem_candidates F U S).mp hc
    show F.f32.round c'.confidence = c'.confidence
    exact confidence_rounded F U S hc'
  have hge := candidate_confidence_ge h
  have hge' := candidate_confidence_ge h'
  have hle := candidate_confidence_le_one h
  have hle' := candidate_confidence_le_one h'
  exact F.f32.round_sub (hrounded h) (hrounded h') (by linarith) (by linarith)

end

end AthenaVoice.Intent
