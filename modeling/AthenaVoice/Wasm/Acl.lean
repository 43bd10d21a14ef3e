import AthenaVoice.Lib.Filter
import AthenaVoice.Lib.Levels
import AthenaVoice.Lib.Str

/-
  What a skill may publish — `wasm/host_fns.rs`

  A skill publishes under its own prefix, and to what its allowlist's filters
  match. The matcher is a loop over the levels of the filter, with the index
  into those of the topic; what it is to decide is `Filter.Matches`.

  What is proved:
    1. `matchFrom_iff` — the loop from any level on, against the relation.
    2. `mqttTopicAllowed_iff` — the own prefix is a filter of its own.
    3. `publish_acl` — the matcher is the relation, the check is the prefix or a
       filter, and the prefixes of two skills have no topic in common.

  Correspondence (Rust ↔ Lean):
    `mqtt_topic_prefix`      `mqttTopicPrefix`
    `mqtt_topic_allowed`     `mqttTopicAllowed`
    `mqtt_topic_matches`     `mqttTopicMatches`, its loop `matchFrom`
    `mqtt_publish_allowed`   `mqttPublishAllowed`
-/

namespace AthenaVoice.Wasm

open Lib Filter

def mqttTopicPrefix (skill : Text) : Text := "athena/skills/".toList ++ skill ++ "/".toList

def mqttTopicAllowed (skill topic : Text) : Bool := (mqttTopicPrefix skill).isPrefixOf topic

/-- The loop of `mqtt_topic_matches`: the levels of the pattern left, the first
of them its `i`-th. -/
def matchFrom (patLevels : Nat) (topicLevels : List Text) : Nat → List Text → Bool
  | _, [] => patLevels == topicLevels.length
  | i, p :: rest =>
    if p = "#".toList then i + 1 == patLevels
    else
      match topicLevels[i]? with
      | none => false
      | some t =>
        if p = "+".toList then matchFrom patLevels topicLevels (i + 1) rest
        else if p ≠ t then false
        else matchFrom patLevels topicLevels (i + 1) rest

def mqttTopicMatches (pattern topic : Text) : Bool :=
  matchFrom (pattern.splitOn '/').length (topic.splitOn '/') 0 (pattern.splitOn '/')

def mqttPublishAllowed (skill topic : Text) (publishAllowlist : List Text) : Bool :=
  if mqttTopicAllowed skill topic then true
  else publishAllowlist.any (fun pattern => mqttTopicMatches pattern topic)

/-! ## The matcher -/

/-- What a level of a filter stands for. -/
def level (p : Text) : Level Text :=
  if p = "#".toList then .tail else if p = "+".toList then .one else .exact p

def filter (pattern : Text) : List (Level Text) := (pattern.splitOn '/').map level

theorem matches_level_cons {p : Text} (hhash : p ≠ "#".toList) {ps : List (Level Text)} {ts : List Text} :
    Matches (level p :: ps) ts ↔ ∃ t rest, ts = t :: rest ∧ (p = "+".toList ∨ p = t) ∧ Matches ps rest := by
  rw [level, if_neg hhash]
  by_cases hplus : p = "+".toList
  · rw [if_pos hplus, matches_one_cons]
    simp only [hplus, true_or, true_and]
  · rw [if_neg hplus, matches_exact_cons]
    refine ⟨?_, ?_⟩
    · intro h
      obtain ⟨rest, hts, hrest⟩ := h
      exact ⟨p, rest, hts, .inr rfl, hrest⟩
    · intro h
      obtain ⟨t, rest, hts, hlevel, hrest⟩ := h
      rw [hlevel.resolve_left hplus]
      exact ⟨rest, hts, hrest⟩

/-- One turn of the loop, on a level that is no tail: a `+` passes, and so does the
level of the topic. -/
theorem turn_iff {p t : Text} {next : Bool} :
    (if p = "+".toList then next else if p ≠ t then false else next) = true ↔ (p = "+".toList ∨ p = t) ∧
      next = true := by
  by_cases hplus : p = "+".toList
  · rw [if_pos hplus]
    exact ⟨fun h => ⟨.inl hplus, h⟩, And.right⟩
  · rw [if_neg hplus]
    by_cases hp : p = t
    · rw [if_neg (not_not_intro hp)]
      exact ⟨fun h => ⟨.inr hp, h⟩, And.right⟩
    · rw [if_pos hp]
      exact ⟨nofun, fun h => absurd h.1 (not_or.mpr ⟨hplus, hp⟩)⟩

/-- From the `i`-th level on, the loop decides whether the rest of the filter
matches the rest of the topic. -/
theorem matchFrom_iff {patLevels : Nat} {topicLevels : List Text} : ∀ {i : Nat} {rest : List Text},
    i + rest.length = patLevels → i ≤ topicLevels.length →
      (matchFrom patLevels topicLevels i rest = true ↔ Matches (rest.map level) (topicLevels.drop i)) := by
  intro i rest
  induction rest generalizing i with
  | nil =>
    intro hlength hi
    rw [matchFrom, List.map_nil, matches_nil, List.drop_eq_nil_iff, beq_iff_eq]
    rw [List.length_nil] at hlength
    omega
  | cons p rest ih =>
    intro hlength hi
    rw [List.length_cons] at hlength
    rw [List.map_cons, matchFrom]
    by_cases hhash : p = "#".toList
    · rw [if_pos hhash, level, if_pos hhash, matches_tail_cons, beq_iff_eq, List.map_eq_nil_iff,
        ← List.length_eq_zero_iff]
      omega
    · rw [if_neg hhash, matches_level_cons hhash]
      cases ht : topicLevels[i]? with
      | none =>
        have hend : topicLevels.drop i = [] := List.drop_eq_nil_of_le (List.getElem?_eq_none_iff.mp ht)
        rw [hend]
        refine ⟨nofun, ?_⟩
        intro h
        obtain ⟨t, others, hts, -⟩ := h
        cases hts
      | some t =>
        obtain ⟨hlt, hget⟩ := List.getElem?_eq_some_iff.mp ht
        have hdrop : topicLevels.drop i = t :: topicLevels.drop (i + 1) := by
          rw [List.drop_eq_getElem_cons hlt, hget]
        have hnext := ih (i := i + 1) (by omega) hlt
        show (if p = "+".toList then matchFrom patLevels topicLevels (i + 1) rest
            else if p ≠ t then false else matchFrom patLevels topicLevels (i + 1) rest) = true ↔ _
        rw [turn_iff, hnext, hdrop]
        refine ⟨?_, ?_⟩
        · intro h
          exact ⟨t, topicLevels.drop (i + 1), rfl, h⟩
        · intro h
          obtain ⟨t', others, hts, h⟩ := h
          cases hts
          exact h

theorem mqttTopicMatches_iff (pattern topic : Text) :
    mqttTopicMatches pattern topic = true ↔ Matches (filter pattern) (topic.splitOn '/') :=
  matchFrom_iff (Nat.zero_add _) (Nat.zero_le _)

-- a tail lets its parent through
example : mqttTopicMatches "home/#".toList "home".toList = true := by decide

/-! ## The own namespace -/

/-- The topics under a skill's prefix, as a filter. -/
def ownFilter (skill : Text) : List (Level Text) :=
  [.exact "athena".toList, .exact "skills".toList, .exact skill, .one, .tail]

theorem mqttTopicAllowed_iff_below {skill topic : Text} :
    mqttTopicAllowed skill topic = true ↔ (mqttTopicPrefix skill).IsPrefix topic := List.isPrefixOf_iff_prefix

theorem mqttTopicPrefix_append (skill rest : Text) : mqttTopicPrefix skill ++ rest =
    "athena".toList ++ '/' :: ("skills".toList ++ '/' :: (skill ++ '/' :: rest)) := by
  have hwords : ∀ t : Text, "athena/skills/".toList ++ t =
    "athena".toList ++ '/' :: ("skills".toList ++ '/' :: t) := by
    intro t
    rfl
  have hassoc : ∀ a b c d : Text, a ++ b ++ c ++ d = a ++ (b ++ (c ++ d)) := by
    intro a b c d
    simp only [List.append_assoc]
  calc mqttTopicPrefix skill ++ rest
      = "athena/skills/".toList ++ (skill ++ '/' :: rest) := hassoc "athena/skills/".toList skill ['/'] rest
    _ = "athena".toList ++ '/' :: ("skills".toList ++ '/' :: (skill ++ '/' :: rest)) := hwords _

theorem mqttTopicAllowed_iff {skill topic : Text} (hskill : '/' ∉ skill) :
    mqttTopicAllowed skill topic = true ↔ Matches (ownFilter skill) (topic.splitOn '/') := by
  rw [mqttTopicAllowed_iff_below]
  refine ⟨?_, ?_⟩
  · intro h
    obtain ⟨rest, rfl⟩ := h
    obtain ⟨first, others, hrest⟩ := List.exists_cons_of_ne_nil (List.splitOn_ne_nil '/' rest)
    have hathena := List.splitOn_append_cons_self_of_not_mem (show '/' ∉ "athena".toList by decide)
      ("skills".toList ++ '/' :: (skill ++ '/' :: rest))
    have hskills := List.splitOn_append_cons_self_of_not_mem (show '/' ∉ "skills".toList by decide)
      (skill ++ '/' :: rest)
    rw [mqttTopicPrefix_append, hathena, hskills, List.splitOn_append_cons_self_of_not_mem hskill rest, hrest]
    exact .exact _ (.exact _ (.exact _ (.one first (.tail others))))
  · intro h
    obtain ⟨_, hlevels, h⟩ := matches_exact_cons.mp h
    obtain ⟨_, hskills, h⟩ := matches_exact_cons.mp h
    obtain ⟨_, hname, h⟩ := matches_exact_cons.mp h
    obtain ⟨first, others, hrest, -⟩ := matches_one_cons.mp h
    rw [hskills, hname, hrest] at hlevels
    refine ⟨['/'].intercalate (first :: others), ?_⟩
    rw [mqttTopicPrefix_append, (Levels.splitOn_eq_iff.mp hlevels).2.2, List.intercalate_cons_cons,
      List.intercalate_cons_cons, List.intercalate_cons_cons]
    simp only [List.append_assoc, List.singleton_append]

/-- What a skill may publish, for all patterns, topics and skills. -/
theorem publish_acl :
    (∀ pattern topic : Text,
      mqttTopicMatches pattern topic = true ↔ Matches (filter pattern) (topic.splitOn '/')) ∧
    (∀ (skill topic : Text) (publishAllowlist : List Text),
      mqttPublishAllowed skill topic publishAllowlist = true ↔
        (mqttTopicPrefix skill).IsPrefix topic ∨
          ∃ pattern ∈ publishAllowlist, Matches (filter pattern) (topic.splitOn '/')) ∧
    (∀ skill skill' topic : Text, '/' ∉ skill → '/' ∉ skill' → skill ≠ skill' →
      ¬ (mqttTopicAllowed skill topic = true ∧ mqttTopicAllowed skill' topic = true)) := by
  refine ⟨mqttTopicMatches_iff, ?_, ?_⟩
  · intro skill topic publishAllowlist
    rw [mqttPublishAllowed, ← mqttTopicAllowed_iff_below]
    split
    · rename_i hown
      simp [hown]
    · rename_i hforeign
      simp only [hforeign, Bool.false_eq_true, false_or, List.any_eq_true, mqttTopicMatches_iff]
  · intro skill skill' topic hskill hskill' hne hboth
    have hown := (mqttTopicAllowed_iff hskill).mp hboth.1
    have hown' := (mqttTopicAllowed_iff hskill').mp hboth.2
    have htail : Level.tail ∉ ([.exact "athena".toList, .exact "skills".toList] : List (Level Text)) := by decide
    have hsame : skill = skill' := Matches.exact_unique htail htail rfl hown hown'
    exact hne hsame

end AthenaVoice.Wasm
