import AthenaVoice.Assist.Topics
import AthenaVoice.Core.Ids
import AthenaVoice.Esp32.Session
import AthenaVoice.Lib.Levels
import AthenaVoice.Pipeline.Sink

/-
  The topics of the satellites — `mqtt/topics.rs`

  A topic is levels between slashes. The builders put the configured root in
  front as it is; the parser wants six levels, the first of them the root. So a
  root with a slash in it, which the configuration takes, is one no topic is
  parsed under, the ones built for it included.

  What is proved:
    1. `parseSatelliteTopic_eq_some` — what parses, level by level.
    2. `splitOn_sessionTopic` — the levels of what the satellite, the client,
       the console and the runtime build.
    3. `topics_roundtrip_iff` — every topic built for the runtime is parsed back,
       nothing else is, exactly under the roots of one level.

  Correspondence (Rust ↔ Lean):
    `session_*`, `event_topic`,
    `provider_request`, `provider_response`     the same
    `ParsedTopic`, `parse_satellite_topic`      the same
    `base` of `athena-voice-client`             `clientBase`
    `session_base` of `athena-voice-admin`      `adminBase`
    `Session::topic` of `satellite-esp32`       `Esp32.Session.topic`
-/

namespace AthenaVoice.Mqtt

open Lib

/-! ## Builders -/

/-- `<root>/sat/<sat>/session/<sid>`, as the client writes it. -/
def clientBase (topicRoot satellite sid : Text) : Text :=
  topicRoot ++ "/sat/".toList ++ satellite ++ "/session/".toList ++ sid

/-- `session_base` of the console. -/
def adminBase (topicRoot sid : Text) : Text := clientBase topicRoot "admin-ui".toList sid

def sessionTopic (root sat sid leaf : Text) : Text := clientBase root sat sid ++ '/' :: leaf

def eventTopic (root kind : Text) : Text := root ++ "/events/".toList ++ kind

def providerTopic (root kind name leaf : Text) : Text :=
  root ++ "/providers/".toList ++ kind ++ '/' :: name ++ '/' :: leaf

def providerRequest (root kind name : Text) : Text := providerTopic root kind name "request".toList

def providerResponse (root kind name : Text) : Text := providerTopic root kind name "response".toList

inductive ParsedTopic (Uuid : Type) where
  | start (sat : SatelliteId) (sid : Uuid)
  | audio (sat : SatelliteId) (sid : Uuid)
  | text (sat : SatelliteId) (sid : Uuid)
  /-- `End`. -/
  | finish (sat : SatelliteId) (sid : Uuid)
  deriving DecidableEq, Repr

namespace ParsedTopic

variable {Uuid : Type}

def sat : ParsedTopic Uuid → SatelliteId
  | .start sat _ | .audio sat _ | .text sat _ | .finish sat _ => sat

def sid : ParsedTopic Uuid → Uuid
  | .start _ sid | .audio _ sid | .text _ sid | .finish _ sid => sid

def leaf : ParsedTopic Uuid → Text
  | .start _ _ => "start".toList
  | .audio _ _ => "audio".toList
  | .text _ _ => "text".toList
  | .finish _ _ => "end".toList

def leaves : List Text := ["start".toList, "audio".toList, "text".toList, "end".toList]

theorem mem_leaves (p : ParsedTopic Uuid) : p.leaf ∈ leaves := by
  cases p with
  | start sat sid => exact .head _
  | audio sat sid => exact .tail _ (.head _)
  | text sat sid => exact .tail _ (.tail _ (.head _))
  | finish sat sid => exact .tail _ (.tail _ (.tail _ (.head _)))

theorem leaf_slash (p : ParsedTopic Uuid) : '/' ∉ p.leaf := by
  have hall : ∀ leaf ∈ leaves, '/' ∉ leaf := by decide
  exact hall p.leaf p.mem_leaves

theorem ne_leaf {word : Text} (h : word ∉ leaves) (p : ParsedTopic Uuid) : word ≠ p.leaf := by
  intro hword
  apply h
  rw [hword]
  exact p.mem_leaves

end ParsedTopic

section

variable {Uuid : Type} (uuids : Uuids Uuid)

def sessionTranscript (root : Text) (sat : SatelliteId) (sid : Uuid) : Text :=
  sessionTopic root sat.text (uuids.display sid) "transcript".toList

def sessionTts (root : Text) (sat : SatelliteId) (sid : Uuid) : Text :=
  sessionTopic root sat.text (uuids.display sid) "tts".toList

def sessionTtsMeta (root : Text) (sat : SatelliteId) (sid : Uuid) : Text :=
  sessionTopic root sat.text (uuids.display sid) "tts/meta".toList

def sessionTtsText (root : Text) (sat : SatelliteId) (sid : Uuid) : Text :=
  sessionTopic root sat.text (uuids.display sid) "tts/text".toList

def sessionDone (root : Text) (sat : SatelliteId) (sid : Uuid) : Text :=
  sessionTopic root sat.text (uuids.display sid) "done".toList

/-- The topic a satellite, the client or the console publishes it on. -/
def ParsedTopic.topic (root : Text) (p : ParsedTopic Uuid) : Text :=
  sessionTopic root p.sat.text (uuids.display p.sid) p.leaf

/-- The last level's word, matched. -/
def ParsedTopic.ofLeaf (sat : SatelliteId) (sid : Uuid) (leaf : Text) : Option (ParsedTopic Uuid) :=
  if leaf = "start".toList then some (.start sat sid)
  else if leaf = "audio".toList then some (.audio sat sid)
  else if leaf = "text".toList then some (.text sat sid)
  else if leaf = "end".toList then some (.finish sat sid)
  else none

def parseSatelliteTopic (root topic : Text) : Option (ParsedTopic Uuid) :=
  match topic.splitOn '/' with
  | [first, second, third, fourth, fifth, sixth] =>
    if first ≠ root ∨ second ≠ "sat".toList ∨ fourth ≠ "session".toList then none
    else
      match SatelliteId.new third, uuids.parseStr fifth with
      | .ok sat, some sid => ParsedTopic.ofLeaf sat sid sixth
      | _, _ => none
  | _ => none

/-! ## The levels of what is parsed -/

theorem ofLeaf_eq_some {sat : SatelliteId} {sid : Uuid} {leaf : Text} {p : ParsedTopic Uuid}
    (h : ParsedTopic.ofLeaf sat sid leaf = some p) : p.sat = sat ∧ p.sid = sid ∧ p.leaf = leaf := by
  unfold ParsedTopic.ofLeaf at h
  repeat' split at h
  all_goals first
    | (rename_i hleaf
       rw [← Option.some.inj h]
       exact ⟨rfl, rfl, hleaf.symm⟩)
    | cases h

/-- What parses has six levels, and these. -/
theorem parseSatelliteTopic_eq_some {root topic : Text} {p : ParsedTopic Uuid} :
    parseSatelliteTopic uuids root topic = some p ↔
      ∃ sid, uuids.parseStr sid = some p.sid ∧
        topic.splitOn '/' = [root, "sat".toList, p.sat.text, "session".toList, sid, p.leaf] := by
  refine ⟨?_, ?_⟩
  · intro h
    unfold parseSatelliteTopic at h
    split at h
    · rename_i first second third fourth fifth sixth hlevels
      split at h
      · cases h
      · rename_i hfixed
        simp only [ne_eq, not_or, not_not] at hfixed
        obtain ⟨rfl, rfl, rfl⟩ := hfixed
        split at h
        · rename_i sat sid hsat hsid
          have htext : sat.text = third := SatelliteId.new_eq_ok.mp hsat
          obtain ⟨rfl, rfl, rfl⟩ := ofLeaf_eq_some h
          exact ⟨fifth, hsid, by rw [hlevels, htext]⟩
        · cases h
    · cases h
  · intro h
    obtain ⟨sid, hsid, hlevels⟩ := h
    unfold parseSatelliteTopic
    rw [hlevels]
    simp only [ne_eq, not_true_eq_false, or_self, if_false, SatelliteId.new_eq_ok.mpr rfl, hsid]
    cases p <;> rfl

theorem root_slash_of_parse {root topic : Text} {p : ParsedTopic Uuid}
    (h : parseSatelliteTopic uuids root topic = some p) : '/' ∉ root := by
  obtain ⟨sid, -, hlevels⟩ := (parseSatelliteTopic_eq_some uuids).mp h
  have hlevel : root ∈ topic.splitOn '/' := by
    rw [hlevels]
    exact List.mem_cons_self
  exact Levels.not_mem_of_mem_splitOn hlevel

/-! ## The levels of what is built -/

theorem splitOn_slash (a b : Text) : (a ++ '/' :: b).splitOn '/' = a.splitOn '/' ++ b.splitOn '/' :=
  List.splitOn_append_cons_self a b

theorem splitOn_level {a : Text} (h : '/' ∉ a) : a.splitOn '/' = [a] := List.splitOn_eq_singleton h

theorem sessionTopic_eq (root sat sid leaf : Text) :
    sessionTopic root sat sid leaf =
      root ++ '/' :: ("sat".toList ++ '/' :: (sat ++ '/' :: ("session".toList ++ '/' :: (sid ++ '/' :: leaf)))) := by
  simp only [sessionTopic, clientBase, List.append_assoc]
  rfl

theorem splitOn_sessionTopic {root sat sid leaf : Text} (hsat : '/' ∉ sat) :
    (sessionTopic root sat sid leaf).splitOn '/' =
      root.splitOn '/' ++ "sat".toList :: sat :: "session".toList :: (sid.splitOn '/' ++ leaf.splitOn '/') := by
  rw [sessionTopic_eq, splitOn_slash, splitOn_slash, splitOn_slash, splitOn_slash, splitOn_slash, splitOn_level hsat,
    splitOn_level (a := "sat".toList) (by decide), splitOn_level (a := "session".toList) (by decide)]
  rfl

theorem device_topic (d : Esp32.Device) (sid leaf : Text) :
    d.sessionPrefix sid ++ leaf = sessionTopic d.root d.satId sid leaf := by
  simp only [Esp32.Device.sessionPrefix, sessionTopic, clientBase, List.append_assoc]
  rfl

theorem admin_topic (root sid leaf : Text) :
    adminBase root sid ++ '/' :: leaf = sessionTopic root "admin-ui".toList sid leaf := rfl

variable {uuids}

/-- A session's topic that parses is under the root, and its last level is one
of the four. -/
theorem parse_sessionTopic {root root' sat sid leaf : Text} {p : ParsedTopic Uuid} (hsat : '/' ∉ sat)
    (h : parseSatelliteTopic uuids root (sessionTopic root' sat sid leaf) = some p) : root' = root ∧
      leaf = p.leaf := by
  obtain ⟨fifth, -, hlevels⟩ := (parseSatelliteTopic_eq_some uuids).mp h
  rw [splitOn_sessionTopic hsat] at hlevels
  have hlength := congrArg List.length hlevels
  simp only [List.length_append, List.length_cons, List.length_nil, Levels.length_splitOn] at hlength
  have hone : ∀ {a : Text}, a.count '/' = 0 → a.splitOn '/' = [a] :=
    fun hcount => splitOn_level (List.count_eq_zero.mp hcount)
  rw [hone (a := root') (by omega), hone (a := sid) (by omega), hone (a := leaf) (by omega)] at hlevels
  simp only [List.cons_append, List.nil_append, List.cons.injEq, and_true, true_and] at hlevels
  exact ⟨hlevels.1, hlevels.2.2.2⟩

theorem second_of_parse {root second rest : Text} {p : ParsedTopic Uuid} (hsecond : '/' ∉ second)
    (h : parseSatelliteTopic uuids root (root ++ '/' :: (second ++ '/' :: rest)) = some p) : second = "sat".toList := by
  have hroot := root_slash_of_parse uuids h
  obtain ⟨sid, -, hlevels⟩ := (parseSatelliteTopic_eq_some uuids).mp h
  rw [splitOn_slash, splitOn_slash, splitOn_level hroot, splitOn_level hsecond] at hlevels
  exact (List.cons.inj (List.cons.inj hlevels).2).1

theorem last_of_parse {root before fifth sixth : Text} {p : ParsedTopic Uuid} (hfifth : '/' ∉ fifth)
    (hsixth : '/' ∉ sixth) (h : parseSatelliteTopic uuids root (before ++ '/' :: (fifth ++ '/' :: sixth)) = some p) :
    uuids.parseStr fifth = some p.sid ∧ sixth = p.leaf := by
  obtain ⟨sid, hsid, hlevels⟩ := (parseSatelliteTopic_eq_some uuids).mp h
  rw [splitOn_slash, splitOn_slash, splitOn_level hfifth, splitOn_level hsixth] at hlevels
  have hsplit : before.splitOn '/' ++ [fifth, sixth] =
      [root, "sat".toList, p.sat.text, "session".toList] ++ [sid, p.leaf] := hlevels
  have hsame : [fifth, sixth] = [sid, p.leaf] := (List.append_inj' hsplit rfl).2
  cases hsame
  exact ⟨hsid, rfl⟩

theorem parseStr_eq_none {word : Text} (h : word.length ∉ [32, 36, 38, 45]) (id : Uuid) :
    uuids.parseStr word ≠ some id := by
  intro hsome
  exact h (uuids.parse_length hsome)

/-! ## The round trip -/

variable (uuids)

/-- What the runtime publishes under its root. -/
inductive Egress (root : Text) : Text → Prop where
  | transcript (sat : SatelliteId) (sid : Uuid) : Egress root (sessionTranscript uuids root sat sid)
  | tts (sat : SatelliteId) (sid : Uuid) : Egress root (sessionTts uuids root sat sid)
  | ttsMeta (sat : SatelliteId) (sid : Uuid) : Egress root (sessionTtsMeta uuids root sat sid)
  | ttsText (sat : SatelliteId) (sid : Uuid) : Egress root (sessionTtsText uuids root sat sid)
  | done (sat : SatelliteId) (sid : Uuid) : Egress root (sessionDone uuids root sat sid)
  | event (kind : Text) : Egress root (eventTopic root kind)
  | request (kind name : Text) : Egress root (providerRequest root kind name)
  | response (kind name : Text) : Egress root (providerResponse root kind name)

/-- The topics of the assist bridge. -/
inductive Assist (topicPrefix : Text) : Text → Prop where
  | question {topic device : Text} (valid : Assist.parseTranscription topicPrefix topic = some device) :
      Assist topicPrefix topic
  | answer {device : Text} (level : '/' ∉ device) : Assist topicPrefix (Assist.ttsTopic topicPrefix device)
  | status {device : Text} (level : '/' ∉ device) : Assist topicPrefix (Assist.statusTopic topicPrefix device)
  | heartbeat : Assist topicPrefix (Assist.heartbeatTopic topicPrefix)

/-- What the builders and the parser are to agree on, under one root. -/
structure RoundTrip (root : Text) : Prop where
  parses : ∀ p : ParsedTopic Uuid, parseSatelliteTopic uuids root (p.topic uuids root) = some p
  satellite : ∀ (d : Esp32.Device) (p : ParsedTopic Uuid), d.root = root → d.satId = p.sat.text →
    parseSatelliteTopic uuids root (d.sessionPrefix (uuids.display p.sid) ++ p.leaf) = some p
  console : ∀ p : ParsedTopic Uuid, p.sat.text = "admin-ui".toList →
    parseSatelliteTopic uuids root (adminBase root (uuids.display p.sid) ++ '/' :: p.leaf) = some p
  only : ∀ topic p, parseSatelliteTopic uuids root topic = some p →
    ∃ sid, uuids.parseStr sid = some p.sid ∧ topic = sessionTopic root p.sat.text sid p.leaf
  foreign : ∀ (root' : Text) (sat : SatelliteId) (sid leaf : Text), root' ≠ root →
    parseSatelliteTopic uuids root (sessionTopic root' sat.text sid leaf) = none
  egress : ∀ topic, Egress uuids root topic → parseSatelliteTopic uuids root topic = none
  assist : ∀ topicPrefix topic, Assist topicPrefix topic → parseSatelliteTopic uuids root topic = none

theorem parse_topic {root : Text} (hroot : '/' ∉ root) (p : ParsedTopic Uuid) :
    parseSatelliteTopic uuids root (p.topic uuids root) = some p := by
  apply (parseSatelliteTopic_eq_some uuids).mpr
  refine ⟨uuids.display p.sid, uuids.parseStr_display p.sid, ?_⟩
  rw [ParsedTopic.topic, splitOn_sessionTopic p.sat.no_slash, splitOn_level hroot,
    splitOn_level (uuids.display_slash p.sid), splitOn_level p.leaf_slash]
  rfl

theorem eq_sessionTopic_of_parse {root topic : Text} {p : ParsedTopic Uuid}
    (h : parseSatelliteTopic uuids root topic = some p) :
    ∃ sid, uuids.parseStr sid = some p.sid ∧ topic = sessionTopic root p.sat.text sid p.leaf := by
  obtain ⟨sid, hsid, hlevels⟩ := (parseSatelliteTopic_eq_some uuids).mp h
  refine ⟨sid, hsid, ?_⟩
  rw [sessionTopic_eq, (Levels.splitOn_eq_iff.mp hlevels).2.2]
  simp only [List.intercalate_cons_cons, List.intercalate_singleton, List.append_assoc, List.singleton_append]

theorem parse_egress {root topic : Text} (h : Egress uuids root topic) :
    parseSatelliteTopic uuids root topic = none := by
  apply Option.eq_none_iff_forall_ne_some.mpr
  intro p hp
  have hsession : ∀ {sat : SatelliteId} {sid leaf : Text},
      parseSatelliteTopic uuids root (sessionTopic root sat.text sid leaf) = some p → leaf = p.leaf :=
    fun {sat sid leaf} h => (parse_sessionTopic sat.no_slash h).2
  have hsecond : ∀ (second rest : Text), '/' ∉ second → second ≠ "sat".toList →
      topic ≠ root ++ '/' :: (second ++ '/' :: rest) := by
    intro second rest hslash hne htopic
    rw [htopic] at hp
    exact hne (second_of_parse hslash hp)
  cases h with
  | transcript sat sid => exact ParsedTopic.ne_leaf (by decide) p (hsession hp)
  | tts sat sid => exact ParsedTopic.ne_leaf (by decide) p (hsession hp)
  | ttsMeta sat sid => exact ParsedTopic.ne_leaf (by decide) p (hsession hp)
  | ttsText sat sid => exact ParsedTopic.ne_leaf (by decide) p (hsession hp)
  | done sat sid => exact ParsedTopic.ne_leaf (by decide) p (hsession hp)
  | event kind =>
    apply hsecond "events".toList kind (by decide) (by decide)
    simp only [eventTopic, List.append_assoc]
    rfl
  | request kind name =>
    apply hsecond "providers".toList (kind ++ '/' :: name ++ '/' :: "request".toList)
      (by decide) (by decide)
    simp only [providerRequest, providerTopic, List.append_assoc]
    rfl
  | response kind name =>
    apply hsecond "providers".toList (kind ++ '/' :: name ++ '/' :: "response".toList)
      (by decide) (by decide)
    simp only [providerResponse, providerTopic, List.append_assoc]
    rfl

theorem parse_assist {root topicPrefix topic : Text} (h : Assist topicPrefix topic) :
    parseSatelliteTopic uuids root topic = none := by
  apply Option.eq_none_iff_forall_ne_some.mpr
  intro p hp
  have hfifth : ∀ (word device : Text), '/' ∉ word → '/' ∉ device → word.length ∉ [32, 36, 38, 45] →
      topic ≠ topicPrefix ++ '/' :: (word ++ '/' :: device) := by
    intro word device hword hdevice hlength htopic
    rw [htopic] at hp
    exact parseStr_eq_none hlength p.sid (last_of_parse hword hdevice hp).1
  cases h with
  | question valid =>
    rename_i device
    obtain ⟨htopic, -, hdevice⟩ := Assist.parseTranscription_eq_some.mp valid
    apply hfifth "transcription".toList device (by decide) ?_ (by decide)
    · rw [htopic, List.append_assoc]
      rfl
    · intro hslash
      exact absurd (hdevice '/' hslash) (by decide)
  | @answer device level =>
    apply hfifth "tts".toList device (by decide) level (by decide)
    rw [Assist.ttsTopic, List.append_assoc]
    rfl
  | @status device level =>
    have hsplit : Assist.statusTopic topicPrefix device =
        (topicPrefix ++ "/llm".toList) ++ '/' :: (device ++ '/' :: "status".toList) := by
      simp only [Assist.statusTopic, List.append_assoc]
      rfl
    rw [hsplit] at hp
    exact ParsedTopic.ne_leaf (by decide) p (last_of_parse level (by decide) hp).2
  | heartbeat =>
    apply hfifth "heartbeat".toList [] (by decide) (by decide) (by decide)
    rfl

/-- Builders and parser agree exactly under the roots of one level. -/
theorem topics_roundtrip_iff (root : Text) : RoundTrip uuids root ↔ '/' ∉ root := by
  refine ⟨?_, ?_⟩
  · intro h
    exact root_slash_of_parse uuids (h.parses (.start ⟨"kitchen".toList, by decide⟩ uuids.nil))
  · intro hroot
    refine ⟨parse_topic uuids hroot, ?_, ?_, fun topic p => eq_sessionTopic_of_parse uuids, ?_,
      fun topic => parse_egress uuids, fun topicPrefix topic => parse_assist uuids⟩
    · intro d p hd hsat
      rw [device_topic, hd, hsat]
      exact parse_topic uuids hroot p
    · intro p hsat
      rw [admin_topic, ← hsat]
      exact parse_topic uuids hroot p
    · intro root' sat sid leaf hne
      apply Option.eq_none_iff_forall_ne_some.mpr
      intro p hp
      exact hne (parse_sessionTopic sat.no_slash hp).1

end

/-- A root of two levels, which the configuration takes: the `start` built for
it is dropped. -/
theorem nested_root_deaf :
    parseSatelliteTopic hyphenated "home/assist".toList
        "home/assist/sat/kitchen/session/00000000-0000-0000-0000-000000000000/start".toList = none ∧
      ¬ RoundTrip hyphenated "home/assist".toList := by
  refine ⟨by decide, ?_⟩
  intro h
  have hparsed := h.parses (.start ⟨"kitchen".toList, by decide⟩ hyphenated.nil)
  exact absurd (root_slash_of_parse hyphenated hparsed) (by decide)

end AthenaVoice.Mqtt
