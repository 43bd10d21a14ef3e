import AthenaVoice.Core.Json

/-
  Topics and payloads of the assist bridge — `assist/topics.rs`

  What is proved:
    1. `statusTopic_ne_ttsTopic` — a device's answers and its loader statuses
       are on different topics.
    2. `parseTranscription_eq_some` — the topics of questions are those of the
       valid device ids, each with its own.
-/

namespace AthenaVoice.Assist

open Lib

def ttsTopic (topicPrefix device : Text) : Text := topicPrefix ++ "/tts/".toList ++ device

def statusTopic (topicPrefix device : Text) : Text :=
  topicPrefix ++ "/llm/".toList ++ device ++ "/status".toList

def heartbeatTopic (topicPrefix : Text) : Text := topicPrefix ++ "/heartbeat/".toList

/-- The characters no device id may contain. -/
def isReserved (c : Char) : Bool := c == '/' || c == '+' || c == '#'

def parseTranscription (topicPrefix topic : Text) : Option Text :=
  match ((Str.stripPrefix topicPrefix topic).bind (Str.stripPrefix ['/'])).bind
      (Str.stripPrefix "transcription/".toList) with
  | none => none
  | some device => if device.isEmpty || device.any isReserved then none else some device

/-- `parse_text_payload`; `fromSlice` is `serde_json::from_slice`. -/
def parseTextPayload (fromSlice : List UInt8 → Option Json) (payload : List UInt8) : Option Text :=
  match (fromSlice payload).bind (fun v => (v.get "text".toList).bind Json.asStr) with
  | none => none
  | some text => if (Str.trim text).isEmpty then none else some (Str.trim text)

def textPayload (sentence : Text) : Json := .object [("text".toList, .string sentence)]

/-- The payload of a loader status. -/
def statusPayload (status : Text) : Json := .object [("status".toList, .string status)]

theorem statusTopic_ne_ttsTopic (topicPrefix device device' : Text) :
    ttsTopic topicPrefix device ≠ statusTopic topicPrefix device' := by
  intro h
  unfold ttsTopic statusTopic at h
  simp only [List.append_assoc] at h
  have hrest := List.append_cancel_left h
  cases hrest

/-- A question's topic is the prefix, `transcription`, and a valid device id. -/
theorem parseTranscription_eq_some {topicPrefix topic device : Text} :
    parseTranscription topicPrefix topic = some device ↔
      topic = topicPrefix ++ "/transcription/".toList ++ device ∧ device ≠ [] ∧
        ∀ c ∈ device, isReserved c = false := by
  -- the three prefixes are stripped one by one
  have hstrip : ∀ rest : Text, ((Str.stripPrefix topicPrefix topic).bind (Str.stripPrefix ['/'])).bind
      (Str.stripPrefix "transcription/".toList) = some rest ↔
        topic = topicPrefix ++ "/transcription/".toList ++ rest := by
    intro rest
    simp only [Option.bind_eq_some_iff, Str.stripPrefix_eq_some]
    refine ⟨?_, ?_⟩
    · intro h
      obtain ⟨b, ⟨a, rfl, rfl⟩, rfl⟩ := h
      simp only [List.append_assoc]
      rfl
    · intro h
      subst h
      refine ⟨_, ⟨_, List.append_assoc _ _ _, rfl⟩, rfl⟩
  unfold parseTranscription
  split
  · rename_i hnone
    refine ⟨nofun, ?_⟩
    intro h
    rw [(hstrip device).mpr h.1] at hnone
    cases hnone
  · rename_i rest hsome
    rw [hstrip] at hsome
    subst hsome
    split
    · rename_i hbad
      refine ⟨nofun, ?_⟩
      intro h
      obtain ⟨heq, hne, hall⟩ := h
      cases List.append_cancel_left heq
      rcases Bool.or_eq_true _ _ ▸ hbad with hbad | hbad
      · exact absurd (List.isEmpty_iff.mp hbad) hne
      · obtain ⟨c, hc, hres⟩ := List.any_eq_true.mp hbad
        rw [hall c hc] at hres
        cases hres
    · rename_i hgood
      simp only [Bool.or_eq_true, not_or, Bool.not_eq_true, List.any_eq_false,
        List.isEmpty_eq_false_iff] at hgood
      refine ⟨?_, ?_⟩
      · intro h
        cases h
        exact ⟨rfl, hgood.1, hgood.2⟩
      · intro h
        rw [List.append_cancel_left h.1]

end AthenaVoice.Assist
