import AthenaVoice.Lib.Framing
import AthenaVoice.Remote.Tts

/-
  Speech to a worker — `remote/mqtt_stt.rs`, and `stt-worker/main.rs`,
  `handle_message`

  The provider opens a session, publishes its frames in base64, and marks the
  boundaries: an empty frame, and the end of the frames. The worker collects a
  session's bytes until a boundary, and transcribes them if they are enough; it
  forgets sessions it has not heard of for a while.

  The engine's outcome and the instant of a message come in with it. Instants
  are in nanoseconds, and a message is handled at one instant.

  What is proved:
    1. `utterances_concat` — frame by frame, what lies between the boundaries.
    2. `handleMessage_start`, `handleMessage_frame` — what the worker makes of
       the provider's messages.
    3. `handleMessage_other` — what it does to the other sessions.

  Correspondence (Rust ↔ Lean):
    the messages of `MqttStt::transcribe`   `sttStart`, `frameMessage`
    `SessionBuf`, `sessions`                `SessionBuf`, `SttWorker`
    `handle_message`                        `SttWorker.handleMessage`
    `parse_stt_response`                    `parseSttResponse`
-/

namespace AthenaVoice.Remote

open Lib CoreTypes

/-! ## What the frames say -/

/-- What lies between consecutive boundaries, frames put together. -/
def utterances (frames : List Bytes) : List Bytes := (Framing.closed List.isEmpty frames).map List.flatten

/-- The bytes since the last boundary. -/
def remainder (frames : List Bytes) : Bytes := (Framing.remaining List.isEmpty frames).flatten

theorem utterances_concat (frames : List Bytes) (pcm : Bytes) :
    utterances (frames ++ [pcm]) = if pcm.isEmpty then utterances frames ++ [remainder frames]
      else utterances frames := by
  split
  · rename_i hempty
    rw [utterances, Framing.closed_concat_sep hempty, List.map_append]
    rfl
  · rename_i hfull
    rw [utterances, Framing.closed_concat (by simpa using hfull)]
    rfl

theorem remainder_concat (frames : List Bytes) (pcm : Bytes) :
    remainder (frames ++ [pcm]) = if pcm.isEmpty then [] else remainder frames ++ pcm := by
  split
  · rename_i hempty
    rw [remainder, Framing.remaining_concat_sep hempty]
    rfl
  · rename_i hfull
    rw [remainder, Framing.remaining_concat (by simpa using hfull), List.flatten_append, List.flatten_singleton]
    rfl

theorem utterances_prefix_append (frames later : List Bytes) : utterances frames <+: utterances (frames ++ later) :=
  (Framing.closed_prefix_append List.isEmpty later frames).map List.flatten

/-! ## The provider -/

def AUDIO_SAMPLE_RATE : Nat := 16000

/-- The request of `transcribe`. -/
def sttStart (sessionId locale : Text) : Json :=
  .object [("session_id".toList, .string sessionId), ("locale".toList, .string locale),
    ("format".toList, .string "s16le".toList), ("sample_rate".toList, .number (some AUDIO_SAMPLE_RATE))]

def sttDone (sessionId : Text) : Json :=
  .object [("session_id".toList, .string sessionId), ("done".toList, .bool true)]

def frameMessage (b64 : Codec Bytes Text) (sessionId : Text) (pcm : Bytes) : Json :=
  if pcm.isEmpty then sttDone sessionId
  else .object [("session_id".toList, .string sessionId), ("audio_b64".toList, .string (b64.encode pcm))]

theorem sessionText_frameMessage (b64 : Codec Bytes Text) (sessionId : Text) (pcm : Bytes) :
    sessionText (frameMessage b64 sessionId pcm) = some sessionId := by
  unfold frameMessage
  split <;> rfl

inductive SttResponse where
  | transcript (t : Transcript)
  | done
  | malformed
  deriving DecidableEq

def parseSttResponse (payload : Option Json) : SttResponse :=
  match payload with
  | none => .malformed
  | some v =>
    match (v.get "text".toList).bind Json.asStr with
    | some text => .transcript { text := text, isFinal := ((v.get "is_final".toList).bind Json.asBool).getD false }
    | none => if doneOf v then .done else .malformed

/-! ## The worker -/

def SESSION_TTL : Nat := 120 * 10 ^ 9

/-- Fewer bytes than these are not transcribed. -/
def MIN_PCM : Nat := 3200

/-- What the worker keeps of a session. -/
structure SessionBuf where
  pcm : Bytes
  locale : Text
  updated : Nat
  deriving DecidableEq

/-- The worker's `sessions`. -/
abbrev SttWorker := Text → Option SessionBuf

/-- What the worker does besides. -/
inductive WorkerObs where
  | transcribed (sessionId locale : Text) (pcm : Bytes)
  | published (v : Json)

def WorkerObs.Names (sid : Text) : WorkerObs → Prop
  | .transcribed sessionId _ _ => sessionId = sid
  | .published v => sessionText v = some sid

def SessionBuf.append (buf : SessionBuf) (now : Nat) (bytes : Bytes) : SessionBuf :=
  { buf with pcm := buf.pcm ++ bytes, updated := now }

def transcriptMessage (sessionId text : Text) : Json :=
  .object [("session_id".toList, .string sessionId), ("text".toList, .string text), ("is_final".toList, .bool true)]

namespace SttWorker

/-- `sessions.retain(..)`. -/
def retain (sessions : SttWorker) (now : Nat) : SttWorker :=
  fun sid => (sessions sid).filter (fun buf => now - buf.updated < SESSION_TTL)

/-- `sessions` with one entry set. -/
def set (sessions : SttWorker) (sessionId : Text) (buf : SessionBuf) : SttWorker :=
  fun sid => if sid = sessionId then some buf else sessions sid

/-- What `transcribe` leads to; it fails without an outcome. -/
def answer (sessionId : Text) (outcome : Option Text) : List WorkerObs :=
  match outcome with
  | none => []
  | some text => if text = [] then [] else [.published (transcriptMessage sessionId text)]

/-- What a boundary leads to: under 100 ms of audio are not worth transcribing. -/
def flush (sessionId : Text) (outcome : Option Text) (buf : SessionBuf) : List WorkerObs :=
  if buf.pcm.length < MIN_PCM then [] else .transcribed sessionId buf.locale buf.pcm :: answer sessionId outcome

/-- `handle_message`, after the `retain`. -/
def receive (b64 : Codec Bytes Text) (now : Nat) (outcome : Option Text) (sessions : SttWorker)
    (sid : Text) (v : Json) :
    SttWorker × List WorkerObs :=
  match (v.get "audio_b64".toList).bind Json.asStr with
  | some text =>
    match b64.decode text with
    -- bytes that do not decode are dropped, and the entry not renewed
    | none => (sessions, [])
    | some bytes =>
      (sessions.set sid (((sessions sid).getD { pcm := [], locale := "fr".toList, updated := now }).append now bytes),
        [])
  | none =>
    if doneOf v then
      match sessions sid with
      -- a boundary makes no entry
      | none => (sessions, [])
      | some buf =>
        (sessions.set sid { buf with pcm := [], updated := now }, flush sid outcome buf)
    else
      -- the start of a session empties what its name has
      (sessions.set sid
        { pcm := [], locale := ((v.get "locale".toList).bind Json.asStr).getD "fr".toList, updated := now }, [])

def handleMessage (b64 : Codec Bytes Text) (now : Nat) (outcome : Option Text) (sessions : SttWorker)
    (payload : Option Json) : SttWorker × List WorkerObs :=
  match payload with
  | none => (sessions.retain now, [])
  | some v =>
    match sessionText v with
    | none => (sessions.retain now, [])
    | some sid => receive b64 now outcome (sessions.retain now) sid v

variable {b64 : Codec Bytes Text} {now : Nat} {outcome : Option Text} {sessions : SttWorker} {sid : Text}

theorem retain_of_some {buf : SessionBuf} (h : sessions sid = some buf) (hnow : now - buf.updated < SESSION_TTL) :
    sessions.retain now sid = some buf := by
  simp [retain, h, hnow]

theorem retain_cases {buf : SessionBuf} (h : sessions sid = some buf) :
    sessions.retain now sid = some buf ∨ sessions.retain now sid = none ∧ buf.updated + SESSION_TTL ≤ now := by
  by_cases hnow : now - buf.updated < SESSION_TTL
  · exact Or.inl (retain_of_some h hnow)
  · have hold : SESSION_TTL ≤ now - buf.updated := Nat.le_of_not_lt hnow
    have hpos : 0 < SESSION_TTL := by decide
    refine Or.inr ⟨?_, by omega⟩
    rw [retain, h, Option.filter_some, if_neg (by simpa using hnow)]

theorem retain_none (h : sessions sid = none) : sessions.retain now sid = none := by
  simp [retain, h]

@[simp] theorem set_self (buf : SessionBuf) : sessions.set sid buf sid = some buf := if_pos rfl

theorem set_other {other : Text} (buf : SessionBuf) (hne : other ≠ sid) :
    sessions.set sid buf other = sessions other := if_neg hne

/-- The first message makes the entry. -/
theorem handleMessage_start (b64 : Codec Bytes Text) (now : Nat) (outcome : Option Text) (sessions : SttWorker)
    (sid locale : Text) : handleMessage b64 now outcome sessions (some (sttStart sid locale)) =
      ((sessions.retain now).set sid { pcm := [], locale := locale, updated := now }, []) := rfl

/-- A frame is collected, a boundary answered. -/
theorem handleMessage_frame (b64 : Codec Bytes Text) (outcome : Option Text) (pcm : Bytes) {buf : SessionBuf}
    (h : sessions sid = some buf) (hnow : now - buf.updated < SESSION_TTL) :
    handleMessage b64 now outcome sessions (some (frameMessage b64 sid pcm)) =
      ((sessions.retain now).set sid
          { buf with pcm := if pcm.isEmpty then [] else buf.pcm ++ pcm, updated := now },
        if pcm.isEmpty then flush sid outcome buf else []) := by
  have hkept := retain_of_some h hnow
  unfold frameMessage
  split
  · have hdone : handleMessage b64 now outcome sessions (some (sttDone sid)) =
        match sessions.retain now sid with
        | none => (sessions.retain now, [])
        | some buf => ((sessions.retain now).set sid { buf with pcm := [], updated := now }, flush sid outcome buf) :=
            rfl
    rw [hdone, hkept]
  · have haudio : handleMessage b64 now outcome sessions (some (.object [("session_id".toList, .string sid),
          ("audio_b64".toList, .string (b64.encode pcm))])) =
        match b64.decode (b64.encode pcm) with
        | none => (sessions.retain now, [])
        | some bytes => ((sessions.retain now).set sid
            (((sessions.retain now sid).getD { pcm := [], locale := "fr".toList, updated := now }).append now bytes),
            []) := rfl
    rw [haudio, b64.decode_encode, hkept]
    rfl

/-- **Sessions apart.** A message does nothing to another session than the one it names. -/
theorem handleMessage_other {v : Json} {other : Text} (hv : sessionText v = some sid) (hne : other ≠ sid) :
    (handleMessage b64 now outcome sessions (some v)).1 other = sessions.retain now other := by
  simp only [handleMessage, hv, receive]
  split
  · split
    · rfl
    · exact set_other _ hne
  · split
    · split
      · rfl
      · exact set_other _ hne
    · exact set_other _ hne

theorem handleMessage_names {v : Json} (hv : sessionText v = some sid) :
    ∀ x ∈ (handleMessage b64 now outcome sessions (some v)).2, x.Names sid := by
  have hanswer : ∀ x ∈ answer sid outcome, x.Names sid := by
    intro x hx
    unfold answer at hx
    split at hx
    · cases hx
    · split at hx
      · cases hx
      · rw [List.mem_singleton.mp hx]
        rfl
  intro x hx
  simp only [handleMessage, hv, receive] at hx
  split at hx
  · split at hx <;> cases hx
  · split at hx
    · split at hx
      · cases hx
      · unfold flush at hx
        split at hx
        · cases hx
        · rcases List.mem_cons.mp hx with rfl | hrest
          · rfl
          · exact hanswer x hrest
    · cases hx

end SttWorker

end AthenaVoice.Remote
