import AthenaVoice.Lib.Codec
import AthenaVoice.Remote.Client

/-
  Speech from a worker — `tts-worker/main.rs`, `handle_request`, and
  `remote/mqtt_tts.rs`, `MqttTts::synthesize`

  The worker turns a request into samples at a rate, and publishes them in
  chunks of s16le bytes, base64 in JSON; its first message declares the format,
  and a marker ends them. The provider waits for the first message, returns the
  format it declares, and streams the chunks, the first message's again first.

  The engine and base64 are parameters. Arithmetic on the rate wraps, as it does
  in a release build.

  What is proved:
    1. `speak_read` — what the stream gives of any list of chunks.
    2. `tts_round_trip` — whatever the engine returns at a positive rate, the
       stream declares it and gives its bytes, and ends with the marker.

  Correspondence (Rust ↔ Lean):
    `handle_request`                  `handleRequest`, its loop `speak`
    the request `synthesize` makes    `ttsRequest`
    `parse_format`                    `parseFormat`
    `audio_stream`                    `TtsStream.step`
-/

namespace AthenaVoice.Remote

open Lib CoreTypes

abbrev Bytes := List UInt8

/-! ## The worker -/

def toLeBytes (sample : Int16) : Bytes := [sample.toUInt16.toUInt8, (sample.toUInt16 >>> 8).toUInt8]

def s16le (samples : List Int16) : Bytes := samples.flatMap toLeBytes

def samplesPerChunk (rate chunkMs : UInt32) : Nat := max (rate * chunkMs / 1000).toNat 1

def formatFields (rate : UInt32) : List (Text × Json) :=
  [("format".toList, .string "s16le".toList), ("sample_rate".toList, .number (some rate.toNat)),
   ("channels".toList, .number (some 1))]

def chunkMessage (b64 : Codec Bytes Text) (sessionId : Text) (chunk : List Int16) (declares : List (Text × Json)) :
    Json :=
  .object ([("session_id".toList, .string sessionId), ("chunk_b64".toList, .string (b64.encode (s16le chunk))),
    ("done".toList, .bool false)] ++ declares)

def doneMessage (sessionId : Text) (declares : List (Text × Json)) : Json :=
  .object ([("session_id".toList, .string sessionId), ("done".toList, .bool true)] ++ declares)

/-- The loop over the chunks, and the marker after it; `declares` is not empty
until the format is declared. -/
def speak (b64 : Codec Bytes Text) (sessionId : Text) : List (Text × Json) → List (List Int16) → List Json
  | declares, [] => [doneMessage sessionId declares]
  | declares, chunk :: rest => chunkMessage b64 sessionId chunk declares :: speak b64 sessionId [] rest

/-- `handle_request`: the messages it publishes; `none` if it fails before the first. -/
def handleRequest (b64 : Codec Bytes Text) (synthesize : Text → Text → Option (List Int16 × UInt32))
    (chunkMs : UInt32) (payload : Option Json) : Option (List Json) :=
  match payload with
  | none => none
  | some request =>
    match (request.get "session_id".toList).bind Json.asStr with
    | none => none
    | some sessionId =>
      match synthesize (((request.get "text".toList).bind Json.asStr).getD [])
          (((request.get "locale".toList).bind Json.asStr).getD "fr".toList) with
      | none => none
      | some (samples, rate) =>
        some (speak b64 sessionId (formatFields rate) (chunks (samplesPerChunk rate chunkMs) samples))

/-! ## The provider -/

/-- The request of `synthesize`. -/
def ttsRequest (sessionId locale text : Text) : Json :=
  .object [("session_id".toList, .string sessionId), ("locale".toList, .string locale), ("text".toList, .string text)]

def formatOf (name : Text) : AudioFormat :=
  if name = "opus".toList then .opus
  else if name = "f32le".toList then .f32le
  else if name = "text".toList then .text
  else .s16le

def parseFormat (first : Option Json) : AudioFormat × Nat :=
  (((first.bind (Json.get "format".toList)).bind Json.asStr).elim .s16le formatOf,
    ((((first.bind (Json.get "sample_rate".toList)).bind Json.asU64).filter (fun r => r < 2 ^ 32)).filter
      (fun r => 0 < r)).getD 22050)

def doneOf (v : Json) : Bool := ((v.get "done".toList).bind Json.asBool).getD false

def chunkOf (b64 : Codec Bytes Text) (v : Json) : Option Bytes :=
  ((v.get "chunk_b64".toList).bind Json.asStr).bind b64.decode

/-- A call of `synthesize`, and the stream it returns. -/
inductive TtsStream where
  /-- The first message is awaited. -/
  | awaiting
  /-- The first message comes again. -/
  | replaying (first : Publish) (v : Json)
  | streaming
  /-- The last chunk is given; the next poll ends the stream. -/
  | finished (last : Publish)
  | ended

inductive TtsInput where
  | message (p : Publish)
  /-- The per-message timeout, or the channel's end. -/
  | silence
  /-- Nothing is received in this poll. -/
  | poll

/-- What the caller gets; a source is the number of the request the message was
an answer to, and no code looks at it. -/
inductive TtsObs where
  | declared (format : AudioFormat) (sampleRate : Nat) (source : Option Nat)
  | chunk (bytes : Bytes) (source : Nat)
  /-- The stream ends, at a done marker if it has a source. -/
  | ended (source : Option Nat)
  deriving DecidableEq

namespace TtsStream

def consume (b64 : Codec Bytes Text) (p : Publish) (v : Json) : TtsStream × List TtsObs :=
  match chunkOf b64 v with
  | some bytes => (if doneOf v then .finished p else .streaming, [.chunk bytes p.request])
  | none => if doneOf v then (.ended, [.ended (some p.request)]) else (.streaming, [])

def step (b64 : Codec Bytes Text) : TtsStream → TtsInput → Option (TtsStream × List TtsObs)
  | .awaiting, .message p =>
    match p.payload with
    | none => some (.awaiting, [])
    | some v => some (.replaying p v, [.declared (parseFormat (some v)).1 (parseFormat (some v)).2 (some p.request)])
  | .awaiting, .silence => some (.streaming, [.declared (parseFormat none).1 (parseFormat none).2 none])
  | .replaying p v, .poll => some (consume b64 p v)
  | .streaming, .message p =>
    match p.payload with
    | none => some (.streaming, [])
    | some v => some (consume b64 p v)
  | .streaming, .silence => some (.ended, [.ended none])
  | .finished p, .poll => some (.ended, [.ended (some p.request)])
  | _, _ => none

def machine (b64 : Codec Bytes Text) : Machine TtsStream TtsInput TtsObs := ⟨step b64⟩

end TtsStream

/-- The formats declared, with their rates. -/
def declaredIn (o : List TtsObs) : List (AudioFormat × Nat) :=
  o.filterMap (fun | .declared f r _ => some (f, r) | .chunk .. | .ended _ => none)

def audioIn (o : List TtsObs) : Bytes :=
  o.flatMap (fun | .chunk bytes _ => bytes | .declared .. | .ended _ => [])

/-- How often the stream ends, and at whose marker. -/
def endsIn (o : List TtsObs) : List (Option Nat) :=
  o.filterMap (fun | .ended source => some source | .declared .. | .chunk .. => none)

/-- A reader's polls while the messages come in: the first is met twice. -/
def readInputs : List Publish → List TtsInput
  | [] => []
  | p :: rest => .message p :: .poll :: rest.map .message

/-- The worker's messages on their way, as answers to request `r`. -/
def published (topic : Text) (r : Nat) (messages : List Json) : List Publish :=
  messages.map (fun v => { topic := topic, payload := some v, request := r })

/-! ## What the provider reads of the worker's messages -/

section Messages

variable (b64 : Codec Bytes Text) (sessionId : Text) (chunk : List Int16)

theorem doneOf_chunkMessage (declares : List (Text × Json)) :
    doneOf (chunkMessage b64 sessionId chunk declares) = false := rfl

theorem chunkOf_chunkMessage (declares : List (Text × Json)) :
    chunkOf b64 (chunkMessage b64 sessionId chunk declares) = some (s16le chunk) := by
  show b64.decode (b64.encode (s16le chunk)) = some (s16le chunk)
  exact b64.decode_encode _

theorem doneOf_doneMessage (declares : List (Text × Json)) : doneOf (doneMessage sessionId declares) = true := rfl

theorem chunkOf_doneMessage : chunkOf b64 (doneMessage sessionId []) = none := rfl

theorem chunkOf_declaringDone (rate : UInt32) : chunkOf b64 (doneMessage sessionId (formatFields rate)) = none := rfl

theorem parseFormat_declared {v : Json} {rate : UInt32} (hrate : 0 < rate)
    (hformat : (v.get "format".toList).bind Json.asStr = some "s16le".toList)
    (hsample : (v.get "sample_rate".toList).bind Json.asU64 = some rate.toNat) :
    parseFormat (some v) = (.s16le, rate.toNat) := by
  have hpos : 0 < rate.toNat := hrate
  have hlt : rate.toNat < 2 ^ 32 := rate.toNat_lt
  simp only [parseFormat, Option.bind_some, hformat, hsample, Option.filter_some, hlt, decide_true, if_true, hpos,
    Option.getD_some, Option.elim_some]
  rfl

theorem parseFormat_chunkMessage {rate : UInt32} (hrate : 0 < rate) :
    parseFormat (some (chunkMessage b64 sessionId chunk (formatFields rate))) = (.s16le, rate.toNat) :=
  parseFormat_declared hrate rfl rfl

theorem parseFormat_doneMessage {rate : UInt32} (hrate : 0 < rate) :
    parseFormat (some (doneMessage sessionId (formatFields rate))) = (.s16le, rate.toNat) :=
  parseFormat_declared hrate rfl rfl

end Messages

namespace TtsStream

variable {b64 : Codec Bytes Text} {sessionId : Text}

theorem consume_chunk (p : Publish) (chunk : List Int16) (declares : List (Text × Json)) :
    consume b64 p (chunkMessage b64 sessionId chunk declares) = (.streaming, [.chunk (s16le chunk) p.request]) := by
  simp only [consume, chunkOf_chunkMessage, doneOf_chunkMessage, Bool.false_eq_true, if_false]

theorem consume_done (p : Publish) :
    consume b64 p (doneMessage sessionId []) = (.ended, [.ended (some p.request)]) := by
  simp only [consume, chunkOf_doneMessage, doneOf_doneMessage, if_true]

theorem consume_declaringDone (p : Publish) (rate : UInt32) :
    consume b64 p (doneMessage sessionId (formatFields rate)) = (.ended, [.ended (some p.request)]) := by
  simp only [consume, chunkOf_declaringDone, doneOf_doneMessage, if_true]

/-- What a stream gives of the messages of some chunks. -/
def outcome (r : Nat) (cs : List (List Int16)) : List TtsObs :=
  cs.map (fun c => .chunk (s16le c) r) ++ [.ended (some r)]

/-- **The loop, read.** -/
theorem speak_read (topic : Text) (r : Nat) : ∀ cs : List (List Int16),
    (machine b64).run .streaming ((published topic r (speak b64 sessionId [] cs)).map .message) =
      some (.ended, outcome r cs) := by
  intro cs
  induction cs with
  | nil =>
    refine (Machine.run_cons_some _).mpr ⟨.ended, [.ended (some r)], [], ?_, rfl, rfl⟩
    exact congrArg some (consume_done _)
  | cons c cs ih =>
    refine (Machine.run_cons_some _).mpr ⟨.streaming, [.chunk (s16le c) r], _, ?_, ih, rfl⟩
    exact congrArg some (consume_chunk _ c [])

theorem step_first (b64 : Codec Bytes Text) {p : Publish} {v : Json} {format : AudioFormat} {n : Nat}
    (hpayload : p.payload = some v)
    (hformat : parseFormat (some v) = (format, n)) :
    (machine b64).step .awaiting (.message p) = some (.replaying p v, [.declared format n (some p.request)]) := by
  simp only [machine, step, hpayload, hformat]

theorem speak_read_first (topic : Text) (r : Nat) {rate : UInt32} (hrate : 0 < rate) (cs : List (List Int16)) :
    (machine b64).run .awaiting (readInputs (published topic r (speak b64 sessionId (formatFields rate) cs))) =
      some (.ended, .declared .s16le rate.toNat (some r) :: outcome r cs) := by
  cases cs with
  | nil =>
    let v := doneMessage sessionId (formatFields rate)
    let done : Publish := { topic := topic, payload := some v, request := r }
    have hfirst := step_first b64 (p := done) rfl (parseFormat_doneMessage sessionId hrate)
    have hpoll : (machine b64).step (.replaying done v) .poll = some (.ended, [.ended (some r)]) :=
      congrArg some (consume_declaringDone done rate)
    exact (Machine.run_cons_some _).mpr ⟨_, _, _, hfirst,
      (Machine.run_cons_some _).mpr ⟨_, _, [], hpoll, rfl, rfl⟩, rfl⟩
  | cons c cs =>
    let v := chunkMessage b64 sessionId c (formatFields rate)
    let first : Publish := { topic := topic, payload := some v, request := r }
    have hfirst := step_first b64 (p := first) rfl (parseFormat_chunkMessage b64 sessionId c hrate)
    have hpoll : (machine b64).step (.replaying first v) .poll = some (.streaming, [.chunk (s16le c) r]) :=
      congrArg some (consume_chunk first c _)
    exact (Machine.run_cons_some _).mpr
      ⟨_, _, _, hfirst, (Machine.run_cons_some _).mpr ⟨_, _, _, hpoll, speak_read topic r cs, rfl⟩, rfl⟩

end TtsStream

theorem samplesPerChunk_pos (rate chunkMs : UInt32) : 0 < samplesPerChunk rate chunkMs :=
  Nat.lt_of_lt_of_le Nat.one_pos (Nat.le_max_right _ _)

theorem audioIn_outcome (r : Nat) (cs : List (List Int16)) : audioIn (TtsStream.outcome r cs) = s16le cs.flatten := by
  induction cs with
  | nil => rfl
  | cons c cs ih =>
    have hcons : audioIn (TtsStream.outcome r (c :: cs)) = s16le c ++ audioIn (TtsStream.outcome r cs) := rfl
    rw [hcons, ih, List.flatten_cons, s16le, s16le, s16le, List.flatMap_append]

theorem endsIn_outcome (r : Nat) (cs : List (List Int16)) : endsIn (TtsStream.outcome r cs) = [some r] := by
  induction cs with
  | nil => rfl
  | cons c cs ih => exact ih

theorem declaredIn_outcome (r : Nat) (cs : List (List Int16)) : declaredIn (TtsStream.outcome r cs) = [] := by
  induction cs with
  | nil => rfl
  | cons c cs ih => exact ih

/-- **Round trip.** If the engine gives samples at a positive rate for a request,
the worker publishes messages of which the stream declares s16le at that rate,
gives exactly the samples' bytes, and ends at the last one, the done marker. -/
theorem tts_round_trip (b64 : Codec Bytes Text) (synthesize : Text → Text → Option (List Int16 × UInt32))
    (chunkMs : UInt32) (sessionId locale text topic : Text) (r : Nat) (samples : List Int16) (rate : UInt32)
    (hengine : synthesize text locale = some (samples, rate)) (hrate : 0 < rate) :
    ∃ messages o, handleRequest b64 synthesize chunkMs (some (ttsRequest sessionId locale text)) = some messages ∧
      (TtsStream.machine b64).run .awaiting (readInputs (published topic r messages)) = some (.ended, o) ∧
      declaredIn o = [(.s16le, rate.toNat)] ∧ audioIn o = s16le samples ∧ endsIn o = [some r] := by
  refine ⟨speak b64 sessionId (formatFields rate) (chunks (samplesPerChunk rate chunkMs) samples),
    .declared .s16le rate.toNat (some r) :: TtsStream.outcome r (chunks (samplesPerChunk rate chunkMs) samples),
    ?_, TtsStream.speak_read_first topic r hrate _, ?_, ?_, ?_⟩
  · have hrequest : handleRequest b64 synthesize chunkMs (some (ttsRequest sessionId locale text)) =
        match synthesize text locale with
        | none => none
        | some (samples, rate) =>
          some (speak b64 sessionId (formatFields rate) (chunks (samplesPerChunk rate chunkMs) samples)) := rfl
    rw [hrequest, hengine]
  · exact congrArg _ (declaredIn_outcome r _)
  · exact (audioIn_outcome r _).trans (by rw [flatten_chunks (samplesPerChunk_pos rate chunkMs)])
  · exact endsIn_outcome r _

/-- Three samples at 1 kHz, two a chunk. -/
theorem tts_round_trip_three : ∃ messages o,
    handleRequest base64 (fun _ _ => some ([1, -2, 300], 1000)) 2 (some (ttsRequest (uuid.encode 7) "fr".toList
      "bonjour".toList)) = some messages ∧ messages.length = 3 ∧
    (TtsStream.machine base64).run .awaiting (readInputs (published "response".toList 0 messages)) =
      some (.ended, o) ∧
    declaredIn o = [(.s16le, 1000)] ∧ audioIn o = [1, 0, 254, 255, 44, 1] ∧ endsIn o = [some 0] := by
  obtain ⟨messages, o, hmessages, hrun, hdeclared, haudio, hends⟩ :=
    tts_round_trip base64 (fun _ _ => some ([1, -2, 300], 1000)) 2 (uuid.encode 7) "fr".toList "bonjour".toList
      "response".toList 0 [1, -2, 300] 1000 rfl (by decide)
  refine ⟨messages, o, hmessages, ?_, hrun, hdeclared, ?_, hends⟩
  · cases hmessages
    rfl
  · rw [haudio]
    decide

end AthenaVoice.Remote
