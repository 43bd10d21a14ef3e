import AthenaVoice.Core.Json
import AthenaVoice.Lib.Machine

/-
  The satellite's session machine — `satellite-esp32/src/session.rs`

  Inputs in, commands out: the button, the microphone, the broker's messages
  and a timer on one side, publications, the speaker and the display on the
  other. The clock wraps as `u64` does. The identifier a trigger draws, and the
  JSON parser, are parameters.

  A command is observed with the input that caused it. What a session is to
  look like from outside is the grammar `Conversation`.

  What is proved:
    1. `handle_cases` — everything an input can lead to.
    2. `tick_leaves` — a tick past the deadline leaves the state.
    3. `session_conversations` — whatever the inputs, the commands are complete
       conversations followed by the one under way, if the machine is not idle.

  Correspondence (Rust ↔ Lean):
    `Input`, `Command`, `State`, `Session`  the same
    `Session::handle` and its branches      `Session.handle`, `onTrigger`,
                                            `onMicFrame`, `endUtterance`,
                                            `onInbound`, `onTick`, `finish`
-/

namespace AthenaVoice.Esp32

open Lib

abbrev Bytes := List UInt8

def UTTERANCE_MAX_MS : UInt64 := 10000

def REPLY_TIMEOUT_MS : UInt64 := 30000

inductive Input where
  | trigger
  | micFrame (bytes : Bytes)
  | silenceDetected
  | inbound (topic : Text) (payload : Bytes)
  | tick
  deriving DecidableEq, Repr

inductive Command where
  | publish (topic : Text) (payload : Bytes)
  | configureSpeaker (sampleRate : Nat)
  | play (bytes : Bytes)
  | showTranscript (text : Text) (isFinal : Bool)
  | showAnswer (text : Text)
  | sessionEnded
  deriving DecidableEq, Repr

inductive State where
  | idle | streaming | awaitingReply | playing
  deriving DecidableEq, Repr

/-- The part of `Session` set once, by `new`. -/
structure Device where
  root : Text
  satId : Text
  locale : Text
  deriving DecidableEq, Repr

structure Session extends Device where
  state : State
  sid : Option Text
  deadlineMs : Option UInt64
  deriving DecidableEq, Repr

/-- The topics of a session start with it. -/
def Device.sessionPrefix (d : Device) (sid : Text) : Text :=
  d.root ++ "/sat/".toList ++ d.satId ++ "/session/".toList ++ sid ++ "/".toList

/-- The payload of `start`. -/
def Device.startPayload (d : Device) : Bytes :=
  ("\x7b\"locale\":\"".toList ++ d.locale ++ "\"\x7d".toList).flatMap String.utf8EncodeChar

/-- One call of `handle`: the input, the clock, and the identifier drawn if a
session starts. -/
structure Call where
  input : Input
  nowMs : UInt64
  uuid : Text
  deriving DecidableEq, Repr

namespace Session

def new (d : Device) : Session := { d with state := .idle, sid := none, deadlineMs := none }

def topic (s : Session) (suffix : Text) : Text := s.sessionPrefix (s.sid.getD []) ++ suffix

def onTrigger (s : Session) (nowMs : UInt64) (uuid : Text) : Session × List Command :=
  if s.state ≠ .idle then (s, [])
  else
    let s' := { s with sid := some uuid, state := .streaming, deadlineMs := some (nowMs + UTTERANCE_MAX_MS) }
    (s', [.publish (s'.topic "start".toList) s.startPayload])

def onMicFrame (s : Session) (bytes : Bytes) : Session × List Command :=
  if s.state ≠ .streaming then (s, [])
  else (s, [.publish (s.topic "audio".toList) bytes])

def endUtterance (s : Session) (nowMs : UInt64) : Session × List Command :=
  if s.state ≠ .streaming then (s, [])
  else
    let s' := { s with state := .awaitingReply, deadlineMs := some (nowMs + REPLY_TIMEOUT_MS) }
    (s', [.publish (s'.topic "audio".toList) []])

def finish (s : Session) : Session × List Command :=
  ({ s with state := .idle, sid := none, deadlineMs := none }, [.sessionEnded])

/-- `u32::try_from` of the `sample_rate` field. -/
def sampleRate (fromSlice : Bytes → Option Json) (payload : Bytes) : Option Nat :=
  (fromSlice payload).bind (fun v => (v.get "sample_rate".toList).bind (fun r =>
    r.asU64.bind (fun n => if n < UInt32.size then some n else none)))

/-- The `transcript` message, as it is shown. -/
def transcript (fromSlice : Bytes → Option Json) (payload : Bytes) : List Command :=
  match fromSlice payload with
  | none => []
  | some v =>
    match (v.get "text".toList).bind Json.asStr with
    | some text =>
      [.showTranscript text (((v.get "is_final".toList).bind Json.asBool).getD false)]
    | none => []

/-- The `tts/text` message, as it is shown. -/
def answer (fromSlice : Bytes → Option Json) (payload : Bytes) : List Command :=
  match (fromSlice payload).bind (fun v => (v.get "text".toList).bind Json.asStr) with
  | some text => [.showAnswer text]
  | none => []

/-- The messages of the session under way. -/
def onSuffix (fromSlice : Bytes → Option Json) (s : Session) (suffix : Text) (payload : Bytes) :
    Session × List Command :=
  if suffix = "tts/meta".toList then
    ({ s with state := .playing }, (sampleRate fromSlice payload).toList.map .configureSpeaker)
  else if suffix = "tts".toList then ({ s with state := .playing }, [.play payload])
  else if suffix = "done".toList then s.finish
  else if suffix = "transcript".toList then (s, transcript fromSlice payload)
  else if suffix = "tts/text".toList then (s, answer fromSlice payload)
  else (s, [])

def onInbound (fromSlice : Bytes → Option Json) (s : Session) (topic : Text) (payload : Bytes) :
    Session × List Command :=
  if s.state = .awaitingReply ∨ s.state = .playing then
    match s.sid with
    | none => (s, [])
    | some sid =>
      match Str.stripPrefix (s.sessionPrefix sid) topic with
      | none => (s, [])
      | some suffix => s.onSuffix fromSlice suffix payload
  else (s, [])

def onTick (s : Session) (nowMs : UInt64) : Session × List Command :=
  if s.deadlineMs.any (fun d => d < nowMs) then
    match s.state with
    | .idle => (s, [])
    | .streaming => s.endUtterance nowMs
    | .awaitingReply | .playing => s.finish
  else (s, [])

def handle (fromSlice : Bytes → Option Json) (s : Session) (c : Call) : Session × List Command :=
  match c.input with
  | .trigger => s.onTrigger c.nowMs c.uuid
  | .micFrame bytes => s.onMicFrame bytes
  | .silenceDetected => s.endUtterance c.nowMs
  | .inbound topic payload => s.onInbound fromSlice topic payload
  | .tick => s.onTick c.nowMs

end Session

/-- A command, with the input that caused it. -/
structure Obs where
  cause : Input
  command : Command
  deriving DecidableEq, Repr

/-- The commands of a call, as they are observed. -/
def observed (c : Call) (commands : List Command) : List Obs := commands.map (fun x => ⟨c.input, x⟩)

def Session.machine (fromSlice : Bytes → Option Json) : Machine Session Call Obs :=
  ⟨fun s c => some ((s.handle fromSlice c).1, observed c (s.handle fromSlice c).2)⟩

/-! ## What a session looks like from outside -/

/-- Something to play or to show. -/
def Command.isReply : Command → Bool
  | .play _ | .configureSpeaker _ | .showTranscript .. | .showAnswer _ => true
  | .publish .. | .sessionEnded => false

/-- A reply, to a message on a topic of the session. -/
def Obs.Answers (d : Device) (sid : Text) (o : Obs) : Prop :=
  o.command.isReply = true ∧
    ∃ topic payload, o.cause = .inbound topic payload ∧ (d.sessionPrefix sid).IsPrefix topic

/-- How far a conversation has come. -/
inductive Stage where
  | speaking | listening | complete
  deriving DecidableEq, Repr

/-- A session's commands: the start, audio that is not empty, one empty audio
payload, replies to the session's own messages, the end. -/
inductive Conversation (d : Device) (sid : Text) : Stage → List Obs → Prop where
  | start (cause : Input) :
      Conversation d sid .speaking [⟨cause, .publish (d.sessionPrefix sid ++ "start".toList) d.startPayload⟩]
  | audio {o : List Obs} (cause : Input) (bytes : Bytes) (before : Conversation d sid .speaking o)
      (nonempty : bytes ≠ []) :
      Conversation d sid .speaking (o ++ [⟨cause, .publish (d.sessionPrefix sid ++ "audio".toList) bytes⟩])
  | endOfUtterance {o : List Obs} (cause : Input) (before : Conversation d sid .speaking o) :
      Conversation d sid .listening (o ++ [⟨cause, .publish (d.sessionPrefix sid ++ "audio".toList) []⟩])
  | reply {o : List Obs} (x : Obs) (before : Conversation d sid .listening o) (own : x.Answers d sid) :
      Conversation d sid .listening (o ++ [x])
  | ended {o : List Obs} (cause : Input) (before : Conversation d sid .listening o) :
      Conversation d sid .complete (o ++ [⟨cause, .sessionEnded⟩])

/-! ## What an input can lead to -/

namespace Session

/-- The session awaits the runtime's reply, or plays it. -/
def Listening (s : Session) : Prop := s.state = .awaitingReply ∨ s.state = .playing

/-- The effects of a call, one case each. -/
inductive Effect (s : Session) (c : Call) : Session → List Command → Prop where
  | none : Effect s c s []
  | started (idle : s.state = .idle) :
      Effect s c { s with sid := some c.uuid, state := .streaming, deadlineMs := some (c.nowMs + UTTERANCE_MAX_MS) }
        [.publish (s.sessionPrefix c.uuid ++ "start".toList) s.startPayload]
  | frame (bytes : Bytes) (cause : c.input = .micFrame bytes) (streaming : s.state = .streaming) :
      Effect s c s [.publish (s.topic "audio".toList) bytes]
  | ended (streaming : s.state = .streaming) :
      Effect s c { s with state := .awaitingReply, deadlineMs := some (c.nowMs + REPLY_TIMEOUT_MS) }
        [.publish (s.topic "audio".toList) []]
  | replied (state : State) (commands : List Command) (sid topic : Text) (payload : Bytes)
      (listening : s.Listening) (current : s.sid = some sid) (cause : c.input = .inbound topic payload)
      (own : (s.sessionPrefix sid).IsPrefix topic) (next : state = s.state ∨ state = .playing)
      (replies : ∀ x ∈ commands, x.isReply = true) : Effect s c { s with state := state } commands
  | finished (listening : s.Listening) : Effect s c s.finish.1 s.finish.2

theorem endUtterance_cases (s : Session) (c : Call) :
    Effect s c (s.endUtterance c.nowMs).1 (s.endUtterance c.nowMs).2 := by
  unfold endUtterance
  split
  · exact .none
  · rename_i h
    exact .ended (by simpa using h)

theorem transcript_isReply (fromSlice : Bytes → Option Json) (payload : Bytes) :
    ∀ x ∈ transcript fromSlice payload, x.isReply = true := by
  unfold transcript
  cases fromSlice payload with
  | none => simp
  | some v =>
    simp only
    cases (v.get "text".toList).bind Json.asStr with
    | none => simp
    | some text => exact List.forall_mem_singleton.mpr rfl

theorem answer_isReply (fromSlice : Bytes → Option Json) (payload : Bytes) :
    ∀ x ∈ answer fromSlice payload, x.isReply = true := by
  unfold answer
  cases (fromSlice payload).bind (fun v => (v.get "text".toList).bind Json.asStr) with
  | none => simp
  | some text => exact List.forall_mem_singleton.mpr rfl

theorem onSuffix_cases (fromSlice : Bytes → Option Json) {s : Session} {c : Call} {sid topic : Text}
    {payload : Bytes} (listening : s.Listening) (current : s.sid = some sid)
    (cause : c.input = .inbound topic payload) (own : (s.sessionPrefix sid).IsPrefix topic) (suffix : Text) :
    Effect s c (s.onSuffix fromSlice suffix payload).1 (s.onSuffix fromSlice suffix payload).2 := by
  have hreply : ∀ (state : State) (commands : List Command), state = s.state ∨ state = .playing →
      (∀ x ∈ commands, x.isReply = true) → Effect s c { s with state := state } commands := by
    intro state commands next replies
    exact .replied state commands sid topic payload listening current cause own next replies
  have hsame : ∀ commands : List Command, (∀ x ∈ commands, x.isReply = true) → Effect s c s commands :=
    fun commands replies => hreply s.state commands (Or.inl rfl) replies
  unfold onSuffix
  by_cases hinfo : suffix = "tts/meta".toList
  · rw [if_pos hinfo]
    apply hreply .playing _ (Or.inr rfl)
    intro x hx
    obtain ⟨rate, -, rfl⟩ := List.mem_map.mp hx
    rfl
  rw [if_neg hinfo]
  by_cases htts : suffix = "tts".toList
  · rw [if_pos htts]
    exact hreply .playing _ (Or.inr rfl) (List.forall_mem_singleton.mpr rfl)
  rw [if_neg htts]
  by_cases hdone : suffix = "done".toList
  · rw [if_pos hdone]
    exact .finished listening
  rw [if_neg hdone]
  by_cases htranscript : suffix = "transcript".toList
  · rw [if_pos htranscript]
    exact hsame _ (transcript_isReply fromSlice payload)
  rw [if_neg htranscript]
  by_cases htext : suffix = "tts/text".toList
  · rw [if_pos htext]
    exact hsame _ (answer_isReply fromSlice payload)
  rw [if_neg htext]
  exact .none

/-- **Inversion.** -/
theorem handle_cases (fromSlice : Bytes → Option Json) (s : Session) (c : Call) :
    Effect s c (s.handle fromSlice c).1 (s.handle fromSlice c).2 := by
  unfold handle
  cases hc : c.input with
  | trigger =>
    simp only
    unfold onTrigger
    split
    · exact .none
    · rename_i h
      exact .started (by simpa using h)
  | micFrame bytes =>
    simp only
    unfold onMicFrame
    split
    · exact .none
    · rename_i h
      exact .frame bytes hc (by simpa using h)
  | silenceDetected => exact endUtterance_cases s c
  | inbound topic payload =>
    simp only
    -- a topic is ours only under the session's prefix, while it listens
    unfold onInbound
    split
    · rename_i listening
      cases hsid : s.sid with
      | none => exact .none
      | some sid =>
        simp only
        cases hp : Str.stripPrefix (s.sessionPrefix sid) topic with
        | none => exact .none
        | some suffix =>
          have own : (s.sessionPrefix sid).IsPrefix topic := ⟨suffix, (Str.stripPrefix_eq_some.mp hp).symm⟩
          exact onSuffix_cases fromSlice listening hsid hc own suffix
    · exact .none
  | tick =>
    simp only
    unfold onTick
    split
    · cases hstate : s.state with
      | idle => exact .none
      | streaming => exact endUtterance_cases s c
      | awaitingReply => exact .finished (Or.inl hstate)
      | playing => exact .finished (Or.inr hstate)
    · exact .none

/-- Idle, without a session and without a deadline, or none of the three. -/
structure Coherent (s : Session) : Prop where
  sid : s.state = .idle ↔ s.sid = none
  deadline : s.sid = none ↔ s.deadlineMs = none

theorem coherent_new (d : Device) : (new d).Coherent := ⟨by simp [new], by simp [new]⟩

theorem Coherent.busy {s : Session} (C : s.Coherent) (h : s.state ≠ .idle) :
    (∃ sid, s.sid = some sid) ∧ ∃ dl, s.deadlineMs = some dl := by
  have hsid : s.sid ≠ none := fun hnone => h (C.sid.mpr hnone)
  have hdeadline : s.deadlineMs ≠ none := fun hnone => hsid (C.deadline.mpr hnone)
  exact ⟨Option.ne_none_iff_exists'.mp hsid, Option.ne_none_iff_exists'.mp hdeadline⟩

theorem Listening.ne_idle {s : Session} (h : s.Listening) : s.state ≠ .idle := by
  rcases h with h | h <;> rw [h] <;> decide

theorem Coherent.step {s s' : Session} {c : Call} {commands : List Command} (C : s.Coherent)
    (h : Effect s c s' commands) : s'.Coherent := by
  cases h with
  | none => exact C
  | started idle => exact ⟨by simp, by simp⟩
  | frame bytes cause streaming => exact C
  | ended streaming =>
    obtain ⟨⟨sid, hsid⟩, -⟩ := C.busy (by rw [streaming]; decide)
    exact ⟨by simp [hsid], by simp [hsid]⟩
  | replied state _ sid topic payload listening current cause own next replies =>
    obtain ⟨-, dl, hdl⟩ := C.busy listening.ne_idle
    have hstate : state ≠ .idle := by
      rcases next with rfl | rfl
      · exact listening.ne_idle
      · decide
    exact ⟨by simp [current, hstate], by simp [current, hdl]⟩
  | finished listening => exact ⟨by simp [finish], by simp [finish]⟩

/-- **Time.** A tick past the deadline leaves the state. -/
theorem tick_leaves (fromSlice : Bytes → Option Json) {s : Session} {c : Call} {dl : UInt64}
    (C : s.Coherent) (htick : c.input = .tick) (hdl : s.deadlineMs = some dl) (hlate : dl < c.nowMs) :
    (s.handle fromSlice c).1.state ≠ s.state := by
  have hexpired : s.deadlineMs.any (fun d => d < c.nowMs) = true := by simp [hdl, hlate]
  unfold handle
  rw [htick]
  simp only [onTick, hexpired, if_true]
  cases hstate : s.state with
  | idle =>
    have hnone := C.deadline.mp (C.sid.mp hstate)
    rw [hdl] at hnone
    cases hnone
  | streaming => simp [endUtterance, hstate]
  | awaitingReply => simp [finish]
  | playing => simp [finish]

end Session

/-! ## Conversations -/

theorem Conversation.replies {d : Device} {sid : Text} : ∀ (xs : List Obs) {o : List Obs},
    Conversation d sid .listening o → (∀ x ∈ xs, x.Answers d sid) →
      Conversation d sid .listening (o ++ xs) := by
  intro xs
  induction xs with
  | nil =>
    intro o before _
    rw [List.append_nil]
    exact before
  | cons x xs ih =>
    intro o before own
    have hnext := ih (.reply x before (own x List.mem_cons_self)) (fun y hy => own y (List.mem_cons_of_mem _ hy))
    rw [List.append_assoc, List.singleton_append] at hnext
    exact hnext

theorem Conversation.shape {d : Device} {sid : Text} {stage : Stage} {o : List Obs}
    (h : Conversation d sid stage o) : ∃ (frames : List Bytes) (replies : List Obs),
      (∀ f ∈ frames, f ≠ []) ∧ (∀ x ∈ replies, x.Answers d sid) ∧
      o.map Obs.command = .publish (d.sessionPrefix sid ++ "start".toList) d.startPayload ::
        frames.map (.publish (d.sessionPrefix sid ++ "audio".toList)) ++
        match stage with
        | .speaking => []
        | .listening => .publish (d.sessionPrefix sid ++ "audio".toList) [] :: replies.map Obs.command
        | .complete =>
          .publish (d.sessionPrefix sid ++ "audio".toList) [] :: replies.map Obs.command ++ [.sessionEnded] := by
  induction h with
  | start cause => exact ⟨[], [], by simp, by simp, rfl⟩
  | audio cause bytes before nonempty ih =>
    obtain ⟨frames, replies, hframes, hreplies, hshape⟩ := ih
    refine ⟨frames ++ [bytes], replies, ?_, hreplies, ?_⟩
    · intro f hf
      rcases List.mem_append.mp hf with hf | hf
      · exact hframes f hf
      · rw [List.mem_singleton.mp hf]
        exact nonempty
    · rw [List.map_append, hshape]
      simp
  | endOfUtterance cause before ih =>
    obtain ⟨frames, replies, hframes, -, hshape⟩ := ih
    refine ⟨frames, [], hframes, by simp, ?_⟩
    rw [List.map_append, hshape]
    simp
  | reply x before own ih =>
    obtain ⟨frames, replies, hframes, hreplies, hshape⟩ := ih
    refine ⟨frames, replies ++ [x], hframes, ?_, ?_⟩
    · intro y hy
      rcases List.mem_append.mp hy with hy | hy
      · exact hreplies y hy
      · rw [List.mem_singleton.mp hy]
        exact own
    · rw [List.map_append, hshape]
      simp
  | ended cause before ih =>
    obtain ⟨frames, replies, hframes, hreplies, hshape⟩ := ih
    refine ⟨frames, replies, hframes, hreplies, ?_⟩
    rw [List.map_append, hshape]
    simp

/-- The commands of the session under way: none, or a conversation not complete. -/
def UnderWay (d : Device) (s : Session) (now : List Obs) : Prop :=
  match s.sid with
  | none => now = []
  | some sid => Conversation d sid (if s.state = .streaming then .speaking else .listening) now

/-- The history is complete conversations, then the one under way. -/
structure Story (d : Device) (h : List Obs) (s : Session) : Prop where
  device : s.toDevice = d
  coherent : s.Coherent
  conversations : ∃ (done : List (Text × List Obs)) (now : List Obs),
    (∀ x ∈ done, Conversation d x.1 .complete x.2) ∧ h = done.flatMap Prod.snd ++ now ∧ UnderWay d s now

theorem story_new (d : Device) : Story d [] (.new d) where
  device := rfl
  coherent := Session.coherent_new d
  conversations := ⟨[], [], by simp, rfl, rfl⟩

/-- **One call.** -/
theorem Story.step {d : Device} {h : List Obs} {s s' : Session} {c : Call} {commands : List Command}
    (T : Story d h s) (hmic : ∀ bytes, c.input = .micFrame bytes → bytes ≠ [])
    (heffect : Session.Effect s c s' commands) : Story d (h ++ observed c commands) s' := by
  obtain ⟨hdevice, C, done, now, hdone, hh, hnow⟩ := T
  have C' := C.step heffect
  subst hdevice hh
  unfold UnderWay at hnow
  -- the conversation under way goes on, or a new one starts
  have hgrow : ∀ now' : List Obs, s'.toDevice = s.toDevice → UnderWay s.toDevice s' now' →
      now' = now ++ observed c commands →
      Story s.toDevice (done.flatMap Prod.snd ++ now ++ observed c commands) s' := by
    intro now' hdevice' hnow' heq
    exact ⟨hdevice', C', done, now', hdone, by rw [heq, List.append_assoc], hnow'⟩
  cases heffect with
  | none => exact hgrow now rfl hnow (by simp [observed])
  | started idle =>
    rw [C.sid.mp idle] at hnow
    have hnil : now = [] := hnow
    exact hgrow _ rfl (.start c.input) (by rw [hnil]; rfl)
  | frame bytes cause streaming =>
    obtain ⟨⟨sid, hsid⟩, -⟩ := C.busy (by rw [streaming]; decide)
    rw [hsid, if_pos streaming] at hnow
    refine hgrow _ rfl ?_ rfl
    unfold UnderWay Session.topic observed
    rw [hsid, if_pos streaming]
    exact .audio c.input bytes hnow (hmic bytes cause)
  | ended streaming =>
    obtain ⟨⟨sid, hsid⟩, -⟩ := C.busy (by rw [streaming]; decide)
    rw [hsid, if_pos streaming] at hnow
    refine hgrow _ rfl ?_ rfl
    unfold UnderWay Session.topic observed
    rw [hsid]
    exact .endOfUtterance c.input hnow
  | replied state _ sid topic payload listening current cause own next replies =>
    have hspeaking : ∀ {st : State}, st = .awaitingReply ∨ st = .playing → st ≠ .streaming := by
      intro st h
      rcases h with rfl | rfl <;> decide
    have hnext : state ≠ .streaming := by
      rcases next with rfl | rfl
      · exact hspeaking listening
      · decide
    rw [current, if_neg (hspeaking listening)] at hnow
    refine hgrow _ rfl ?_ rfl
    unfold UnderWay
    simp only [current]
    rw [if_neg hnext]
    apply hnow.replies
    intro x hx
    obtain ⟨y, hy, rfl⟩ := List.mem_map.mp hx
    exact ⟨replies y hy, topic, payload, cause, own⟩
  | finished listening =>
    obtain ⟨⟨sid, hsid⟩, -⟩ := C.busy listening.ne_idle
    have hspeaking : s.state ≠ .streaming := by
      rcases listening with h | h <;> rw [h] <;> decide
    rw [hsid, if_neg hspeaking] at hnow
    refine ⟨rfl, C', done ++ [(sid, now ++ observed c s.finish.2)], [], ?_, by simp, rfl⟩
    intro x hx
    rcases List.mem_append.mp hx with hx | hx
    · exact hdone x hx
    · rw [List.mem_singleton.mp hx]
      exact .ended c.input hnow

/-- **Conversations.** Whatever the messages, the clock and the identifiers
drawn, as long as no microphone frame is empty: the machine is idle iff it has
no session iff it has no deadline; its commands are complete conversations,
each on its own session's topics, followed by the one under way; and a tick
past the deadline leaves the state. -/
theorem session_conversations (fromSlice : Bytes → Option Json) (d : Device) (calls : List Call)
    (s : Session) (h : List Obs) (hrun : (Session.machine fromSlice).run (.new d) calls = some (s, h))
    (hmic : ∀ c ∈ calls, ∀ bytes, c.input = .micFrame bytes → bytes ≠ []) :
    (s.state = .idle ↔ s.sid = none) ∧ (s.sid = none ↔ s.deadlineMs = none) ∧
    (∃ (done : List (Text × List Obs)) (now : List Obs),
      (∀ x ∈ done, Conversation d x.1 .complete x.2) ∧ h = done.flatMap Prod.snd ++ now ∧
      UnderWay d s now) ∧
    ∀ (c : Call) (dl : UInt64), c.input = .tick → s.deadlineMs = some dl → dl < c.nowMs →
      (s.handle fromSlice c).1.state ≠ s.state := by
  have hinv := Machine.run_invariant_along (M := Session.machine fromSlice) (P := Story d)
    (C := fun _ _ c => ∀ bytes, c.input = .micFrame bytes → bytes ≠ []) ?_ calls []
      (Session.new d) s h (story_new d)
    (Machine.along_of_forall calls [] (Session.new d) (fun c hc _ _ => hmic c hc)) hrun
  · have T : Story d h s := by simpa using hinv
    exact ⟨T.coherent.sid, T.coherent.deadline, T.conversations,
      fun c dl htick hdl hlate => Session.tick_leaves fromSlice T.coherent htick hdl hlate⟩
  · intro h s c s' o T hframe hs
    cases hs
    exact T.step hframe (Session.handle_cases fromSlice s c)

def noJson : Bytes → Option Json := fun _ => none

/-- A kitchen satellite is spoken to, plays the answer, and is done. -/
def kitchen : Device := { root := "athena".toList, satId := "kitchen".toList, locale := "en".toList }

def kitchenCalls : List Call :=
  [⟨.trigger, 0, "7".toList⟩, ⟨.micFrame [1, 2], 20, []⟩, ⟨.silenceDetected, 900, []⟩,
   ⟨.inbound "athena/sat/kitchen/session/6/tts".toList [9], 950, []⟩,
   ⟨.inbound "athena/sat/kitchen/session/7/tts".toList [8], 1000, []⟩,
   ⟨.inbound "athena/sat/kitchen/session/7/done".toList [], 1200, []⟩]

/-- The conversation is complete, the other session's audio not played; the
satellite is idle, and what it did is its conversations. -/
theorem kitchen_conversations : ∃ s h,
    (Session.machine noJson).run (.new kitchen) kitchenCalls = some (s, h) ∧ s.state = .idle ∧
      .play [8] ∈ h.map Obs.command ∧ .play [9] ∉ h.map Obs.command ∧ s.sid = none ∧ s.deadlineMs = none ∧
      (∃ (done : List (Text × List Obs)) (now : List Obs),
        (∀ x ∈ done, Conversation kitchen x.1 .complete x.2) ∧ h = done.flatMap Prod.snd ++ now ∧
          UnderWay kitchen s now) := by
  refine ⟨_, _, rfl, rfl, by decide, by decide, ?_⟩
  obtain ⟨hidle, hdeadline, hstory, -⟩ :=
    session_conversations noJson kitchen kitchenCalls _ _ rfl (by simp [kitchenCalls])
  have hsid := hidle.mp rfl
  exact ⟨hsid, hdeadline.mp hsid, hstory⟩

end AthenaVoice.Esp32
