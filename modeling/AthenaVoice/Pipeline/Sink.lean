import AthenaVoice.Pipeline.Tts

/-
  The response sink — `pipeline/sink.rs`

  Publishes the audio of a session to its satellite: `tts/meta` once, each
  chunk on `tts`, and `done` for each completed answer. At teardown it
  publishes one more `done` unless its last message was an `AnswerEnd`.
  A failed publish is only logged, so it leaves no trace here.

  What is proved:
    1. `sink_dones` — one `done` for each `AnswerEnd`, and one at teardown
       iff the last message was not an `AnswerEnd`.
-/

namespace AthenaVoice.Pipeline

open Lib CoreTypes

/-- The session a sink publishes for. -/
structure SinkDeps where
  session : SessionId
  topicRoot : Text
  sat : Text
  /-- The session id as it is displayed. -/
  sid : Text

/-- `<root>/sat/<sat>/session/<sid>/<leaf>`: `session_tts_meta`, `session_tts`
and `session_done`. -/
def SinkDeps.topic (deps : SinkDeps) (leaf : Text) : Text :=
  deps.topicRoot ++ "/sat/".toList ++ deps.sat ++ "/session/".toList ++ deps.sid ++ "/".toList ++ leaf

/-- `rumqttc::QoS`, as far as it is used. -/
inductive QoS where
  | atMostOnce | atLeastOnce
  deriving DecidableEq, Repr

/-- The payloads of the three topics. -/
inductive Payload where
  /-- `meta_payload`. -/
  | info (codec : AudioFormat) (sampleRate channels : Nat)
  | bytes (b : List UInt8)
  /-- `publish_done`'s `outcome`. -/
  | outcome (o : Outcome)
  deriving DecidableEq, Repr

/-- What is observed of the sink. -/
inductive SinkObs where
  | publish (topic : Text) (qos : QoS) (retain : Bool) (payload : Payload)
  | event (e : Event)
  deriving DecidableEq

structure Sink where
  sent : Option (AudioFormat × Nat)
  answerDone : Bool
  exited : Bool
  deriving DecidableEq, Repr

inductive SinkAction where
  | msg (m : SinkMsg)
  | closed
  | cancel

namespace Sink

def init : Sink := { sent := none, answerDone := false, exited := false }

def publishDone (deps : SinkDeps) : SinkObs :=
  .publish (deps.topic "done".toList) .atLeastOnce false (.outcome .ok)

def receive (deps : SinkDeps) (s : Sink) : SinkMsg → Sink × List SinkObs
  | .format format sampleRate =>
    match s.sent with
    | none =>
      ({ s with answerDone := false, sent := some (format, sampleRate) },
        [.publish (deps.topic "tts/meta".toList) .atLeastOnce false (.info format sampleRate 1)])
    | some _ => ({ s with answerDone := false }, [])
  | .chunk bytes =>
    ({ s with answerDone := false }, [.publish (deps.topic "tts".toList) .atMostOnce false (.bytes bytes)])
  | .answerEnd => ({ s with answerDone := true }, [publishDone deps])

def teardown (deps : SinkDeps) (s : Sink) : Sink × List SinkObs :=
  ({ s with exited := true },
    (if s.answerDone then [] else [publishDone deps]) ++ [.event (.sessionEnded deps.session .ok)])

def step (deps : SinkDeps) (s : Sink) (a : SinkAction) : Option (Sink × List SinkObs) :=
  if s.exited then none else
    match a with
    | .msg m => some (s.receive deps m)
    | .closed => some (s.teardown deps)
    | .cancel => some (s.teardown deps)

def machine (deps : SinkDeps) : Machine Sink SinkAction SinkObs := ⟨step deps⟩

end Sink

/-- The `done`s published. -/
def donesOf (h : List SinkObs) : Nat :=
  h.countP (fun o => match o with | .publish _ _ _ (.outcome _) => true | _ => false)

@[simp] theorem donesOf_append (h h' : List SinkObs) : donesOf (h ++ h') = donesOf h + donesOf h' := by
  simp [donesOf]

/-- The answers a list of messages completes. -/
def answerEnds (ms : List SinkMsg) : Nat := ms.count .answerEnd

theorem receive_spec (deps : SinkDeps) (s : Sink) (m : SinkMsg) :
    donesOf (s.receive deps m).2 = (if m = .answerEnd then 1 else 0) ∧
      (s.receive deps m).1.answerDone = decide (m = .answerEnd) ∧
      (s.receive deps m).1.exited = s.exited := by
  cases m with
  | format format rate =>
    unfold Sink.receive
    cases s.sent <;> simp [donesOf]
  | chunk bytes => simp [Sink.receive, donesOf]
  | answerEnd => simp [Sink.receive, Sink.publishDone, donesOf]

/-- The sink takes any list of messages, and publishes one `done` for each
`AnswerEnd`; its flag tells whether the last message was one. -/
theorem sink_run (deps : SinkDeps) : ∀ (ms : List SinkMsg) (s : Sink), s.exited = false →
    ∃ s' h, (Sink.machine deps).run s (ms.map .msg) = some (s', h) ∧ s'.exited = false ∧
      donesOf h = answerEnds ms ∧
      s'.answerDone = match ms.getLast? with
        | none => s.answerDone
        | some m => decide (m = .answerEnd) := by
  intro ms
  induction ms with
  | nil => intro s hs; exact ⟨s, [], rfl, hs, rfl, rfl⟩
  | cons m ms ih =>
    intro s hs
    obtain ⟨hdones, hflag, hexited⟩ := receive_spec deps s m
    obtain ⟨s', h, hrun, hs', hd, hf⟩ := ih (s.receive deps m).1 (hexited.trans hs)
    refine ⟨s', (s.receive deps m).2 ++ h, ?_, hs', ?_, ?_⟩
    · rw [List.map_cons]
      refine (Machine.run_cons_some _).mpr ⟨_, _, h, ?_, hrun, rfl⟩
      simp [Sink.machine, Sink.step, hs]
    · rw [donesOf_append, hd, hdones, answerEnds, answerEnds, List.count_cons]
      simp only [beq_iff_eq]
      omega
    · rw [hf, List.getLast?_cons]
      cases hl : ms.getLast? with
      | none => simpa using hflag
      | some l => rfl

/-- **Dones.** One for each `AnswerEnd`; at teardown one more iff the last
message was not an `AnswerEnd`. -/
theorem sink_dones (deps : SinkDeps) (ms : List SinkMsg) :
    ∃ s h s' o, (Sink.machine deps).run .init (ms.map .msg) = some (s, h) ∧
      donesOf h = answerEnds ms ∧ (Sink.machine deps).step s .closed = some (s', o) ∧
      donesOf o = if ms.getLast? = some .answerEnd then 0 else 1 := by
  obtain ⟨s, h, hrun, hs, hd, hf⟩ := sink_run deps ms .init rfl
  refine ⟨s, h, (s.teardown deps).1, (s.teardown deps).2, hrun, hd, by simp [Sink.machine, Sink.step, hs], ?_⟩
  unfold Sink.teardown
  rw [hf]
  cases hl : ms.getLast? with
  | none => simp [Sink.init, Sink.publishDone, donesOf]
  | some m => by_cases hm : m = .answerEnd <;> simp [hm, Sink.publishDone, donesOf]

end AthenaVoice.Pipeline
