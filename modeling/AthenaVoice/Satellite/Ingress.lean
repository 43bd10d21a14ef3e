import AthenaVoice.Lib.Relay
import AthenaVoice.Lib.Slots
import AthenaVoice.Lib.Utf8
import AthenaVoice.Mqtt.Topics
import AthenaVoice.Sessions.Manager

/-
  The satellite adapter — `satellite/ingress.rs`, `pipeline/{ingest,vad,stt}.rs`

  One task takes what the broker delivers, message by message. A `start` makes
  an entry in the session manager and then wires the session's tasks; `audio`
  and `text` go to the session the topic names, whoever opened it; `end` closes
  it. Behind an entry stand three channels of audio frames — before `ingest`,
  before `vad`, and the stream the STT provider reads — and one of transcripts,
  which the router reads and both the STT task and the adapter write. The reaper
  of idle sessions runs beside all that, and a task may be anywhere when its
  token is cancelled.

  The egress task reads the event bus with a backlog of its own, of which a slow
  receiver loses the oldest, and publishes what concerns a session that is open
  when it looks.

  A session id is a UUID as a number; a token names the entry it was made with,
  and so the tasks wired for it. What reads JSON is a parameter.

  What is proved:
    1. `view_touch` — a session spoken to keeps its satellite and its token.
    2. `step_effect` — everything a step may do, with what is seen of it.

  Correspondence (Rust ↔ Lean):
    `SatelliteDeps`                            `SatelliteDeps`
    `handle_publish`, `extract_locale`         `Adapter.handlePublish`, `extractLocale`
    `open_session`                             `Adapter.openSession`, then `Adapter.wire`
    `spawn_ingest`, `spawn_vad`                the first two relays of `Dag.audio`
    the stream given to `Stt::transcribe`      the last
    `spawn_stt`                                `transcribe`, `forward`, `sttStop`
    the router's receiver                      `Dag.texts`
    `spawn_transcript_egress`                  `Adapter.egress`
-/

namespace AthenaVoice.Satellite

open Lib CoreTypes Mqtt Sessions

abbrev Sid := Fin (16 ^ 32)

abbrev sidOf (session : SessionId) : Sid := Fin.ofNat _ session

structure AudioFrame where
  session : SessionId
  seq : Nat
  pcm : List UInt8
  deriving DecidableEq, Repr

/-- The channels of audio frames, and that of transcripts. -/
def audioChannel : Nat := 64
def textChannel : Nat := 16

/-- What was wired for one session: "audio → ingest → vad → stt → router". -/
structure Dag where
  session : SessionId
  sat : Text
  locale : Text
  /-- The token is cancelled, and with it the session's own senders are gone. -/
  cancelled : Bool
  audio : Chain AudioFrame
  texts : Chain Transcript
  /-- A transcript whose event the STT task has sent, and which waits for the
  router. -/
  stt : Option Transcript
  sttLive : Bool
  deriving DecidableEq, Repr

def Dag.wired (session : SessionId) (sat locale : Text) : Dag :=
  { session := session, sat := sat, locale := locale, cancelled := false, audio := List.replicate 3 .fresh,
    texts := List.replicate 1 .fresh, stt := none, sttLive := true }

/-- `SatelliteDeps`, as far as it is read here. -/
structure SatelliteDeps where
  topicRoot : Text
  /-- The bridge's prefix, when there is one. -/
  assist : Option Text
  maxIdleMs : Nat
  uuids : Uuids Sid
  /-- `serde_json::from_slice`. -/
  fromSlice : List UInt8 → Option Json

/-- A session whose entry is made and whose tasks are not. -/
structure Opening where
  session : SessionId
  sat : Text
  locale : Text
  deriving DecidableEq, Repr

/-- The adapter, the manager with its reaper, and the sessions' tasks. -/
structure Adapter where
  managed : Managed
  opening : Option Opening
  dags : List Dag
  /-- What the egress task has still to read from the bus. -/
  backlog : List Event
  panicked : Bool

def Adapter.init (clock : Nat) : Adapter :=
  { managed := .init clock, opening := none, dags := [], backlog := [], panicked := false }

/-- Where a transcript comes from. -/
inductive Source where
  | stt | text
  deriving DecidableEq, Repr

inductive AdapterAction where
  /-- The broker delivers a message. -/
  | publish (topic : Text) (payload : List UInt8)
  /-- The rest of `open_session`. -/
  | wire
  | clock (now : Nat)
  /-- `reap_idle`: the ids are collected, and closed one by one. -/
  | collect (order : Readout (Σ _ : SessionId, SessionState))
  | reapNext
  /-- A relay of a session's audio moves. -/
  | relay (token i : Nat) (m : Relay.Move)
  /-- The STT stream yields a transcript. -/
  | transcribe (token : Nat) (t : Transcript)
  /-- The STT task sends what it holds. -/
  | forward (token : Nat)
  | sttStop (token : Nat)
  /-- The router takes its next transcript. -/
  | route (token : Nat)
  | routerStop (token : Nat)
  /-- Another sender's event. -/
  | bus (e : Event)
  /-- The egress task falls behind by one. -/
  | lag
  | egress

inductive AdapterObs where
  /-- The entry is made. -/
  | opened (session : SessionId) (sat : Text) (token : Nat)
  | collided (session : SessionId)
  /-- `Event::SessionStarted`. -/
  | started (session : SessionId) (sat locale : Text) (token : Nat)
  /-- `get(sid).unwrap()` finds no entry. -/
  | panicked (session : SessionId)
  /-- The entry is removed and its token cancelled. -/
  | closed (session : SessionId) (token : Nat)
  /-- A frame has room in the session's channel, or is dropped. -/
  | accepted (token : Nat) (frame : AudioFrame)
  | dropped (token : Nat) (frame : AudioFrame)
  /-- The provider reads a frame. -/
  | read (token : Nat) (frame : AudioFrame)
  /-- `Event::TranscriptFinal` or `Event::TranscriptPartial`. -/
  | heard (token : Nat) (session : SessionId) (source : Source) (t : Transcript)
  /-- The router takes a transcript, or its channel does not. -/
  | routed (token : Nat) (t : Transcript)
  | untold (token : Nat) (source : Source) (t : Transcript)
  /-- Another sender's event. -/
  | sent (e : Event)
  /-- An event is published for a session. -/
  | told (session : SessionId) (token : Nat) (e : Event) (topic : Text) (payload : Json)

/-! ## What the adapter does -/

/-- What `Locale::new` checks, byte by byte. -/
def acceptsLocale (s : Text) : Bool :=
  match utf8.encode s with
  | [a, b] => isLower a && isLower b
  | [a, b, c, d, e] => isLower a && isLower b && c == 45 && isUpper d && isUpper e
  | _ => false
where
  isLower (b : UInt8) : Bool := 97 ≤ b.toNat && b.toNat ≤ 122
  isUpper (b : UInt8) : Bool := 65 ≤ b.toNat && b.toNat ≤ 90

def extractLocale (deps : SatelliteDeps) (payload : List UInt8) : Option Text :=
  (((deps.fromSlice payload).bind (Json.get "locale".toList)).bind Json.asStr).bind fun raw =>
    if acceptsLocale raw then some raw else none

/-- `Event::TranscriptFinal` or `Event::TranscriptPartial`. -/
def transcriptEvent (session : SessionId) (t : Transcript) : Event :=
  if t.isFinal then .transcriptFinal session t.text else .transcriptPartial session t.text

namespace Adapter

def send (s : Adapter) (e : Event) : Adapter := { s with backlog := s.backlog ++ [e] }

/-- The tasks of one session are changed. -/
def modify (s : Adapter) (token : Nat) (f : Dag → Dag) : Adapter := { s with dags := s.dags.modify token f }

def setManager (s : Adapter) (manager : SessionManager) : Adapter :=
  { s with managed := { s.managed with manager := manager } }

/-- `token.cancel()`. -/
def cancel (s : Adapter) (token : Nat) : Adapter := s.modify token fun dag => { dag with cancelled := true }

/-- `open_session`, up to the entry. The token is the place its tasks will have. -/
def openSession (s : Adapter) (sat : SatelliteId) (session : SessionId) (locale : Text) : Adapter × List AdapterObs :=
  match s.managed.manager.openSession session sat.text locale s.dags.length s.managed.clock with
  | (_, .error _) => (s, [.collided session])
  | (manager, .ok ()) =>
    ({ s.setManager manager with opening := some { session := session, sat := sat.text, locale := locale } },
      [.opened session sat.text s.dags.length])

/-- `session_manager.close(sid)`. -/
def close (s : Adapter) (session : SessionId) : Adapter × List AdapterObs :=
  match s.managed.manager.close session with
  | (manager, cancelled) =>
    (cancelled.elim (s.setManager manager) (s.setManager manager).cancel, cancelled.toList.map (.closed session))

/-- `session_manager.touch(sid)`. -/
def touch (s : Adapter) (session : SessionId) : Adapter :=
  s.setManager (s.managed.manager.touch session s.managed.clock)

/-- `state.audio_tx.try_send(frame)`. -/
def trySendAudio (s : Adapter) (token : Nat) (frame : AudioFrame) : Adapter × List AdapterObs :=
  match (s.dags[token]?).bind (fun dag => Chain.offer audioChannel frame dag.audio) with
  | some audio => (s.modify token fun dag => { dag with audio := audio }, [.accepted token frame])
  | none => (s, [.dropped token frame])

/-- `state.text_tx.try_send(transcript)`. -/
def trySendText (s : Adapter) (token : Nat) (t : Transcript) : Adapter × List AdapterObs :=
  match (s.dags[token]?).bind (fun dag => Chain.offer textChannel t dag.texts) with
  | some texts => (s.modify token fun dag => { dag with texts := texts }, [])
  | none => (s, [.untold token .text t])

def handlePublish (deps : SatelliteDeps) (s : Adapter) (topic : Text) (payload : List UInt8) :
    Adapter × List AdapterObs :=
  match parseSatelliteTopic deps.uuids deps.topicRoot topic with
  | none => (s, [])
  | some (.start sat sid) => s.openSession sat sid.val ((extractLocale deps payload).getD "en".toList)
  | some (.audio _ sid) =>
    let s := s.touch sid.val
    match s.managed.manager.map.lookup sid.val with
    | none => (s, [])
    | some state => s.trySendAudio state.cancel { session := sid.val, seq := 0, pcm := payload }
  | some (.text _ sid) =>
    let s := s.touch sid.val
    match s.managed.manager.map.lookup sid.val with
    | none => (s, [])
    | some state =>
      let text := Str.trim (fromUtf8Lossy payload)
      if text.isEmpty then (s, [])
      else
        let t : Transcript := { text := text, isFinal := true }
        -- the event is sent first, and stays sent if the channel is full
        match (s.send (.transcriptFinal sid.val text)).trySendText state.cancel t with
        | (s, o) => (s, .heard state.cancel sid.val .text t :: o)
  | some (.finish _ sid) => s.close sid.val

/-- The rest of `open_session`. -/
def wire (s : Adapter) (opening : Opening) : Adapter × List AdapterObs :=
  match s.managed.manager.map.lookup opening.session with
  | none => ({ s with opening := none, panicked := true }, [.panicked opening.session])
  | some _ =>
    ({ s with opening := none, dags := s.dags ++ [.wired opening.session opening.sat opening.locale] },
      [.started opening.session opening.sat opening.locale s.dags.length])

/-- The topic's last level and the payload an event is published with. -/
def egressKind : Event → Option (SessionId × Text × Json)
  | .transcriptPartial session text =>
    some (session, "transcript".toList, .object [("is_final".toList, .bool false), ("text".toList, .string text)])
  | .transcriptFinal session text =>
    some (session, "transcript".toList, .object [("is_final".toList, .bool true), ("text".toList, .string text)])
  | .ttsText session text => some (session, "tts/text".toList, .object [("text".toList, .string text)])
  | _ => none

/-- The egress task reads one event. -/
def egress (deps : SatelliteDeps) (s : Adapter) (e : Event) : List AdapterObs :=
  match egressKind e with
  | none => []
  | some (session, leaf, payload) =>
    match s.managed.manager.map.lookup session with
    | none => []
    | some state =>
      let topic := sessionTopic deps.topicRoot state.sat (deps.uuids.display (sidOf session)) leaf
      [.told session state.cancel e topic payload]

/-- Whether a relay of a session may stop now: `ingest` when cancelled, `vad`
also at the end of its input, and the provider whenever it likes. -/
def mayStop (dag : Dag) : Nat → Bool
  | 0 => dag.cancelled
  | 1 => dag.cancelled || (match dag.audio with
    | ingest :: vad :: _ => !ingest.live && vad.queue.isEmpty
    | _ => false)
  | _ => true

def step (deps : SatelliteDeps) (s : Adapter) : AdapterAction → Option (Adapter × List AdapterObs)
  | .publish topic payload =>
    -- one task handles the messages: the next waits until a session is wired
    if s.panicked = true ∨ s.opening.isSome = true then none
    else if (deps.assist.bind (Assist.parseTranscription · topic)).isSome then some (s, [])
    else some (s.handlePublish deps topic payload)
  | .wire => s.opening.map s.wire
  | .clock now => some ({ s with managed := { s.managed with clock := now } }, [])
  | .collect order =>
    ((Managed.machine deps.maxIdleMs).step s.managed (.collect order)).map fun q => ({ s with managed := q.1 }, [])
  | .reapNext =>
    match s.managed.reap with
    | none => none
    | some { cutoff := _, stale := [] } => some ({ s with managed := { s.managed with reap := none } }, [])
    | some { cutoff := cutoff, stale := session :: stale } =>
      some ({ s with managed := { s.managed with reap := some { cutoff := cutoff, stale := stale } } }.close session)
  | .relay token i m =>
    (s.dags[token]?).bind fun dag =>
      if m = .stop ∧ mayStop dag i = false then none
      else
        (Chain.step audioChannel dag.audio i m).map fun q =>
          (s.modify token fun dag => { dag with audio := q.1 }, q.2.toList.map (.read token))
  | .transcribe token t =>
    (s.dags[token]?).bind fun dag =>
      if dag.sttLive = true ∧ dag.stt = none then
        some ((s.send (transcriptEvent dag.session t)).modify token fun dag => { dag with stt := some t },
          [.heard token dag.session .stt t])
      else none
  | .forward token =>
    (s.dags[token]?).bind fun dag =>
      dag.stt.bind fun t =>
        if dag.texts.all Relay.live then
          (Chain.offer textChannel t dag.texts).map fun texts =>
            (s.modify token fun dag => { dag with stt := none, texts := texts }, [])
        else
          some (s.modify token fun dag => { dag with stt := none, sttLive := false }, [.untold token .stt t])
  | .sttStop token =>
    (s.dags[token]?).bind fun dag =>
      if dag.sttLive = true ∧ dag.stt = none then
        some (s.modify token fun dag => { dag with sttLive := false }, [])
      else none
  | .route token =>
    (s.dags[token]?).bind fun dag =>
      (Chain.step textChannel dag.texts 0 .recv).map fun q =>
        (s.modify token fun dag => { dag with texts := q.1 }, q.2.toList.map (.routed token))
  | .routerStop token =>
    (s.dags[token]?).bind fun dag =>
      (Chain.step textChannel dag.texts 0 .stop).map fun q => (s.modify token fun dag => { dag with texts := q.1 }, [])
  | .bus e => some (s.send e, [.sent e])
  | .lag => match s.backlog with
    | [] => none
    | _ :: backlog => some ({ s with backlog := backlog }, [])
  | .egress => match s.backlog with
    | [] => none
    | e :: backlog => some ({ s with backlog := backlog }, s.egress deps e)

/-- The machine of the adapter's steps. -/
def machine (deps : SatelliteDeps) : Machine Adapter AdapterAction AdapterObs := { step := step deps }

/-- Who opened a session, and the token of its entry. -/
def view (s : Adapter) (session : SessionId) : Option (Text × Nat) :=
  (s.managed.manager.map.lookup session).map fun state => (state.sat, state.cancel)

end Adapter

/-! ## What one step does -/

/-- A step of one of a session's own tasks, with what is seen of it and what is
sent on the bus. -/
inductive Ran (token : Nat) (dag : Dag) : Dag → List AdapterObs → List Event → Prop where
  | relayed {i m audio out} (hstep : Chain.step audioChannel dag.audio i m = some (audio, out))
      (hstop : m = .stop → Adapter.mayStop dag i = true) :
      Ran token dag { dag with audio := audio } (out.toList.map (.read token)) []
  | transcribed {t} (hlive : dag.sttLive = true) (hfree : dag.stt = none) :
      Ran token dag { dag with stt := some t } [.heard token dag.session .stt t] [transcriptEvent dag.session t]
  | forwarded {t texts} (hheld : dag.stt = some t) (hoffer : Chain.offer textChannel t dag.texts = some texts) :
      Ran token dag { dag with stt := none, texts := texts } [] []
  | bereft {t} (hheld : dag.stt = some t) (hgone : ¬ dag.texts.all Relay.live = true) :
      Ran token dag { dag with stt := none, sttLive := false } [.untold token .stt t] []
  | deaf (hfree : dag.stt = none) : Ran token dag { dag with sttLive := false } [] []
  | routed {texts out} (hstep : Chain.step textChannel dag.texts 0 .recv = some (texts, out)) :
      Ran token dag { dag with texts := texts } (out.toList.map (.routed token)) []
  | left {texts out} (hstep : Chain.step textChannel dag.texts 0 .stop = some (texts, out)) :
      Ran token dag { dag with texts := texts } [] []

/-- What a step leaves alone when it opens, wires and closes nothing. -/
structure Kept (s s' : Adapter) : Prop where
  view : ∀ k, s'.view k = s.view k
  opening : s'.opening = s.opening
  panicked : s'.panicked = s.panicked

/-- What one step does, with what is seen of it. -/
inductive Effect (deps : SatelliteDeps) (s s' : Adapter) : List AdapterObs → Prop where
  | quiet (hkept : Kept s s') (hdags : s'.dags = s.dags) (hbacklog : s'.backlog = s.backlog) : Effect deps s s' []
  | opened {session locale} {sat : SatelliteId} (hfree : s.view session = none) (hready : s.opening = none ∧
      s.panicked = false)
      (hview : ∀ k, s'.view k = if k = session then some (sat.text, s.dags.length) else s.view k)
      (hopening : s'.opening = some { session := session, sat := sat.text, locale := locale })
      (hpanicked : s'.panicked = false) (hdags : s'.dags = s.dags) (hbacklog : s'.backlog = s.backlog) :
      Effect deps s s' [.opened session sat.text s.dags.length]
  | collided {session} (htaken : (s.view session).isSome) (hkept : Kept s s') (hdags : s'.dags = s.dags)
      (hbacklog : s'.backlog = s.backlog) : Effect deps s s' [.collided session]
  | started {opening} (hopening : s.opening = some opening) (hthere : (s.view opening.session).isSome)
      (hview : ∀ k, s'.view k = s.view k) (hwired : s'.opening = none) (hpanicked : s'.panicked = s.panicked)
      (hdags : s'.dags = s.dags ++ [.wired opening.session opening.sat opening.locale])
      (hbacklog : s'.backlog = s.backlog) :
      Effect deps s s' [.started opening.session opening.sat opening.locale s.dags.length]
  | panicked {opening} (hopening : s.opening = some opening) (hgone : s.view opening.session = none)
      (hview : ∀ k, s'.view k = s.view k) (hwired : s'.opening = none) (hpanicked : s'.panicked = true)
      (hdags : s'.dags = s.dags) (hbacklog : s'.backlog = s.backlog) : Effect deps s s' [.panicked opening.session]
  | closed {session sat token} (hthere : s.view session = some (sat, token))
      (hview : ∀ k, s'.view k = if k = session then none else s.view k) (hopening : s'.opening = s.opening)
      (hpanicked : s'.panicked = s.panicked)
      (hdags : s'.dags = s.dags.modify token fun dag => { dag with cancelled := true })
      (hbacklog : s'.backlog = s.backlog) : Effect deps s s' [.closed session token]
  | accepted {token sat frame dag audio} (hready : s.opening = none) (hview : s.view frame.session = some (sat, token))
      (hdag : s.dags[token]? = some dag) (hoffer : Chain.offer audioChannel frame dag.audio = some audio)
      (hkept : Kept s s') (hdags : s'.dags = s.dags.modify token fun dag => { dag with audio := audio })
      (hbacklog : s'.backlog = s.backlog) : Effect deps s s' [.accepted token frame]
  | dropped {token sat frame} (hready : s.opening = none) (hview : s.view frame.session = some (sat, token))
      (hfull : ∀ dag, s.dags[token]? = some dag → Chain.offer audioChannel frame dag.audio = none)
        (hkept : Kept s s')
      (hdags : s'.dags = s.dags) (hbacklog : s'.backlog = s.backlog) : Effect deps s s' [.dropped token frame]
  | said {token sat session t dag texts} (hready : s.opening = none) (hview : s.view session = some (sat, token))
      (hdag : s.dags[token]? = some dag) (hoffer : Chain.offer textChannel t dag.texts = some texts)
      (hkept : Kept s s') (hdags : s'.dags = s.dags.modify token fun dag => { dag with texts := texts })
      (hfinal : t.isFinal = true) (hbacklog : s'.backlog = s.backlog ++ [transcriptEvent session t]) :
      Effect deps s s' [.heard token session .text t]
  | unsaid {token sat session t} (hready : s.opening = none) (hview : s.view session = some (sat, token))
      (hkept : Kept s s')
      (hfull : ∀ dag, s.dags[token]? = some dag → Chain.offer textChannel t dag.texts = none)
      (hdags : s'.dags = s.dags) (hfinal : t.isFinal = true)
      (hbacklog : s'.backlog = s.backlog ++ [transcriptEvent session t]) :
      Effect deps s s' [.heard token session .text t, .untold token .text t]
  | ran {token dag dag' o es} (hdag : s.dags[token]? = some dag) (hran : Ran token dag dag' o es) (hkept : Kept s s')
      (hdags : s'.dags = s.dags.modify token fun _ => dag') (hbacklog : s'.backlog = s.backlog ++ es) :
      Effect deps s s' o
  | bus {e} (hkept : Kept s s') (hdags : s'.dags = s.dags) (hbacklog : s'.backlog = s.backlog ++ [e]) :
      Effect deps s s' [.sent e]
  | lagged {e} (hkept : Kept s s') (hdags : s'.dags = s.dags) (hbacklog : s.backlog = e :: s'.backlog) :
      Effect deps s s' []
  | told {e session leaf payload sat token} (hkept : Kept s s') (hdags : s'.dags = s.dags)
      (hbacklog : s.backlog = e :: s'.backlog) (hkind : Adapter.egressKind e = some (session, leaf, payload))
      (hview : s.view session = some (sat, token)) :
      Effect deps s s' [.told session token e
        (sessionTopic deps.topicRoot sat (deps.uuids.display (sidOf session)) leaf) payload]

namespace Adapter

variable {deps : SatelliteDeps} {s s' : Adapter} {o : List AdapterObs}

theorem view_touch (s : Adapter) (session k : SessionId) : (s.touch session).view k = s.view k := by
  unfold view
  rcases s.managed.manager.touch_cases session s.managed.clock with ⟨-, htouch⟩
    | ⟨state, m', hstate, htouch, hlookup⟩
  · simp only [touch, setManager, htouch]
  · simp only [touch, setManager, htouch, hlookup]
    split
    · rename_i hk
      rw [hk, hstate]
      rfl
    · rfl

theorem kept_touch (s : Adapter) (session : SessionId) : Kept s (s.touch session) :=
  ⟨s.view_touch session, rfl, rfl⟩

theorem openSession_effect {sat : SatelliteId} {session : SessionId} {locale : Text}
    (hready : s.opening = none ∧ s.panicked = false) (h : s.openSession sat session locale = (s', o)) :
    Effect deps s s' o := by
  unfold openSession at h
  rcases s.managed.manager.openSession_cases session sat.text locale s.dags.length s.managed.clock with
    ⟨hthere, hopen⟩ | ⟨hnone, hopen⟩
  · rw [hopen] at h
    cases h
    refine .collided ?_ ⟨fun _ => rfl, rfl, rfl⟩ rfl rfl
    rw [view, Option.isSome_map]
    exact Table.mem_iff_isSome.mp hthere
  · rw [hopen] at h
    cases h
    refine .opened ?_ hready ?_ rfl hready.2 rfl rfl
    · rw [view, hnone]
      rfl
    · intro k
      simp only [view, setManager, Table.lookup_insert_eq]
      split <;> rfl

theorem close_effect {session : SessionId} (reap : Option Reap)
    (h : ({ s with managed := { s.managed with reap := reap } } : Adapter).close session = (s', o)) :
    Effect deps s s' o := by
  unfold close at h
  rcases s.managed.manager.close_cases session with ⟨-, hclose⟩ | ⟨state, m', hstate, hclose, hlookup⟩
  · rw [hclose] at h
    cases h
    exact .quiet ⟨fun _ => rfl, rfl, rfl⟩ rfl rfl
  · rw [hclose] at h
    cases h
    have hview : s.view session = some (state.sat, state.cancel) := by rw [view, hstate]; rfl
    refine .closed hview ?_ rfl rfl rfl rfl
    intro k
    simp only [view, Option.elim_some, cancel, modify, setManager, hlookup]
    split <;> rfl

theorem view_of_touched {session : SessionId} {state : SessionState}
    (h : (s.touch session).managed.manager.map.lookup session = some state) :
    s.view session = some (state.sat, state.cancel) := by
  rw [← view_touch s session session, view, h]
  rfl

theorem audio_effect {frame : AudioFrame} {state : SessionState} (hready : s.opening = none)
    (hstate : (s.touch frame.session).managed.manager.map.lookup frame.session = some state)
    (h : (s.touch frame.session).trySendAudio state.cancel frame = (s', o)) : Effect deps s s' o := by
  have hview := view_of_touched hstate
  unfold trySendAudio at h
  split at h
  · rename_i audio haudio
    obtain ⟨dag, hdag, hoffer⟩ := Option.bind_eq_some_iff.mp haudio
    cases h
    exact .accepted hready hview hdag hoffer ⟨s.view_touch frame.session, rfl, rfl⟩ rfl rfl
  · rename_i hnone
    cases h
    refine .dropped hready hview ?_ (kept_touch s _) rfl rfl
    intro dag hdag
    have hdag' : (s.touch frame.session).dags[state.cancel]? = some dag := hdag
    rw [hdag', Option.bind_some] at hnone
    exact hnone

theorem text_effect {session : SessionId} {text : Text} {state : SessionState} (hready : s.opening = none)
    (hstate : (s.touch session).managed.manager.map.lookup session = some state)
    (h : ((s.touch session).send (.transcriptFinal session text)).trySendText state.cancel
      { text := text, isFinal := true } = (s', o)) :
    Effect deps s s' (.heard state.cancel session .text { text := text, isFinal := true } :: o) := by
  have hview := view_of_touched hstate
  unfold trySendText at h
  split at h
  · rename_i texts htexts
    obtain ⟨dag, hdag, hoffer⟩ := Option.bind_eq_some_iff.mp htexts
    cases h
    exact .said hready hview hdag hoffer ⟨s.view_touch session, rfl, rfl⟩ rfl rfl rfl
  · rename_i hnone
    cases h
    refine .unsaid hready hview ⟨s.view_touch session, rfl, rfl⟩ ?_ rfl rfl rfl
    intro dag hdag
    have hdag' : ((s.touch session).send (.transcriptFinal session text)).dags[state.cancel]? = some dag := hdag
    rw [hdag', Option.bind_some] at hnone
    exact hnone

theorem handlePublish_effect {topic : Text} {payload : List UInt8} (hready : s.opening = none ∧ s.panicked = false)
    (h : s.handlePublish deps topic payload = (s', o)) : Effect deps s s' o := by
  unfold handlePublish at h
  split at h
  · cases h
    exact .quiet ⟨fun _ => rfl, rfl, rfl⟩ rfl rfl
  · exact openSession_effect hready h
  · rename_i sat sid _
    simp only at h
    split at h
    · cases h
      exact .quiet (kept_touch s sid.val) rfl rfl
    · rename_i state hstate
      exact audio_effect hready.1 hstate h
  · rename_i sat sid _
    simp only at h
    split at h
    · cases h
      exact .quiet (kept_touch s sid.val) rfl rfl
    · rename_i state hstate
      split at h
      · cases h
        exact .quiet (kept_touch s sid.val) rfl rfl
      · cases h
        exact text_effect hready.1 hstate rfl
  · exact close_effect s.managed.reap h

theorem wire_effect {opening : Opening} (hopening : s.opening = some opening) (h : s.wire opening = (s', o)) :
    Effect deps s s' o := by
  unfold wire at h
  split at h
  · rename_i hnone
    cases h
    refine .panicked hopening ?_ (fun _ => rfl) rfl rfl rfl rfl
    rw [view, hnone]
    rfl
  · rename_i state hstate
    cases h
    refine .started hopening ?_ (fun _ => rfl) rfl rfl rfl rfl
    rw [view, hstate]
    rfl

theorem ran_effect {token : Nat} {dag dag' : Dag} {es : List Event} (f : Dag → Dag) (hdag : s.dags[token]? = some dag)
    (hf : f dag = dag') (hran : Ran token dag dag' o es)
    (hs : s' = { s with dags := s.dags.modify token f, backlog := s.backlog ++ es }) : Effect deps s s' o := by
  subst hs
  refine .ran hdag hran ⟨fun _ => rfl, rfl, rfl⟩ ?_ rfl
  apply List.ext_getElem?
  intro j
  rw [Slots.getElem?_modify, Slots.getElem?_modify]
  split
  · rename_i hj
    subst hj
    rw [hdag, Option.map_some, Option.map_some, hf]
  · rfl

theorem egress_effect {e : Event} {backlog : List Event} (hbacklog : s.backlog = e :: backlog) :
    Effect deps s { s with backlog := backlog } (s.egress deps e) := by
  unfold egress
  split
  · exact .lagged ⟨fun _ => rfl, rfl, rfl⟩ rfl hbacklog
  · rename_i session leaf payload hkind
    split
    · exact .lagged ⟨fun _ => rfl, rfl, rfl⟩ rfl hbacklog
    · rename_i state hstate
      have hview : s.view session = some (state.sat, state.cancel) := by rw [view, hstate]; rfl
      exact .told ⟨fun _ => rfl, rfl, rfl⟩ rfl hbacklog hkind hview

/-- **Everything a step may do.** -/
theorem step_effect {a : AdapterAction} (h : step deps s a = some (s', o)) : Effect deps s s' o := by
  cases a with
  | publish topic payload =>
    simp only [step] at h
    split at h
    · cases h
    · rename_i hready
      split at h
      · cases h
        exact .quiet ⟨fun _ => rfl, rfl, rfl⟩ rfl rfl
      · simp only [not_or, Bool.not_eq_true, Option.isSome_eq_false_iff, Option.isNone_iff_eq_none] at hready
        exact handlePublish_effect hready.symm (Option.some.inj h)
  | wire =>
    obtain ⟨opening, hopening, heq⟩ := Option.map_eq_some_iff.mp h
    exact wire_effect hopening heq
  | clock now =>
    cases h
    exact .quiet ⟨fun _ => rfl, rfl, rfl⟩ rfl rfl
  | collect order =>
    obtain ⟨⟨managed, o'⟩, hcollect, heq⟩ := Option.map_eq_some_iff.mp h
    cases heq
    have hmanaged : managed.manager = s.managed.manager := by
      simp only [Managed.machine, Managed.step] at hcollect
      split at hcollect
      · cases hcollect
      · cases hcollect
        rfl
    refine .quiet ⟨fun k => ?_, rfl, rfl⟩ rfl rfl
    simp only [view, hmanaged]
  | reapNext =>
    simp only [step] at h
    split at h
    · cases h
    · cases h
      exact .quiet ⟨fun _ => rfl, rfl, rfl⟩ rfl rfl
    · exact close_effect _ (Option.some.inj h)
  | relay token i m =>
    obtain ⟨dag, hdag, hstep⟩ := Option.bind_eq_some_iff.mp h
    split at hstep
    · cases hstep
    · rename_i hstop
      obtain ⟨⟨audio, out⟩, hmove, heq⟩ := Option.map_eq_some_iff.mp hstep
      cases heq
      refine ran_effect (fun dag => { dag with audio := audio }) hdag rfl (.relayed hmove ?_) (by simp [modify])
      intro hm
      simpa [hm] using hstop
  | transcribe token t =>
    obtain ⟨dag, hdag, hstep⟩ := Option.bind_eq_some_iff.mp h
    split at hstep
    · rename_i hready
      cases hstep
      exact ran_effect (fun dag => { dag with stt := some t }) hdag rfl (.transcribed hready.1 hready.2) rfl
    · cases hstep
  | forward token =>
    obtain ⟨dag, hdag, hstep⟩ := Option.bind_eq_some_iff.mp h
    obtain ⟨t, hheld, hstep⟩ := Option.bind_eq_some_iff.mp hstep
    split at hstep
    · obtain ⟨texts, hoffer, heq⟩ := Option.map_eq_some_iff.mp hstep
      cases heq
      exact ran_effect (fun dag => { dag with stt := none, texts := texts }) hdag rfl (.forwarded hheld hoffer)
        (by simp [modify])
    · rename_i hgone
      cases hstep
      exact ran_effect (fun dag => { dag with stt := none, sttLive := false }) hdag rfl (.bereft hheld hgone)
        (by simp [modify])
  | sttStop token =>
    obtain ⟨dag, hdag, hstep⟩ := Option.bind_eq_some_iff.mp h
    split at hstep
    · rename_i hready
      cases hstep
      exact ran_effect (fun dag => { dag with sttLive := false }) hdag rfl (.deaf hready.2) (by simp [modify])
    · cases hstep
  | route token =>
    obtain ⟨dag, hdag, hstep⟩ := Option.bind_eq_some_iff.mp h
    obtain ⟨⟨texts, out⟩, hmove, heq⟩ := Option.map_eq_some_iff.mp hstep
    cases heq
    exact ran_effect (fun dag => { dag with texts := texts }) hdag rfl (.routed hmove) (by simp [modify])
  | routerStop token =>
    obtain ⟨dag, hdag, hstep⟩ := Option.bind_eq_some_iff.mp h
    obtain ⟨⟨texts, out⟩, hmove, heq⟩ := Option.map_eq_some_iff.mp hstep
    cases heq
    exact ran_effect (fun dag => { dag with texts := texts }) hdag rfl (.left hmove) (by simp [modify])
  | bus e =>
    cases h
    exact .bus ⟨fun _ => rfl, rfl, rfl⟩ rfl rfl
  | lag =>
    simp only [step] at h
    split at h
    · cases h
    · rename_i e backlog hbacklog
      cases h
      exact .lagged ⟨fun _ => rfl, rfl, rfl⟩ rfl hbacklog
  | egress =>
    simp only [step] at h
    split at h
    · cases h
    · rename_i e backlog hbacklog
      cases h
      exact egress_effect hbacklog

end Adapter

end AthenaVoice.Satellite
