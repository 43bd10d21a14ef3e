import AthenaVoice.Remote.Stt

/-
  Speech over the broker — the calls of `MqttStt::transcribe`, one of each
  session, with the stage that makes them, and the worker

  A call opens its session and publishes the frames of its stream from a task of
  its own, which ends with the stream. The worker handles the messages of all
  sessions one after another, in the order of their publishes, and instants do
  not go back. Its transcripts come back over the client; the stage puts each on
  the bus, then sends it to the router, and looks at nothing else until the
  router has taken it. A stream that times out has met no response. Another
  worker of the protocol may publish responses of any kind.

  What is proved:
    1. `step_cases` — what a step can do.

  Correspondence (Rust ↔ Lean):
    `MqttStt::transcribe`, up to its stream   `SttAction.start`
    the task that publishes the frames        `SttAction.frame`, `close`
    `serve`'s loop                            `SttAction.handle`
    `transcript_stream`                       `SttAction.poll`
    `spawn_stt`                               `SttStage`, with `poll`, `forward`, `cancel`
-/

namespace AthenaVoice.Remote

open Lib CoreTypes

/-- A request on its way to the worker; `call` is the number of the call that
made it, and no code reads it. -/
structure Request where
  call : Nat
  message : Json

inductive SttStage where
  /-- `ts.next()`. -/
  | listening
  /-- `tx.send(t)`. -/
  | sending (t : Transcript)
  | stopped
  deriving DecidableEq

/-- A call; `closed` once its frames have ended. -/
structure SttCall where
  session : SessionId
  locale : Text
  closed : Bool
  stage : SttStage

/-- Everything in flight; a call's place is its channel's. -/
structure SttLink where
  client : Client
  calls : List SttCall
  /-- To the worker. -/
  requests : List Request
  sessions : SttWorker
  /-- The instant of the worker's last message. -/
  clock : Nat
  /-- To the pump. -/
  responses : List Publish

inductive SttAction where
  | start (session : SessionId) (locale : Text)
  | frame (i : Nat) (pcm : Bytes)
  /-- The frames end. -/
  | close (i : Nat)
  /-- The worker handles its next message, at `now`; a transcript's publish may fail. -/
  | handle (now : Nat) (outcome : Option Text) (ok : Bool)
  /-- Another worker publishes for call `i`. -/
  | respond (i : Nat) (v : Json)
  | pump
  | remove
  /-- Call `i`'s stream is polled; if it has to wait, it may time out. -/
  | poll (i : Nat) (timeout : Bool)
  /-- The router takes a transcript, unless it is gone. -/
  | forward (i : Nat) (ok : Bool)
  | cancel (i : Nat)

inductive SttObs where
  | framed (i : Nat) (pcm : Bytes)
  | closed (i : Nat)
  /-- The worker has handled a message of the session. -/
  | handled (sessionId : Text) (now : Nat)
  | transcribed (sessionId locale : Text) (pcm : Bytes)
  /-- A response of call `i` is published. -/
  | published (i : Nat) (v : Json)
  | event (e : Event)
  | forwarded (i : Nat) (t : Transcript)
  /-- The stream ends, having met no response in time. -/
  | timedOut (i : Nat)

/-- What the parts are configured with. -/
structure SttEnv where
  responseTopic : Text
  ids : Codec SessionId Text
  b64 : Codec Bytes Text

/-- A broker with base64 and UUIDs. -/
def kitchenStt : SttEnv := { responseTopic := "response".toList, ids := uuid, b64 := base64 }

def SttEnv.client (env : SttEnv) : ClientEnv := { responseTopic := env.responseTopic, parse := env.ids.decode }

/-- What the worker does is seen, if it is published. -/
def WorkerObs.observed (i : Nat) (ok : Bool) : WorkerObs → List SttObs
  | .transcribed sessionId locale pcm => [.transcribed sessionId locale pcm]
  | .published v => if ok then [.published i v] else []

def WorkerObs.posted (topic : Text) (i : Nat) (ok : Bool) : WorkerObs → List Publish
  | .transcribed .. => []
  | .published v => if ok then [{ topic := topic, payload := some v, request := i }] else []

theorem observed_cases {i : Nat} {ok : Bool} {os : List WorkerObs} {x : SttObs}
    (hx : x ∈ os.flatMap (WorkerObs.observed i ok)) :
    (∃ sessionId locale pcm, x = .transcribed sessionId locale pcm) ∨ ∃ v, x = .published i v := by
  obtain ⟨y, -, hy⟩ := List.mem_flatMap.mp hx
  cases y with
  | transcribed sessionId locale pcm => exact Or.inl ⟨_, _, _, List.mem_singleton.mp hy⟩
  | published v =>
    cases ok with
    | true => exact Or.inr ⟨v, List.mem_singleton.mp hy⟩
    | false => cases hy

/-- What `spawn_stt` puts on the bus. -/
def transcriptEvent (session : SessionId) (t : Transcript) : Event :=
  if t.isFinal then .transcriptFinal session t.text else .transcriptPartial session t.text

namespace SttLink

def new : SttLink :=
  { client := .new, calls := [], requests := [], sessions := fun _ => none, clock := 0, responses := [] }

def setStage (s : SttLink) (i : Nat) (stage : SttStage) : SttLink :=
  { s with calls := s.calls.modify i (fun c => { c with stage := stage }) }

/-- The stage is over, and the receiver of its stream dropped. -/
def finish (s : SttLink) (i : Nat) : SttLink :=
  { s.setStage i .stopped with client := s.client.setChannel i Channel.close }

/-- A message is published for the worker. -/
def request (s : SttLink) (i : Nat) (v : Json) : SttLink :=
  { s with requests := s.requests ++ [{ call := i, message := v }] }

/-- The worker handles a message. -/
def serve (env : SttEnv) (s : SttLink) (r : Request) (rest : List Request) (now : Nat) (outcome : Option Text)
    (ok : Bool) : SttLink × List SttObs :=
  let result := s.sessions.handleMessage env.b64 now outcome (some r.message)
  ({ s with
    requests := rest
    sessions := result.1
    clock := now
    responses := s.responses ++ result.2.flatMap (WorkerObs.posted env.responseTopic r.call ok) },
    (sessionText r.message).toList.map (fun sessionId => .handled sessionId now) ++
      result.2.flatMap (WorkerObs.observed r.call ok))

/-- A message has come to the stream. -/
def hear (s : SttLink) (i : Nat) (c : SttCall) (payload : Option Json) : SttLink × List SttObs :=
  match parseSttResponse payload with
  | .transcript t => (s.setStage i (.sending t), [.event (transcriptEvent c.session t)])
  | .done => (s.finish i, [])
  | .malformed => (s, [])

/-- `timeout(.., rx.recv())`; what is received is met before the timeout. -/
def pollCall (env : SttEnv) (s : SttLink) (i : Nat) (c : SttCall) (timeout : Bool) : Option (SttLink × List SttObs) :=
  if timeout then
    match s.client.channels[i]? with
    | some { queue := [], .. } => some (s.finish i, [.timedOut i])
    | _ => none
  else
    match s.client.step env.client (.recv i) with
    | some (client, [.received _ p]) => some (({ s with client := client } : SttLink).hear i c p.payload)
    | some (_, [.closed _]) => some (s.finish i, [])
    | _ => none

def step (env : SttEnv) (s : SttLink) : SttAction → Option (SttLink × List SttObs)
  | .start session locale =>
    -- a session has one call
    if s.calls.all (fun c => c.session ≠ session) then
      some ({ s with
        client := s.client.insert session
        calls := s.calls ++ [{ session := session, locale := locale, closed := false, stage := .listening }]
        requests := s.requests ++ [{ call := s.calls.length, message := sttStart (env.ids.encode session) locale }] },
          [])
    else none
  | .frame i pcm =>
    match s.calls[i]? with
    | some { closed := false, session := session, .. } =>
      some (s.request i (frameMessage env.b64 (env.ids.encode session) pcm), [.framed i pcm])
    | _ => none
  | .close i =>
    match s.calls[i]? with
    | some { closed := false, session := session, .. } =>
      some ({ s.request i (sttDone (env.ids.encode session)) with
        calls := s.calls.modify i (fun c => { c with closed := true }) }, [.closed i])
    | _ => none
  | .handle now outcome ok =>
    match s.requests with
    | [] => none
    | r :: rest =>
      -- instants do not go back
      if s.clock ≤ now then some (s.serve env r rest now outcome ok) else none
  | .respond i v =>
    match s.calls[i]? with
    | none => none
    | some c =>
      if sessionText v = some (env.ids.encode c.session) then
        some ({ s with responses := s.responses ++ [{ topic := env.responseTopic, payload := some v, request := i }] },
          [.published i v])
      else none
  | .pump =>
    match s.responses with
    | [] => none
    | p :: rest =>
      (s.client.step env.client (.pump p)).map (fun r => ({ s with client := r.1, responses := rest }, []))
  | .remove => (s.client.step env.client .remove).map (fun r => ({ s with client := r.1 }, []))
  | .poll i timeout =>
    match s.calls[i]? with
    | none => none
    | some c => if c.stage = .listening then s.pollCall env i c timeout else none
  | .forward i ok =>
    match s.calls[i]? with
    | some { stage := .sending t, .. } =>
      -- without a router the stage returns
      if ok then some (s.setStage i .listening, [.forwarded i t]) else some (s.finish i, [])
    | _ => none
  | .cancel i =>
    match s.calls[i]? with
    | some { stage := .listening, .. } => some (s.finish i, [])
    | _ => none

def machine (env : SttEnv) : Machine SttLink SttAction SttObs := ⟨step env⟩

inductive Step (env : SttEnv) (s : SttLink) : SttAction → SttLink → List SttObs → Prop where
  | opened (session : SessionId) (locale : Text) (fresh : ∀ c ∈ s.calls, c.session ≠ session) :
      Step env s (.start session locale)
        { s with
          client := s.client.insert session
          calls := s.calls ++ [{ session := session, locale := locale, closed := false, stage := .listening }]
          requests := s.requests ++ [{ call := s.calls.length, message := sttStart (env.ids.encode session) locale }] }
            []
  | framed (i : Nat) (pcm : Bytes) (c : SttCall) (call : s.calls[i]? = some c) (running : c.closed = false) :
      Step env s (.frame i pcm) (s.request i (frameMessage env.b64 (env.ids.encode c.session) pcm)) [.framed i pcm]
  | ended (i : Nat) (c : SttCall) (call : s.calls[i]? = some c) (running : c.closed = false) :
      Step env s (.close i)
        { s.request i (sttDone (env.ids.encode c.session)) with
          calls := s.calls.modify i (fun c => { c with closed := true }) } [.closed i]
  | handled (r : Request) (rest : List Request) (now : Nat) (outcome : Option Text) (ok : Bool)
      (requests : s.requests = r :: rest) (later : s.clock ≤ now) :
      Step env s (.handle now outcome ok) (s.serve env r rest now outcome ok).1 (s.serve env r rest now outcome ok).2
  | responded (i : Nat) (v : Json) (c : SttCall) (call : s.calls[i]? = some c)
      (names : sessionText v = some (env.ids.encode c.session)) :
      Step env s (.respond i v)
        { s with responses := s.responses ++ [{ topic := env.responseTopic, payload := some v, request := i }] }
        [.published i v]
  | pumped (p : Publish) (rest : List Publish) (client : Client) (o : List ClientObs)
      (responses : s.responses = p :: rest)
      (step : s.client.step env.client (.pump p) = some (client, o)) :
      Step env s .pump { s with client := client, responses := rest } []
  | removed (client : Client) (o : List ClientObs) (step : s.client.step env.client .remove = some (client, o)) :
      Step env s .remove { s with client := client } []
  | timedOut (i : Nat) (c : SttCall) (ch : Channel) (call : s.calls[i]? = some c) (listening : c.stage = .listening)
      (channel : s.client.channels[i]? = some ch) (silent : ch.queue = []) :
      Step env s (.poll i true) (s.finish i) [.timedOut i]
  | heard (i : Nat) (c : SttCall) (p : Publish) (client : Client) (call : s.calls[i]? = some c)
      (listening : c.stage = .listening)
        (received : s.client.step env.client (.recv i) = some (client, [.received i p])) :
      Step env s (.poll i false) (({ s with client := client } : SttLink).hear i c p.payload).1
        (({ s with client := client } : SttLink).hear i c p.payload).2
  | cut (i : Nat) (c : SttCall) (client : Client) (call : s.calls[i]? = some c) (listening : c.stage = .listening)
      (closed : s.client.step env.client (.recv i) = some (client, [.closed i])) :
        Step env s (.poll i false) (s.finish i) []
  | forwarded (i : Nat) (c : SttCall) (t : Transcript) (call : s.calls[i]? = some c) (sending : c.stage = .sending t) :
      Step env s (.forward i true) (s.setStage i .listening) [.forwarded i t]
  | refused (i : Nat) (c : SttCall) (t : Transcript) (call : s.calls[i]? = some c) (sending : c.stage = .sending t) :
      Step env s (.forward i false) (s.finish i) []
  | cancelled (i : Nat) (c : SttCall) (call : s.calls[i]? = some c) (listening : c.stage = .listening) :
      Step env s (.cancel i) (s.finish i) []

theorem poll_cases {env : SttEnv} {s s' : SttLink} {i : Nat} {c : SttCall} {timeout : Bool} {o : List SttObs}
    (hcall : s.calls[i]? = some c) (hlistening : c.stage = .listening)
    (h : s.pollCall env i c timeout = some (s', o)) : Step env s (.poll i timeout) s' o := by
  unfold pollCall at h
  cases timeout with
  | true =>
    simp only [if_true] at h
    split at h
    · rename_i ch hchannel
      cases h
      exact .timedOut i c _ hcall hlistening hchannel rfl
    · cases h
  | false =>
    simp only [Bool.false_eq_true, if_false] at h
    split at h
    · rename_i client j p hrecv
      have hij : j = i := by
        cases Client.step_cases hrecv
        rfl
      subst hij
      have heard := Step.heard j c p client hcall hlistening hrecv
      rw [Option.some.inj h] at heard
      exact heard
    · rename_i client j hrecv
      have hij : j = i := by
        cases Client.step_cases hrecv
        rfl
      subst hij
      cases h
      exact .cut j c client hcall hlistening hrecv
    · cases h

/-- **Inversion.** -/
theorem step_cases {env : SttEnv} {s s' : SttLink} {a : SttAction} {o : List SttObs}
    (h : s.step env a = some (s', o)) : Step env s a s' o := by
  cases a with
  | start session locale =>
    simp only [step] at h
    split at h
    · rename_i hfresh
      cases h
      refine .opened session locale ?_
      intro c hc
      simpa using List.all_eq_true.mp hfresh c hc
    · cases h
  | frame i pcm =>
    simp only [step] at h
    split at h
    · rename_i session locale stage hcall
      cases h
      exact .framed i pcm _ hcall rfl
    · cases h
  | close i =>
    simp only [step] at h
    split at h
    · rename_i session locale stage hcall
      cases h
      exact .ended i _ hcall rfl
    · cases h
  | handle now outcome ok =>
    simp only [step] at h
    split at h
    · cases h
    · rename_i r rest hrequests
      split at h
      · rename_i hlater
        have handled : Step env s (.handle now outcome ok) (s.serve env r rest now outcome ok).1
            (s.serve env r rest now outcome ok).2 := .handled r rest now outcome ok hrequests hlater
        rw [Option.some.inj h] at handled
        exact handled
      · cases h
  | respond i v =>
    simp only [step] at h
    split at h
    · cases h
    · rename_i c hcall
      split at h
      · rename_i hnames
        cases h
        exact .responded i v c hcall hnames
      · cases h
  | pump =>
    simp only [step] at h
    split at h
    · cases h
    · rename_i p rest hresponses
      obtain ⟨⟨client, obs⟩, hc, he⟩ := Option.map_eq_some_iff.mp h
      cases he
      exact .pumped p rest client obs hresponses hc
  | remove =>
    obtain ⟨⟨client, obs⟩, hc, he⟩ := Option.map_eq_some_iff.mp h
    cases he
    exact .removed client obs hc
  | poll i timeout =>
    simp only [step] at h
    split at h
    · cases h
    · rename_i c hcall
      split at h
      · rename_i hlistening
        exact poll_cases hcall hlistening h
      · cases h
  | forward i ok =>
    simp only [step] at h
    split at h
    · rename_i session locale closed t hcall
      cases ok with
      | true =>
        cases h
        exact .forwarded i _ t hcall rfl
      | false =>
        cases h
        exact .refused i _ t hcall rfl
    · cases h
  | cancel i =>
    simp only [step] at h
    split at h
    · rename_i session locale closed hcall
      cases h
      exact .cancelled i _ hcall rfl
    · cases h

end SttLink

/-! ## What names what -/

/-- The sessions of the calls, in their order. -/
def SttLink.names (s : SttLink) : List SessionId := s.calls.map SttCall.session

/-- Calls are of different sessions, and what is in flight names the session of
its call. -/
structure Wired (env : SttEnv) (s : SttLink) : Prop where
  routed : Client.Routed env.client s.client
  channels : s.client.channels.map Channel.session = s.names
  distinct : s.names.Nodup
  requests : ∀ r ∈ s.requests, ∃ session, s.names[r.call]? = some session ∧
    sessionText r.message = some (env.ids.encode session)
  responses : ∀ p ∈ s.responses, ∃ session, s.names[p.request]? = some session ∧
    env.client.routed p = some session
  removing : ∀ sid, s.client.removing = some sid → sid ∈ s.names

namespace Wired

theorem new (env : SttEnv) : Wired env .new where
  routed := Client.routed_new _
  channels := rfl
  distinct := List.nodup_nil
  requests := by intro r hr; cases hr
  responses := by intro p hp; cases hp
  removing := by intro sid hsid; cases hsid

variable {env : SttEnv} {s s' : SttLink} {i : Nat} {c : SttCall}

theorem names_of_call (h : s.calls[i]? = some c) : s.names[i]? = some c.session := by
  rw [SttLink.names, List.getElem?_map, h]
  rfl

theorem channel_of_call (W : Wired env s) (h : s.calls[i]? = some c) :
    ∃ ch, s.client.channels[i]? = some ch ∧ ch.session = c.session := by
  have hi : (s.client.channels.map Channel.session)[i]? = some c.session := by
    rw [W.channels]
    exact names_of_call h
  rw [List.getElem?_map] at hi
  exact Option.map_eq_some_iff.mp hi

theorem eq_of_session (W : Wired env s) {j : Nat} {session : SessionId} (hi : s.names[i]? = some session)
    (hj : s.names[j]? = some session) : i = j := by
  obtain ⟨hi', rfl⟩ := List.getElem?_eq_some_iff.mp hi
  obtain ⟨hj', he⟩ := List.getElem?_eq_some_iff.mp hj
  exact (W.distinct.getElem_inj_iff.mp he).symm

theorem routed_response (env : SttEnv) {v : Json} {session : SessionId} (i : Nat)
    (hv : sessionText v = some (env.ids.encode session)) :
    env.client.routed { topic := env.responseTopic, payload := some v, request := i } = some session := by
  have hextract : extractSession env.client (some v) = (sessionText v).bind env.ids.decode := rfl
  show (if env.responseTopic = env.responseTopic then extractSession env.client (some v) else none) = _
  rw [if_pos rfl, hextract, hv]
  exact env.ids.decode_encode _

theorem update (W : Wired env s) (hnames : s'.names = s.names) (K : s.client.Keeps s'.client)
    (hrouted : Client.Routed env.client s'.client)
    (hrequests : ∀ r ∈ s'.requests, r ∈ s.requests ∨ ∃ session, s.names[r.call]? = some session ∧
      sessionText r.message = some (env.ids.encode session))
    (hresponses : ∀ p ∈ s'.responses, p ∈ s.responses ∨ ∃ session, s.names[p.request]? = some session ∧
      env.client.routed p = some session)
    (hremoving : ∀ sid, s'.client.removing = some sid → s.client.removing = some sid ∨ sid ∈ s.names) :
    Wired env s' := by
  refine ⟨hrouted, K.sessions.trans (W.channels.trans hnames.symm), hnames ▸ W.distinct, ?_, ?_, ?_⟩
  · intro r hr
    rw [hnames]
    exact (hrequests r hr).elim (W.requests r) id
  · intro p hp
    rw [hnames]
    exact (hresponses p hp).elim (W.responses p) id
  · intro sid hsid
    rw [hnames]
    exact (hremoving sid hsid).elim (W.removing sid) id

theorem client {client : Client} {a : ClientAction} {o : List ClientObs} {calls : List SttCall}
    {responses : List Publish} (W : Wired env s) (hs : s.client.step env.client a = some (client, o))
    (hnot : ∀ session, a ≠ .insert session) (hcalls : calls.map SttCall.session = s.names)
    (hresponses : ∀ p ∈ responses, p ∈ s.responses) :
    Wired env { s with client := client, calls := calls, responses := responses } :=
  W.update hcalls (Client.step_keeps hs hnot) (Client.routed_step W.routed hs) (fun _ hr => Or.inl hr)
    (fun p hp => Or.inl (hresponses p hp)) (fun _ hsid => W.channels ▸ Client.removing_step W.routed hs hsid)

theorem names_modify {f : SttCall → SttCall} (hf : ∀ c, (f c).session = c.session) (s : SttLink) (i : Nat) :
    (s.calls.modify i f).map SttCall.session = s.names := Slots.map_modify (fun c _ => hf c)

theorem setStage (W : Wired env s) (stage : SttStage) : Wired env (s.setStage i stage) :=
  W.update (names_modify (f := fun c : SttCall => { c with stage := stage }) (fun _ => rfl) s i) .rfl W.routed
    (fun _ hr => Or.inl hr)
    (fun _ hp => Or.inl hp) (fun _ hsid => Or.inl hsid)

theorem finish (W : Wired env s) : Wired env (s.finish i) :=
  W.update (names_modify (f := fun c : SttCall => { c with stage := .stopped }) (fun _ => rfl) s i)
    (.set (fun _ => rfl))
    (W.routed.set (fun _ => rfl) (fun c _ p hp => (by cases hp))) (fun _ hr => Or.inl hr) (fun _ hp => Or.inl hp)
    (fun _ hsid => Or.inl hsid)

theorem hear {payload : Option Json} (W : Wired env s) : Wired env (s.hear i c payload).1 := by
  unfold SttLink.hear
  split
  · exact W.setStage _
  · exact W.finish
  · exact W

theorem request {v : Json} {calls : List SttCall} (W : Wired env s) (hcall : s.calls[i]? = some c)
    (hv : sessionText v = some (env.ids.encode c.session)) (hcalls : calls.map SttCall.session = s.names) :
    Wired env { s.request i v with calls := calls } := by
  refine W.update hcalls .rfl W.routed ?_ (fun _ hp => Or.inl hp) (fun _ hsid => Or.inl hsid)
  intro r hr
  rcases List.mem_append.mp hr with hold | hnew
  · exact Or.inl hold
  · rw [List.mem_singleton.mp hnew]
    exact Or.inr ⟨c.session, names_of_call hcall, hv⟩

theorem started {session : SessionId} {locale : Text} (W : Wired env s)
    (hfresh : ∀ c ∈ s.calls, c.session ≠ session) :
    Wired env { s with
      client := s.client.insert session
      calls := s.calls ++ [{ session := session, locale := locale, closed := false, stage := .listening }]
      requests := s.requests ++
        [{ call := s.calls.length, message := sttStart (env.ids.encode session) locale }] } := by
  have hnew : ∀ {k : Nat} {sid : SessionId}, s.names[k]? = some sid → (s.names ++ [session])[k]? = some sid :=
    fun h => (List.getElem?_append_left (List.getElem?_eq_some_iff.mp h).1).trans h
  have hnames : ∀ c : SttCall, c.session = session →
    (s.calls ++ [c]).map SttCall.session = s.names ++ [session] := by
    intro c hc
    rw [List.map_append, List.map_singleton, hc]
    rfl
  refine ⟨Client.routed_step (a := .insert session) (o := []) W.routed rfl, ?_, ?_, ?_, ?_, ?_⟩
  · show (s.client.channels ++ [_]).map Channel.session = _
    rw [SttLink.names, hnames _ rfl, List.map_append, W.channels]
    rfl
  · rw [SttLink.names, hnames _ rfl]
    refine List.nodup_append.mpr ⟨W.distinct, List.nodup_singleton _, ?_⟩
    intro sid hsid sid' hsid'
    obtain ⟨c, hc, rfl⟩ := List.mem_map.mp hsid
    rw [List.mem_singleton.mp hsid']
    exact hfresh c hc
  · intro r hr
    rw [SttLink.names, hnames _ rfl]
    rcases List.mem_append.mp hr with hold | hlast
    · obtain ⟨sid, hsid, hmessage⟩ := W.requests r hold
      exact ⟨sid, hnew hsid, hmessage⟩
    · rw [List.mem_singleton.mp hlast]
      refine ⟨session, ?_, rfl⟩
      -- the call that opens it has the next index
      have hlength : s.calls.length = s.names.length := (List.length_map _).symm
      rw [hlength]
      exact List.getElem?_concat_length
  · intro p hp
    rw [SttLink.names, hnames _ rfl]
    obtain ⟨sid, hsid, hrouted⟩ := W.responses p hp
    exact ⟨sid, hnew hsid, hrouted⟩
  · intro sid hsid
    rw [SttLink.names, hnames _ rfl]
    exact List.mem_append_left _ (W.removing sid hsid)

theorem serve {r : Request} {rest : List Request} {now : Nat} {outcome : Option Text} {ok : Bool} (W : Wired env s)
    (hrequests : s.requests = r :: rest) : Wired env (s.serve env r rest now outcome ok).1 := by
  refine W.update rfl .rfl W.routed ?_ ?_ (fun _ hsid => Or.inl hsid)
  · intro q hq
    exact Or.inl (by rw [hrequests]; exact List.mem_cons_of_mem r hq)
  · intro p hp
    rcases List.mem_append.mp hp with hold | hnew
    · exact Or.inl hold
    · refine Or.inr ?_
      obtain ⟨session, hsession, hmessage⟩ := W.requests r (by rw [hrequests]; exact List.mem_cons_self)
      obtain ⟨x, hx, hposted⟩ := List.mem_flatMap.mp hnew
      have hnames := SttWorker.handleMessage_names hmessage x hx
      cases x with
      | transcribed sid locale pcm => cases hposted
      | published v =>
        simp only [WorkerObs.posted] at hposted
        split at hposted
        · rw [List.mem_singleton.mp hposted]
          exact ⟨session, hsession, routed_response env r.call hnames⟩
        · cases hposted

end Wired

/-- **One step.** -/
theorem wired_step {env : SttEnv} {s s' : SttLink} {a : SttAction} {o : List SttObs} (W : Wired env s)
    (hs : s.step env a = some (s', o)) : Wired env s' := by
  cases SttLink.step_cases hs with
  | opened session locale hfresh => exact W.started hfresh
  | framed i pcm c hcall hrunning => exact W.request hcall (sessionText_frameMessage _ _ _) rfl
  | ended i c hcall hrunning =>
    exact W.request hcall rfl
      (Wired.names_modify (f := fun c : SttCall => { c with closed := true }) (fun _ => rfl) s i)
  | handled r rest now outcome ok hrequests hlater => exact W.serve hrequests
  | responded i v c hcall hnames =>
    refine W.update rfl .rfl W.routed (fun _ hr => Or.inl hr) ?_ (fun _ hsid => Or.inl hsid)
    intro p hp
    rcases List.mem_append.mp hp with hold | hnew
    · exact Or.inl hold
    · rw [List.mem_singleton.mp hnew]
      exact Or.inr ⟨c.session, Wired.names_of_call hcall, Wired.routed_response env i hnames⟩
  | pumped p rest client obs hresponses hstep =>
    exact W.client hstep (by simp) rfl (by intro q hq; rw [hresponses]; exact List.mem_cons_of_mem p hq)
  | removed client obs hstep => exact W.client hstep (by simp) rfl (fun _ hp => hp)
  | timedOut i c ch hcall hlistening hchannel hsilent => exact W.finish
  | heard i c p client hcall hlistening hrecv => exact (W.client hrecv (by simp) rfl (fun _ hp => hp)).hear
  | cut i c client hcall hlistening hclosed => exact W.finish
  | forwarded i c t hcall hsending => exact W.setStage _
  | refused i c t hcall hsending => exact W.finish
  | cancelled i c hcall hlistening => exact W.finish

end AthenaVoice.Remote
