import AthenaVoice.Remote.Tts

/-
  Speech over the broker — the calls of `MqttTts::synthesize`, the client they
  share, and the worker that answers them

  A call makes a request, publishes it, and streams what the client routes to
  it. A caller may drop its stream at any time, and make the next call. The
  worker serves every request in a task of its own, so the responses to
  requests under way reach the broker in any order; from there on they are in
  order. A response names the session only, and the client routes it to the
  session's last request.

  What is proved:
    1. `streams_own` — as long as no response is taken in by a later request of
       its session, each stream gives only what the worker made for its request.
    2. `settled_streams_own` — so it is if a request is made only when those of
       its session before it are settled.
    3. `abandoned_speech_heard` — otherwise the speech of an abandoned request
       comes out of the next stream.

  Correspondence (Rust ↔ Lean):
    `MqttTts::synthesize`, up to its publish    `LinkAction.synthesize`
    the publish                                 `LinkAction.publish`
    a task of `serve`'s loop                    `serve`, then `respond`
    a poll of the call or its stream            `LinkAction.poll`
    the stream's drop                           `LinkAction.abandon`
-/

namespace AthenaVoice.Remote

open Lib CoreTypes

inductive Job where
  /-- `call_streaming` has not published it yet. -/
  | unsent (request : Json)
  /-- The worker has not begun with it. -/
  | sent (request : Json)
  /-- `handle_request`, with the messages it has still to publish. -/
  | serving (rest : List Json)
  | over

/-- Everything in flight; a request's place is the same in the client's
channels, the jobs and the streams. -/
structure Link where
  client : Client
  jobs : List Job
  /-- From the worker to the pump. -/
  wire : List Publish
  streams : List TtsStream

inductive LinkAction where
  | synthesize (session : SessionId) (locale text : Text)
  | publish (i : Nat) (ok : Bool)
  /-- The worker synthesizes request `i`; the engine may fail. -/
  | serve (i : Nat) (outcome : Option (List Int16 × UInt32))
  /-- The worker publishes its next message. -/
  | respond (i : Nat) (ok : Bool)
  | pump
  | remove
  /-- Stream `i` is polled, or the call that makes it; a poll that waits may time out. -/
  | poll (i : Nat) (timeout : Bool)
  | abandon (i : Nat)

/-- What the parts are configured with. -/
structure LinkEnv where
  responseTopic : Text
  ids : Codec SessionId Text
  b64 : Codec Bytes Text
  chunkMs : UInt32

def LinkEnv.client (env : LinkEnv) : ClientEnv := { responseTopic := env.responseTopic, parse := env.ids.decode }

/-- Nothing more will be published for the request. -/
def Job.isOver : Job → Bool
  | .over | .serving [] => true
  | .unsent _ | .sent _ | .serving (_ :: _) => false

/-- The request is published, or never will be. -/
def Job.isUnsent : Job → Bool
  | .unsent _ => true
  | .sent _ | .serving _ | .over => false

/-- A call that is dropped before its publish makes no request. -/
def Job.forget : Job → Job
  | .unsent _ => .over
  | job => job

namespace Link

def new : Link := { client := .new, jobs := [], wire := [], streams := [] }

def setJob (s : Link) (i : Nat) (f : Job → Job) : Link := { s with jobs := s.jobs.modify i f }

/-- Stream `i` is over, and its receiver dropped. -/
def hangUp (s : Link) (i : Nat) : Link :=
  { s with
    client := s.client.setChannel i Channel.close
    streams := s.streams.modify i (fun _ => .ended) }

/-- Stream `i` has taken a step; its receiver goes with its end. -/
def advance (s : Link) (i : Nat) (r : TtsStream × List TtsObs) : Link × List (Nat × TtsObs) :=
  (match r.1 with
   | .ended => s.hangUp i
   | stream => { s with streams := s.streams.modify i (fun _ => stream) },
   r.2.map (fun o => (i, o)))

/-- `timeout(.., rx.recv())`, for a stream that waits. -/
def receive (env : LinkEnv) (s : Link) (i : Nat) (timeout : Bool) (stream : TtsStream) :
    Option (Link × List (Nat × TtsObs)) :=
  if timeout then (stream.step env.b64 .silence).map (s.advance i)
  else
    match s.client.step env.client (.recv i) with
    | some (client, [.received _ p]) =>
      (stream.step env.b64 (.message p)).map (({ s with client := client } : Link).advance i)
    | some (_, [.closed _]) => (stream.step env.b64 .silence).map (s.advance i)
    | _ => none

/-- A poll of stream `i`. -/
def pollStream (env : LinkEnv) (s : Link) (i : Nat) (timeout : Bool) :
    TtsStream → Option (Link × List (Nat × TtsObs))
  | .awaiting => s.receive env i timeout .awaiting
  | .streaming => s.receive env i timeout .streaming
  | .replaying p v => ((TtsStream.replaying p v).step env.b64 .poll).map (s.advance i)
  | .finished p => ((TtsStream.finished p).step env.b64 .poll).map (s.advance i)
  | .ended => none

def step (env : LinkEnv) (s : Link) : LinkAction → Option (Link × List (Nat × TtsObs))
  | .synthesize session locale text =>
    some ({ s with
      client := s.client.insert session
      jobs := s.jobs ++ [.unsent (ttsRequest (env.ids.encode session) locale text)]
      streams := s.streams ++ [.awaiting] }, [])
  | .publish i ok =>
    match s.jobs[i]? with
    | some (.unsent request) =>
      if ok then some (s.setJob i (fun _ => .sent request), [])
      -- the call returns its error, and its receiver goes
      else some ((s.setJob i (fun _ => .over)).hangUp i, [])
    | _ => none
  | .serve i outcome =>
    match s.jobs[i]? with
    | some (.sent request) =>
      match handleRequest env.b64 (fun _ _ => outcome) env.chunkMs (some request) with
      | some messages => some (s.setJob i (fun _ => .serving messages), [])
      | none => some (s.setJob i (fun _ => .over), [])
    | _ => none
  | .respond i ok =>
    match s.jobs[i]? with
    | some (.serving (v :: rest)) =>
      if ok then
        some ({ s.setJob i (fun _ => .serving rest) with
          wire := s.wire ++ [{ topic := env.responseTopic, payload := some v, request := i }] }, [])
      else some (s.setJob i (fun _ => .over), [])
    | _ => none
  | .pump =>
    match s.wire with
    | [] => none
    | p :: rest => (s.client.step env.client (.pump p)).map (fun r => ({ s with client := r.1, wire := rest }, []))
  | .remove => (s.client.step env.client .remove).map (fun r => ({ s with client := r.1 }, []))
  | .poll i timeout =>
    match s.jobs[i]?, s.streams[i]? with
    -- the call waits for its publish before it reads
    | some job, some stream => if job.isUnsent then none else s.pollStream env i timeout stream
    | _, _ => none
  | .abandon i =>
    match s.streams[i]? with
    | none | some .ended => none
    -- what the worker does for the request goes on
    | some _ => some ((s.setJob i Job.forget).hangUp i, [])

/-- The parts as a machine; what is observed is what each stream gives. -/
def machine (env : LinkEnv) : Machine Link LinkAction (Nat × TtsObs) := ⟨step env⟩

/-- What stream `i` meets in a poll, and the client after it. -/
inductive Meets (env : LinkEnv) (s : Link) (i : Nat) : TtsInput → Client → Prop where
  | nothing (input : TtsInput) (silent : ∀ p, input ≠ .message p) : Meets env s i input s.client
  | message (p : Publish) (client : Client)
      (received : s.client.step env.client (.recv i) = some (client, [.received i p])) :
      Meets env s i (.message p) client

inductive Step (env : LinkEnv) (s : Link) : LinkAction → Link → List (Nat × TtsObs) → Prop where
  | synthesized (session : SessionId) (locale text : Text) :
      Step env s (.synthesize session locale text)
        { s with
          client := s.client.insert session
          jobs := s.jobs ++ [.unsent (ttsRequest (env.ids.encode session) locale text)]
          streams := s.streams ++ [.awaiting] } []
  | sent (i : Nat) (request : Json) (job : s.jobs[i]? = some (.unsent request)) :
      Step env s (.publish i true) (s.setJob i (fun _ => .sent request)) []
  | refused (i : Nat) (request : Json) (job : s.jobs[i]? = some (.unsent request)) :
      Step env s (.publish i false) ((s.setJob i (fun _ => .over)).hangUp i) []
  | served (i : Nat) (outcome : Option (List Int16 × UInt32)) (request : Json) (messages : List Json)
      (job : s.jobs[i]? = some (.sent request))
      (handled : handleRequest env.b64 (fun _ _ => outcome) env.chunkMs (some request) = some messages) :
      Step env s (.serve i outcome) (s.setJob i (fun _ => .serving messages)) []
  | unserved (i : Nat) (outcome : Option (List Int16 × UInt32)) (request : Json)
      (job : s.jobs[i]? = some (.sent request)) : Step env s (.serve i outcome) (s.setJob i (fun _ => .over)) []
  | responded (i : Nat) (v : Json) (rest : List Json) (job : s.jobs[i]? = some (.serving (v :: rest))) :
      Step env s (.respond i true)
        { s.setJob i (fun _ => .serving rest) with
          wire := s.wire ++ [{ topic := env.responseTopic, payload := some v, request := i }] } []
  | broken (i : Nat) (v : Json) (rest : List Json) (job : s.jobs[i]? = some (.serving (v :: rest))) :
      Step env s (.respond i false) (s.setJob i (fun _ => .over)) []
  | pumped (p : Publish) (rest : List Publish) (client : Client) (o : List ClientObs) (wire : s.wire = p :: rest)
      (step : s.client.step env.client (.pump p) = some (client, o)) :
      Step env s .pump { s with client := client, wire := rest } []
  | removed (client : Client) (o : List ClientObs) (step : s.client.step env.client .remove = some (client, o)) :
      Step env s .remove { s with client := client } []
  | polled (i : Nat) (timeout : Bool) (stream : TtsStream) (input : TtsInput) (client : Client)
      (r : TtsStream × List TtsObs) (current : s.streams[i]? = some stream) (meets : Meets env s i input client)
      (step : stream.step env.b64 input = some r) :
      Step env s (.poll i timeout) (({ s with client := client } : Link).advance i r).1
        (({ s with client := client } : Link).advance i r).2
  | abandoned (i : Nat) : Step env s (.abandon i) ((s.setJob i Job.forget).hangUp i) []

theorem step_of_map {env : LinkEnv} {s s' : Link} {i : Nat} {timeout : Bool} {stream : TtsStream}
    {o : List (Nat × TtsObs)} {input : TtsInput} {client : Client} (hstream : s.streams[i]? = some stream)
    (hmeets : Meets env s i input client)
    (h : (stream.step env.b64 input).map (({ s with client := client } : Link).advance i) = some (s', o)) :
    Step env s (.poll i timeout) s' o := by
  obtain ⟨r, hr, he⟩ := Option.map_eq_some_iff.mp h
  have hpolled := Step.polled i timeout stream input client r hstream hmeets hr
  rw [he] at hpolled
  exact hpolled

theorem poll_cases {env : LinkEnv} {s s' : Link} {i : Nat} {timeout : Bool} {stream : TtsStream}
    {o : List (Nat × TtsObs)} (hstream : s.streams[i]? = some stream)
    (h : s.pollStream env i timeout stream = some (s', o)) : Step env s (.poll i timeout) s' o := by
  have hwaiting : s.receive env i timeout stream = some (s', o) → Step env s (.poll i timeout) s' o := by
    intro hreceive
    unfold receive at hreceive
    split at hreceive
    · exact step_of_map hstream (.nothing .silence (by simp)) hreceive
    · split at hreceive
      · rename_i client j p hrecv
        have hij : j = i := by
          cases Client.step_cases hrecv
          rfl
        subst hij
        exact step_of_map hstream (.message p client hrecv) hreceive
      · exact step_of_map hstream (.nothing .silence (by simp)) hreceive
      · cases hreceive
  cases stream with
  | awaiting => exact hwaiting h
  | streaming => exact hwaiting h
  | replaying p v => exact step_of_map hstream (.nothing .poll (by simp)) h
  | finished p => exact step_of_map hstream (.nothing .poll (by simp)) h
  | ended => cases h

/-- **Inversion.** -/
theorem step_cases {env : LinkEnv} {s s' : Link} {a : LinkAction} {o : List (Nat × TtsObs)}
    (h : s.step env a = some (s', o)) : Step env s a s' o := by
  cases a with
  | synthesize session locale text =>
    cases h
    exact .synthesized session locale text
  | publish i ok =>
    simp only [step] at h
    split at h
    · rename_i request hjob
      cases ok with
      | true =>
        cases h
        exact .sent i request hjob
      | false =>
        cases h
        exact .refused i request hjob
    · cases h
  | serve i outcome =>
    simp only [step] at h
    split at h
    · rename_i request hjob
      split at h
      · rename_i messages hhandled
        cases h
        exact .served i outcome request messages hjob hhandled
      · cases h
        exact .unserved i outcome request hjob
    · cases h
  | respond i ok =>
    simp only [step] at h
    split at h
    · rename_i v rest hjob
      cases ok with
      | true =>
        cases h
        exact .responded i v rest hjob
      | false =>
        cases h
        exact .broken i v rest hjob
    · cases h
  | pump =>
    simp only [step] at h
    split at h
    · cases h
    · rename_i p rest hwire
      obtain ⟨⟨client, obs⟩, hc, he⟩ := Option.map_eq_some_iff.mp h
      cases he
      exact .pumped p rest client obs hwire hc
  | remove =>
    obtain ⟨⟨client, obs⟩, hc, he⟩ := Option.map_eq_some_iff.mp h
    cases he
    exact .removed client obs hc
  | poll i timeout =>
    simp only [step] at h
    split at h
    · rename_i job stream hjob hstream
      split at h
      · cases h
      · exact poll_cases hstream h
    · cases h
  | abandon i =>
    simp only [step] at h
    split at h
    · cases h
    · cases h
    · cases h
      exact .abandoned i

end Link

/-! ## What is routed to a request -/

/-- The request whose receiver takes the response in, if any does. -/
def Client.target (env : ClientEnv) (s : Client) (p : Publish) : Option Nat :=
  match (env.routed p).bind s.routes with
  | none => none
  | some i =>
    match s.channels[i]? with
    | none => none
    | some c => if c.alive && decide (c.queue.length < RESPONSES) then some i else none

/-- The pump receives no response that a later request's receiver takes in. -/
def Link.timely (env : LinkEnv) (s : Link) : LinkAction → Bool
  | .pump =>
    match s.wire with
    | [] => true
    | p :: _ => (s.client.target env.client p).all (fun i => i = p.request)
  | .synthesize .. | .publish .. | .serve .. | .respond .. | .remove | .poll .. | .abandon _ => true

theorem Client.target_sent {env : ClientEnv} {s : Client} {p : Publish} {sid : SessionId} {i : Nat} {c : Channel}
    (hrouted : env.routed p = some sid) (hroute : s.routes sid = some i) (hc : s.channels[i]? = some c)
    (halive : c.alive = true) (hroom : c.queue.length < RESPONSES) : s.target env p = some i := by
  simp [target, hrouted, hroute, hc, halive, hroom]

theorem Client.route_of_target {env : ClientEnv} {s : Client} {p : Publish} {k : Nat}
    (h : s.target env p = some k) : (env.routed p).bind s.routes = some k := by
  unfold target at h
  split at h
  · cases h
  · rename_i i hroute
    split at h
    · cases h
    · split at h
      · cases h
        exact hroute
      · cases h

/-- What a stream keeps is an answer to request `i`. -/
def TtsStream.Holds (i : Nat) : TtsStream → Prop
  | .replaying p _ | .finished p => p.request = i
  | .awaiting | .streaming | .ended => True

/-- What a stream gives has an answer to request `i` as its source, if any. -/
def TtsObs.Of (i : Nat) : TtsObs → Prop
  | .declared _ _ source => ∀ r, source = some r → r = i
  | .chunk _ r => r = i
  | .ended source => ∀ r, source = some r → r = i

/-- What each stream has given is of its own request. -/
def Attributed (h : List (Nat × TtsObs)) : Prop := ∀ x ∈ h, x.2.Of x.1

@[simp] theorem TtsObs.of_declared {i r : Nat} {format : AudioFormat} {rate : Nat} :
    (TtsObs.declared format rate (some r)).Of i ↔ r = i := by
  simp [TtsObs.Of]

@[simp] theorem TtsObs.of_declared_none {i : Nat} {format : AudioFormat} {rate : Nat} :
    (TtsObs.declared format rate none).Of i := by
  simp [TtsObs.Of]

@[simp] theorem TtsObs.of_chunk {i r : Nat} {bytes : Bytes} : (TtsObs.chunk bytes r).Of i ↔ r = i := Iff.rfl

@[simp] theorem TtsObs.of_ended {i r : Nat} : (TtsObs.ended (some r)).Of i ↔ r = i := by
  simp [TtsObs.Of]

@[simp] theorem TtsObs.of_ended_none {i : Nat} : (TtsObs.ended none).Of i := by
  simp [TtsObs.Of]

theorem TtsStream.consume_holds {b64 : Codec Bytes Text} {p : Publish} {v : Json} {i : Nat} (hp : p.request = i) :
    (consume b64 p v).1.Holds i ∧ ∀ x ∈ (consume b64 p v).2, x.Of i := by
  unfold consume
  split
  · refine ⟨?_, by simp [hp]⟩
    by_cases hdone : doneOf v = true
    · rw [if_pos hdone]
      exact hp
    · rw [if_neg hdone]
      trivial
  · split
    · exact ⟨trivial, by simp [hp]⟩
    · exact ⟨trivial, by simp⟩

theorem TtsStream.step_holds {b64 : Codec Bytes Text} {s s' : TtsStream} {input : TtsInput} {o : List TtsObs}
    {i : Nat} (hs : s.Holds i) (hinput : ∀ p, input = .message p → p.request = i)
    (h : s.step b64 input = some (s', o)) : s'.Holds i ∧ ∀ x ∈ o, x.Of i := by
  cases s with
  | awaiting =>
    cases input with
    | message p =>
      have hp := hinput p rfl
      simp only [step] at h
      split at h
      · cases h
        exact ⟨trivial, by simp⟩
      · cases h
        exact ⟨hp, by simp [hp]⟩
    | silence =>
      cases h
      exact ⟨trivial, by simp⟩
    | poll => cases h
  -- the first message was read to declare the format, and is consumed at the next poll
  | replaying p v =>
    cases input with
    | poll =>
      have hboth : (consume b64 p v).1.Holds i ∧ ∀ x ∈ (consume b64 p v).2, x.Of i := consume_holds hs
      rw [Option.some.inj h] at hboth
      exact hboth
    | message q => cases h
    | silence => cases h
  | streaming =>
    cases input with
    | message p =>
      simp only [step] at h
      split at h
      · cases h
        exact ⟨trivial, by simp⟩
      · rename_i v hv
        have hboth : (consume b64 p v).1.Holds i ∧ ∀ x ∈ (consume b64 p v).2, x.Of i :=
          consume_holds (hinput p rfl)
        rw [Option.some.inj h] at hboth
        exact hboth
    | silence =>
      cases h
      exact ⟨trivial, by simp⟩
    | poll => cases h
  | finished p =>
    have hp : p.request = i := hs
    cases input with
    | poll =>
      cases h
      exact ⟨trivial, by simp [hp]⟩
    | message q => cases h
    | silence => cases h
  | ended => cases input <;> cases h

/-- What is on its way to a request's stream is the request's. -/
structure Own (s : Link) : Prop where
  queued : ∀ (i : Nat) (c : Channel), s.client.channels[i]? = some c → ∀ p ∈ c.queue, p.request = i
  held : ∀ (i : Nat) (stream : TtsStream), s.streams[i]? = some stream → stream.Holds i

namespace Own

theorem new : Own .new where
  queued := by intro i c h; cases h
  held := by intro i stream h; cases h

variable {s : Link} {i : Nat}

theorem setChannel {f : Channel → Channel} (I : Own s)
    (hf : ∀ c, s.client.channels[i]? = some c → ∀ p ∈ (f c).queue, p.request = i) :
    Own { s with client := s.client.setChannel i f } := by
  refine ⟨?_, I.held⟩
  intro j c hc p hp
  rcases Slots.modify_cases hc with ⟨-, hold⟩ | ⟨rfl, c₀, hc₀, rfl⟩
  · exact I.queued j c hold p hp
  · exact hf c₀ hc₀ p hp

theorem setStream {stream : TtsStream} (I : Own s) (hstream : stream.Holds i) :
    Own { s with streams := s.streams.modify i (fun _ => stream) } := by
  refine ⟨I.queued, ?_⟩
  intro j stream' hj
  rcases Slots.modify_cases hj with ⟨-, hold⟩ | ⟨rfl, -, -, rfl⟩
  · exact I.held j stream' hold
  · exact hstream

theorem hangUp (I : Own s) : Own (s.hangUp i) :=
  (I.setChannel (f := Channel.close) (fun _ _ p hp => (by cases hp))).setStream trivial

theorem advance {r : TtsStream × List TtsObs} (I : Own s) (hr : r.1.Holds i) : Own (s.advance i r).1 := by
  unfold Link.advance
  split
  · exact I.hangUp
  · exact I.setStream hr

theorem client {env : ClientEnv} {client : Client} {a : ClientAction} {o : List ClientObs} (I : Own s)
    (hs : s.client.step env a = some (client, o)) (hnot : ∀ session, a ≠ .insert session)
    (hpump : ∀ p, a = .pump p → ∀ k, s.client.target env p = some k → k = p.request) :
    Own { s with client := client } := by
  cases Client.step_cases hs with
  | inserted session => exact absurd rfl (hnot session)
  | ignored q hfree hnobody => exact I
  | stale q sid k c hfree hrouted hroute hc hdead => exact ⟨I.queued, I.held⟩
  | sent q sid k c hfree hrouted hroute hc halive hroom =>
    refine I.setChannel (f := Channel.push q) ?_
    intro c₀ hc₀ p hp
    rcases List.mem_append.mp hp with hold | hnew
    · exact I.queued k c₀ hc₀ p hold
    · -- the response is taken in by the request it answers
      rw [List.mem_singleton.mp hnew]
      exact (hpump q rfl k (Client.target_sent hrouted hroute hc halive hroom)).symm
  | full q sid k c hfree hrouted hroute hc halive hfull => exact I
  | removed sid hremoving => exact ⟨I.queued, I.held⟩
  | received k c q rest hc halive hqueue =>
    exact I.setChannel (fun c₀ hc₀ p hp => I.queued k c₀ hc₀ p (List.mem_of_mem_tail hp))
  | closed k c hc halive hqueue hcut => exact I
  | dropped k c hc halive => exact I.setChannel (fun c₀ hc₀ p hp => (by cases hp))

theorem synthesized {session : SessionId} {jobs : List Job} (I : Own s) :
    Own { s with client := s.client.insert session, jobs := jobs, streams := s.streams ++ [.awaiting] } := by
  refine ⟨?_, ?_⟩
  · intro j c hc p hp
    rcases Client.channel_insert hc with hold | ⟨-, rfl⟩
    · exact I.queued j c hold p hp
    · cases hp
  · intro j stream hj
    have hj' : (s.streams ++ [.awaiting])[j]? = some stream := hj
    rw [List.getElem?_append] at hj'
    split at hj'
    · exact I.held j stream hj'
    · rw [List.mem_singleton.mp (List.mem_of_getElem? hj')]
      trivial

end Own

/-- **One step**, if it is timely. -/
theorem own_step {env : LinkEnv} {s s' : Link} {a : LinkAction} {o : List (Nat × TtsObs)} (I : Own s)
    (hok : s.timely env a = true) (hs : s.step env a = some (s', o)) : Own s' ∧ Attributed o := by
  have hquiet : Attributed [] := by intro x hx; cases hx
  have hjobs : ∀ i f, Own (s.setJob i f) := fun _ _ => ⟨I.queued, I.held⟩
  cases Link.step_cases hs with
  | synthesized session locale text => exact ⟨I.synthesized, hquiet⟩
  | sent i request hjob => exact ⟨hjobs i _, hquiet⟩
  | refused i request hjob => exact ⟨(hjobs i _).hangUp, hquiet⟩
  | served i outcome request messages hjob hhandled => exact ⟨hjobs i _, hquiet⟩
  | unserved i outcome request hjob => exact ⟨hjobs i _, hquiet⟩
  | responded i v rest hjob => exact ⟨⟨I.queued, I.held⟩, hquiet⟩
  | broken i v rest hjob => exact ⟨hjobs i _, hquiet⟩
  | pumped p rest client obs hwire hstep =>
    have hclient := I.client hstep (by simp) ?_
    · exact ⟨⟨hclient.queued, hclient.held⟩, hquiet⟩
    · intro q hq k htarget
      cases hq
      simp only [Link.timely, hwire, htarget] at hok
      simpa using hok
  | removed client obs hstep => exact ⟨I.client hstep (by simp) (by simp), hquiet⟩
  | polled i timeout stream input client r hstream hmeets hstep =>
    have hclient : Own { s with client := client } ∧ ∀ p, input = .message p → p.request = i := by
      cases hmeets with
      -- a timeout and a replay receive nothing
      | nothing _ hsilent => exact ⟨I, fun p hp => absurd hp (hsilent p)⟩
      | message p _ hrecv =>
        refine ⟨I.client hrecv (by simp) (by simp), ?_⟩
        intro q hq
        cases hq
        cases Client.step_cases hrecv with
        | received _ c _ rest hc halive hqueue => exact I.queued i c hc p (by rw [hqueue]; exact List.mem_cons_self)
    obtain ⟨hholds, hobs⟩ := TtsStream.step_holds (I.held i stream hstream) hclient.2 hstep
    refine ⟨hclient.1.advance hholds, ?_⟩
    intro x hx
    obtain ⟨y, hy, rfl⟩ := List.mem_map.mp hx
    exact hobs y hy
  | abandoned i => exact ⟨(hjobs i _).hangUp, hquiet⟩

/-- **No cross-talk.** In every run in which no response is received while a
later request of its session would take it in, whatever streams are abandoned,
the format a stream's call returns, its chunks and its done marker are the
worker's answers to its own request. -/
theorem streams_own (env : LinkEnv) (as : List LinkAction)
    (hok : (Link.machine env).Along (fun _ s a => s.timely env a = true) [] .new as) :
    (Link.machine env).Throughout (fun h _ => Attributed h) [] .new as := by
  refine Machine.throughout_of_along (P := fun h s => Own s ∧ Attributed h) ?_ (fun _ _ h => h.2) as [] .new
    ⟨Own.new, by intro x hx; cases hx⟩ hok
  intro h s a s' o hP hok hs
  obtain ⟨hown, hobs⟩ := own_step hP.1 hok hs
  exact ⟨hown, List.forall_mem_append.mpr ⟨hP.2, hobs⟩⟩

/-- A worker that cuts at two samples, at 1 kHz. -/
def kitchenLink : LinkEnv := { responseTopic := "response".toList, ids := uuid, b64 := base64, chunkMs := 2 }

/-- A call of session 7, whose request reaches the worker and is answered with three samples. -/
def asks (i : Nat) : List LinkAction :=
  [.synthesize 7 "fr".toList "bonjour".toList, .publish i true, .serve i (some ([1, 2, 3], 1000))]

/-- The first call is answered and dropped with its stream half read; the second
is made once the first's responses are all pumped. -/
def settledFirst : List LinkAction :=
  asks 0 ++ [.respond 0 true, .pump, .poll 0 false, .poll 0 false, .abandon 0, .respond 0 true, .respond 0 true,
    .pump, .remove, .pump] ++ asks 1 ++ [.respond 1 true, .pump, .poll 1 false, .poll 1 false]

/-- Its speech is its own. -/
theorem settledFirst_own :
    (Link.machine kitchenLink).Along (fun _ s a => s.timely kitchenLink a = true) [] .new settledFirst ∧
    (∃ s h, (Link.machine kitchenLink).run .new settledFirst = some (s, h) ∧ h =
      [(0, .declared .s16le 1000 (some 0)), (0, .chunk [1, 0, 2, 0] 0),
       (1, .declared .s16le 1000 (some 1)), (1, .chunk [1, 0, 2, 0] 1)]) ∧
    (Link.machine kitchenLink).Throughout (fun h _ => Attributed h) [] .new settledFirst := by
  have hok : (Link.machine kitchenLink).Along (fun _ s a => s.timely kitchenLink a = true) [] .new settledFirst := by
    decide
  exact ⟨hok, ⟨_, _, rfl, by decide⟩, streams_own kitchenLink settledFirst hok⟩

/-- The first call is dropped after its first chunk, and the second made at once. -/
def abandonedSpeech : List LinkAction :=
  asks 0 ++ [.respond 0 true, .pump, .poll 0 false, .poll 0 false, .abandon 0] ++ asks 1 ++
    [.respond 0 true, .pump, .poll 1 false, .poll 1 false]

/-- What comes out of the second stream is the rest of the first one's speech. -/
theorem abandoned_speech_heard : ∃ s h,
    (Link.machine kitchenLink).run .new abandonedSpeech = some (s, h) ∧ (1, .chunk [3, 0] 0) ∈ h ∧
      ¬ Attributed h := by
  have hmem : (1, .chunk [3, 0] 0) ∈ [((0 : Nat), TtsObs.declared .s16le 1000 (some 0)), (0, .chunk [1, 0, 2, 0] 0),
      (1, .declared .s16le 22050 (some 0)), (1, .chunk [3, 0] 0)] := by decide
  refine ⟨_, _, rfl, hmem, ?_⟩
  intro hall
  have heq : (0 : Nat) = 1 := hall _ hmem
  cases heq

/-! ## Settled requests -/

namespace Link

/-- Responses to request `i` may still come. -/
def outstanding (s : Link) (i : Nat) : Prop :=
  (∃ job, s.jobs[i]? = some job ∧ job.isOver = false) ∨ ∃ p ∈ s.wire, p.request = i

/-- Of every request of the session the worker has published all it will, and
the pump has received all of it. -/
def settled (s : Link) (session : SessionId) : Bool :=
  (s.jobs.zip s.client.channels).all (fun x => if x.2.session = session then x.1.isOver else true) &&
    s.wire.all (fun p => s.client.channels[p.request]?.all (fun c => c.session ≠ session))

/-- A request is made only once those of its session before it are settled. -/
def orderly (s : Link) : LinkAction → Bool
  | .synthesize session _ _ => s.settled session
  | .publish .. | .serve .. | .respond .. | .pump | .remove | .poll .. | .abandon _ => true

theorem settled_spec {s : Link} {session : SessionId} (h : s.settled session = true) {i : Nat} {c : Channel}
    (hout : s.outstanding i) (hc : s.client.channels[i]? = some c) : c.session ≠ session := by
  simp only [settled, Bool.and_eq_true] at h
  intro heq
  rcases hout with ⟨job, hjob, hover⟩ | ⟨p, hp, rfl⟩
  · have hzip : (s.jobs.zip s.client.channels)[i]? = some (job, c) := by
      rw [List.getElem?_zip_eq_some]
      exact ⟨hjob, hc⟩
    have hall := List.all_eq_true.mp h.1 (job, c) (List.mem_of_getElem? hzip)
    simp only [heq, if_true, hover] at hall
    cases hall
  · have hall := List.all_eq_true.mp h.2 p hp
    simp [hc, heq] at hall

end Link

/-- A job's request, and its messages, name the session. -/
def Job.Names (t : Text) : Job → Prop
  | .unsent request | .sent request => sessionText request = some t
  | .serving rest => ∀ v ∈ rest, sessionText v = some t
  | .over => True

theorem speak_session (b64 : Codec Bytes Text) (sessionId : Text) : ∀ (cs : List (List Int16))
    (declares : List (Text × Json)), ∀ v ∈ speak b64 sessionId declares cs, sessionText v = some sessionId := by
  intro cs
  induction cs with
  | nil =>
    intro declares v hv
    rw [List.mem_singleton.mp hv]
    rfl
  | cons c cs ih =>
    intro declares v hv
    rcases List.mem_cons.mp hv with heq | hrest
    · rw [heq]
      rfl
    · exact ih [] v hrest

theorem handleRequest_session {b64 : Codec Bytes Text} {synthesize : Text → Text → Option (List Int16 × UInt32)}
    {chunkMs : UInt32} {request : Json} {messages : List Json} {t : Text}
    (h : handleRequest b64 synthesize chunkMs (some request) = some messages) (ht : sessionText request = some t) :
    ∀ v ∈ messages, sessionText v = some t := by
  have ht' : (request.get "session_id".toList).bind Json.asStr = some t := ht
  simp only [handleRequest, ht'] at h
  split at h
  · cases h
  · cases h
    exact speak_session b64 t _ _

/-- A request that is not settled has its session's route. -/
structure Latest (env : LinkEnv) (s : Link) : Prop where
  routed : Client.Routed env.client s.client
  lengths : s.jobs.length = s.client.channels.length
  named : ∀ (i : Nat) (job : Job), s.jobs[i]? = some job →
    ∃ c, s.client.channels[i]? = some c ∧ job.Names (env.ids.encode c.session)
  wired : ∀ p ∈ s.wire, ∃ c, s.client.channels[p.request]? = some c ∧ env.client.routed p = some c.session
  latest : ∀ (i : Nat) (c : Channel) (k : Nat), s.outstanding i → s.client.channels[i]? = some c →
    s.client.routes c.session = some k → k = i

namespace Latest

theorem new (env : LinkEnv) : Latest env .new where
  routed := Client.routed_new _
  lengths := rfl
  named := by intro i job h; cases h
  wired := by intro p hp; cases hp
  latest := by intro i c k _ h; cases h

theorem update {env : LinkEnv} {s s' : Link} (I : Latest env s) (K : s.client.Keeps s'.client)
    (hrouted : Client.Routed env.client s'.client) (hlength : s'.jobs.length = s.jobs.length)
    (hjobs : ∀ (i : Nat) (job' : Job), s'.jobs[i]? = some job' → ∃ job, s.jobs[i]? = some job ∧
      (∀ t, job.Names t → job'.Names t) ∧ (job'.isOver = false → job.isOver = false))
    (hwire : ∀ p ∈ s'.wire, p ∈ s.wire ∨ s.outstanding p.request ∧
      ∃ c, s.client.channels[p.request]? = some c ∧ env.client.routed p = some c.session) : Latest env s' := by
  -- channels keep their sessions, so names go both ways between the two states
  have hback : ∀ (i : Nat) (c' : Channel), s'.client.channels[i]? = some c' →
      ∃ c, s.client.channels[i]? = some c ∧ c.session = c'.session :=
    fun i c' hc' => Slots.exists_of_map_eq K.sessions.symm hc'
  have hgo : ∀ (i : Nat) (c : Channel), s.client.channels[i]? = some c →
      ∃ c', s'.client.channels[i]? = some c' ∧ c'.session = c.session :=
    fun i c hc => Slots.exists_of_map_eq K.sessions hc
  refine ⟨hrouted, ?_, ?_, ?_, ?_⟩
  · have hchannels := congrArg List.length K.sessions
    rw [List.length_map, List.length_map] at hchannels
    rw [hlength, hchannels, I.lengths]
  · intro i job' hjob'
    obtain ⟨job, hjob, hnames, -⟩ := hjobs i job' hjob'
    obtain ⟨c, hc, hnamed⟩ := I.named i job hjob
    obtain ⟨c', hc', hsession⟩ := hgo i c hc
    exact ⟨c', hc', hsession ▸ hnames _ hnamed⟩
  · intro p hp
    have hold : ∃ c, s.client.channels[p.request]? = some c ∧ env.client.routed p = some c.session := by
      rcases hwire p hp with hold | ⟨-, hnew⟩
      · exact I.wired p hold
      · exact hnew
    obtain ⟨c, hc, hr⟩ := hold
    obtain ⟨c', hc', hsession⟩ := hgo _ c hc
    exact ⟨c', hc', by rw [hr, hsession]⟩
  · intro i c' k hout hc' hroute
    obtain ⟨c, hc, hsession⟩ := hback i c' hc'
    refine I.latest i c k ?_ hc (hsession ▸ K.routes _ _ hroute)
    rcases hout with ⟨job', hjob', hover⟩ | ⟨p, hp, rfl⟩
    · obtain ⟨job, hjob, -, hstill⟩ := hjobs i job' hjob'
      exact Or.inl ⟨job, hjob, hstill hover⟩
    · rcases hwire p hp with hold | ⟨hold, -⟩
      · exact Or.inr ⟨p, hold, rfl⟩
      · exact hold

variable {env : LinkEnv} {s : Link} {i : Nat}

theorem setJob {f : Job → Job} (I : Latest env s)
    (hf : ∀ job, s.jobs[i]? = some job → (∀ t, job.Names t → (f job).Names t) ∧
      ((f job).isOver = false → job.isOver = false)) : Latest env (s.setJob i f) := by
  refine I.update .rfl I.routed (List.length_modify _ _ _) ?_ (fun p hp => Or.inl hp)
  intro j job' hjob'
  rcases Slots.modify_cases hjob' with ⟨-, hold⟩ | ⟨rfl, job, hjob, rfl⟩
  · exact ⟨job', hold, fun _ h => h, fun h => h⟩
  · exact ⟨job, hjob, (hf job hjob).1, (hf job hjob).2⟩

theorem client {client : Client} {streams : List TtsStream} {wire : List Publish} (I : Latest env s)
    (K : s.client.Keeps client) (hrouted : Client.Routed env.client client) (hwire : ∀ p ∈ wire, p ∈ s.wire) :
    Latest env { s with client := client, streams := streams, wire := wire } :=
  I.update K hrouted rfl (fun _ job hjob => ⟨job, hjob, fun _ h => h, fun h => h⟩) (fun p hp => Or.inl (hwire p hp))

theorem hangUp (I : Latest env s) : Latest env (s.hangUp i) :=
  I.client (.set (fun _ => rfl)) (I.routed.set (fun _ => rfl) (fun c _ p hp => (by cases hp))) (fun _ hp => hp)

theorem advance {r : TtsStream × List TtsObs} (I : Latest env s) : Latest env (s.advance i r).1 := by
  unfold Link.advance
  split
  · exact I.hangUp
  · exact I.client .rfl I.routed (fun _ hp => hp)

theorem synthesized {session : SessionId} {request : Json} {streams : List TtsStream} (I : Latest env s)
    (hnames : sessionText request = some (env.ids.encode session)) (hok : s.settled session = true) :
    Latest env { s with
      client := s.client.insert session, jobs := s.jobs ++ [.unsent request], streams := streams } := by
  refine ⟨?_, ?_, ?_, ?_, ?_⟩
  · exact Client.routed_step (a := .insert session) (o := []) I.routed rfl
  · simp [Client.insert, I.lengths]
  · intro i job hjob
    rcases Nat.lt_trichotomy i s.jobs.length with hlt | heq | hgt
    · rw [List.getElem?_append_left hlt] at hjob
      obtain ⟨c, hc, hnamed⟩ := I.named i job hjob
      exact ⟨c, Client.channel_insert_of_some hc, hnamed⟩
    · subst heq
      rw [List.getElem?_concat_length] at hjob
      cases hjob
      refine ⟨{ session := session, queue := [], alive := true }, ?_, hnames⟩
      rw [I.lengths]
      exact List.getElem?_concat_length
    · rw [List.getElem?_eq_none (by simp; omega)] at hjob
      cases hjob
  · intro p hp
    obtain ⟨c, hc, hr⟩ := I.wired p hp
    exact ⟨c, Client.channel_insert_of_some hc, hr⟩
  · intro i c k hout hc hroute
    rw [Client.route_insert] at hroute
    rcases Client.channel_insert hc with hold | ⟨hi, rfl⟩
    · -- an earlier request that is not settled is of another session
      have hout' : s.outstanding i := by
        rcases hout with ⟨job, hjob, hover⟩ | hwire
        · have hi := (List.getElem?_eq_some_iff.mp hold).1
          rw [← I.lengths] at hi
          rw [List.getElem?_append_left hi] at hjob
          exact Or.inl ⟨job, hjob, hover⟩
        · exact Or.inr hwire
      rw [if_neg (Link.settled_spec hok hout' hold)] at hroute
      exact I.latest i c k hout' hold hroute
    · -- the new request takes the route over
      rw [if_pos rfl] at hroute
      rw [hi]
      exact (Option.some.inj hroute).symm

theorem responded {v : Json} {rest : List Json} (I : Latest env s) (hjob : s.jobs[i]? = some (.serving (v :: rest))) :
    Latest env { s.setJob i (fun _ => .serving rest) with
      wire := s.wire ++ [{ topic := env.responseTopic, payload := some v, request := i }] } := by
  obtain ⟨c, hc, hnames⟩ := I.named i _ hjob
  have hv : sessionText v = some (env.ids.encode c.session) := hnames v List.mem_cons_self
  have hrouted : env.client.routed { topic := env.responseTopic, payload := some v, request := i } =
      some c.session := by
    have hextract : extractSession env.client (some v) = (sessionText v).bind env.ids.decode := rfl
    show (if env.responseTopic = env.responseTopic then extractSession env.client (some v) else none) = _
    rw [if_pos rfl, hextract, hv]
    exact env.ids.decode_encode _
  refine I.update .rfl I.routed (List.length_modify _ _ _) ?_ ?_
  · intro j job' hjob'
    rcases Slots.modify_cases hjob' with ⟨-, hold⟩ | ⟨rfl, job, hj, rfl⟩
    · exact ⟨job', hold, fun _ h => h, fun h => h⟩
    · rw [hjob] at hj
      cases hj
      exact ⟨_, hjob, fun t ht w hw => ht w (List.mem_cons_of_mem v hw), fun _ => rfl⟩
  · intro p hp
    rcases List.mem_append.mp hp with hold | hnew
    · exact Or.inl hold
    · rw [List.mem_singleton.mp hnew]
      exact Or.inr ⟨Or.inl ⟨_, hjob, rfl⟩, c, hc, hrouted⟩

theorem timely (I : Latest env s) (a : LinkAction) : s.timely env a = true := by
  cases a with
  | pump =>
    simp only [Link.timely]
    split
    · rfl
    · rename_i p rest hwire
      have hp : p ∈ s.wire := by rw [hwire]; exact List.mem_cons_self
      obtain ⟨c, hc, hrouted⟩ := I.wired p hp
      cases htarget : s.client.target env.client p with
      | none => rfl
      | some k =>
        have hroute : s.client.routes c.session = some k := by
          rw [← Client.route_of_target htarget, hrouted]
          rfl
        have hk := I.latest p.request c k (Or.inr ⟨p, hp, rfl⟩) hc hroute
        simpa using hk
  | _ => rfl

end Latest

/-- **One step**, its request orderly. -/
theorem latest_step {env : LinkEnv} {s s' : Link} {a : LinkAction} {o : List (Nat × TtsObs)} (I : Latest env s)
    (hok : s.orderly a = true) (hs : s.step env a = some (s', o)) : Latest env s' := by
  have hover : ∀ i, Latest env (s.setJob i (fun _ => .over)) :=
    fun _ => I.setJob (fun _ _ => ⟨fun _ _ => trivial, by simp [Job.isOver]⟩)
  have hclient : ∀ {client a o}, s.client.step env.client a = some (client, o) →
    (∀ session, a ≠ .insert session) →
      ∀ {wire}, (∀ p ∈ wire, p ∈ s.wire) → Latest env { s with client := client, wire := wire } :=
    fun hs hnot _ hwire => I.client (Client.step_keeps hs hnot) (Client.routed_step I.routed hs) hwire
  cases Link.step_cases hs with
  | synthesized session locale text => exact I.synthesized rfl hok
  | sent i request hjob =>
    refine I.setJob ?_
    intro job hj
    rw [hjob] at hj
    cases hj
    exact ⟨fun _ h => h, fun _ => rfl⟩
  | refused i request hjob => exact (hover i).hangUp
  | served i outcome request messages hjob hhandled =>
    refine I.setJob ?_
    intro job hj
    rw [hjob] at hj
    cases hj
    exact ⟨fun t ht => handleRequest_session hhandled ht, fun _ => rfl⟩
  | unserved i outcome request hjob => exact hover i
  | responded i v rest hjob => exact I.responded hjob
  | broken i v rest hjob => exact hover i
  | pumped p rest client obs hwire hstep =>
    exact hclient hstep (by simp) (by intro q hq; rw [hwire]; exact List.mem_cons_of_mem p hq)
  | removed client obs hstep => exact hclient hstep (by simp) (fun _ hp => hp)
  | polled i timeout stream input client r hstream hmeets hstep =>
    have hmet : Latest env { s with client := client } := by
      cases hmeets with
      | nothing _ hsilent => exact I
      | message p _ hrecv => exact hclient hrecv (by simp) (fun _ hp => hp)
    exact hmet.advance
  | abandoned i =>
    refine (I.setJob ?_).hangUp
    intro job hj
    cases job with
    | unsent request => exact ⟨fun _ _ => trivial, by simp [Job.forget, Job.isOver]⟩
    | _ => exact ⟨fun _ h => h, fun h => h⟩

/-- A caller that waits for its session's requests to settle hears only its own. -/
theorem settled_streams_own (env : LinkEnv) (as : List LinkAction)
    (hok : (Link.machine env).Along (fun _ s a => s.orderly a = true) [] .new as) :
    (Link.machine env).Throughout (fun h _ => Attributed h) [] .new as := by
  refine Machine.throughout_of_along (P := fun h s => (Own s ∧ Attributed h) ∧ Latest env s) ?_
    (fun _ _ h => h.1.2) as [] .new ⟨⟨Own.new, by intro x hx; cases hx⟩, Latest.new env⟩ hok
  intro h s a s' o hP hok hs
  obtain ⟨hown, hobs⟩ := own_step hP.1.1 (hP.2.timely a) hs
  exact ⟨⟨hown, List.forall_mem_append.mpr ⟨hP.1.2, hobs⟩⟩, latest_step hP.2 hok hs⟩

end AthenaVoice.Remote
