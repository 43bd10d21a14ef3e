import AthenaVoice.Pipeline.TurnEnd
import AthenaVoice.Pipeline.RouterLedger

/-
  A session's stages together

  The router, the LLM, TTS and sink tasks of one session, with the channels
  between them: prompts (4), tokens (64, from the router and the LLM stage),
  chunks (64), and the TTS task's own receiver on the event bus. A message
  carries the number of the utterance it serves; nobody reads it.

  An event is on the bus as soon as it is sent, a message on a channel when
  there is room: until then its sender waits. The scheduler is the list of
  actions; only `flush` is biased, and takes what is on the bus before audio.
  Receivers stay while the session lives, so no send fails here. The bus also
  carries what others send, and a slow receiver may lose its oldest items.

  What is proved:
    1. `Tagged.step` — a property of the utterances the router sends for is one
       of everything downstream.
    2. `router_sends` — the router sends only for the newest utterance, and
       raises a barge-in only in its name.
-/

namespace AthenaVoice.Pipeline

open Lib CoreTypes Intent
open Sdk (SkillResponse SkillResult SkillError)

/-- What the session's tasks are given. -/
structure SessionDeps where
  router : RouterDeps
  sink : SinkDeps

/-- An item on the TTS task's receiver: an event or a receive error, and the
utterance in whose name the router sent it. -/
structure BusItem where
  raisedBy : Nat
  event : Option Event
  deriving DecidableEq

/-- The session: its tasks, what the router is about to send, the channels. -/
structure Session where
  router : RouterSys
  routerOut : List (Nat × Send)
  prompts : List (Nat × Text)
  llm : Llm Nat
  tokens : List (Nat × TtsMsg)
  bus : List BusItem
  tts : Tts Nat
  chunks : List (List Nat × SinkMsg)
  sink : Sink

/-- The session as it is spawned. -/
def Session.init : Session :=
  { router := .init, routerOut := [], prompts := [], llm := .init, tokens := [], bus := [], tts := .init,
    chunks := [], sink := .init }

/-- What the scheduler and the world may do next. -/
inductive SessionAction where
  | router (a : RouterAction)
  /-- The router's next message is sent. -/
  | routerSend
  /-- The LLM task takes a prompt. -/
  | llmPrompt
  | llmCompleted (ok : Bool)
  | llmItem (i : StreamItem)
  | llmSend
  /-- The TTS task takes a message, or an item of the bus. -/
  | ttsToken
  | ttsBus
  | ttsIdle
  | ttsSynthesized (audio : Option (AudioFormat × Nat))
  | ttsAudio (item : AudioItem)
  | ttsSend
  /-- The sink takes a message. -/
  | sinkMsg
  /-- Something else is sent on the bus. -/
  | noise (e : Event)
  /-- The receiver lags and loses its oldest `k` items. -/
  | lag (k : Nat)

/-- What is observed of the session. -/
inductive SessionObs where
  | router (o : RouterObs)
  | llm (o : LlmObs Nat)
  | tts (o : TtsObs Nat)
  /-- The TTS task acts on the barge-in raised by utterance `n`; the text it
  drops is of the utterances `tags`. -/
  | barged (n : Nat) (tags : List Nat)
  /-- The sink takes a message. -/
  | played (tags : List Nat) (m : SinkMsg)
  | sink (o : SinkObs)
  deriving DecidableEq

/-- The router acts itself, rather than one of its spawned dispatches. -/
def RouterAction.isLoop : RouterAction → Bool
  | .finish .. | .abandon .. => false
  | _ => true

/-- The downstream stages are there, and nothing is cancelled. -/
def RouterAction.attached : RouterAction → Bool
  | .transcript _ _ llmOpen => llmOpen
  | .outcome links => links = .up
  | .cancel => false
  | _ => true

/-- The LLM or the TTS task goes on with what it has: nothing is taken from a
channel or from the bus. -/
def SessionAction.takesNothing : SessionAction → Bool
  | .llmCompleted _ | .llmItem _ | .llmSend | .ttsIdle | .ttsSynthesized _ | .ttsAudio _ | .ttsSend => true
  | _ => false

def PROMPT_CAPACITY : Nat := 4
def TOKEN_CAPACITY : Nat := 64
def CHUNK_CAPACITY : Nat := 64

/-- The messages among the router's observations. -/
def sendsIn (o : List RouterObs) : List (Nat × Send) :=
  o.filterMap (fun x => match x with | .send n m => some (n, m) | _ => none)

/-- The events among the router's observations. -/
def eventsIn (o : List RouterObs) : List BusItem :=
  o.filterMap (fun x => match x with | .event n e => some ⟨n, some e⟩ | _ => none)

/-- The messages the TTS task forwards. -/
def forwardsIn (o : List (TtsObs Nat)) : List (List Nat × SinkMsg) :=
  o.filterMap (fun x => match x with | .sink tags m => some (tags, m) | _ => none)

/-- The TTS task's own events come back to it. -/
def echoesIn (o : List (TtsObs Nat)) : List BusItem :=
  o.filterMap (fun x => match x with | .event e => some ⟨0, some e⟩ | _ => none)

/-- What a step of the TTS task shows; `n` raised the item it took, if it took one. -/
def ttsObs (n : Nat) : TtsObs Nat → SessionObs
  | .discarded tags => .barged n tags
  | o => .tts o

namespace Session

/-- A step of the LLM task; what it sends joins the token channel. -/
def stepLlm (deps : SessionDeps) (s : Session) (a : LlmAction Nat) : Option (Session × List SessionObs) :=
  (s.llm.step deps.router.locale a).map (fun r =>
    ({ s with llm := r.1, tokens := s.tokens ++ sentBy r.2 }, r.2.map .llm))

/-- A step of the TTS task; what it sends joins the chunk channel and the bus. -/
def stepTts (deps : SessionDeps) (s : Session) (n : Nat) (a : TtsAction Nat) :
    Option (Session × List SessionObs) :=
  (s.tts.step deps.router.session a).map (fun r =>
    ({ s with tts := r.1, chunks := s.chunks ++ forwardsIn r.2, bus := s.bus ++ echoesIn r.2 },
      r.2.map (ttsObs n)))

def step (deps : SessionDeps) (s : Session) : SessionAction → Option (Session × List SessionObs)
  | .router a =>
    -- the router does not go round its loop while a send of its own is still blocked
    if a.attached && (s.routerOut.isEmpty || !a.isLoop) then
      (s.router.step deps.router a).map (fun r =>
        ({ s with router := r.1, routerOut := s.routerOut ++ sendsIn r.2, bus := s.bus ++ eventsIn r.2 },
          r.2.map .router))
    else none
  | .routerSend =>
    match s.routerOut with
    | [] => none
    | (n, .llm prompt) :: rest =>
      if s.prompts.length < PROMPT_CAPACITY then
        some ({ s with routerOut := rest, prompts := s.prompts ++ [(n, prompt)] }, [])
      else none
    | (n, .tts m) :: rest =>
      if s.tokens.length < TOKEN_CAPACITY then
        some ({ s with routerOut := rest, tokens := s.tokens ++ [(n, m)] }, [])
      else none
  | .llmPrompt =>
    match s.prompts with
    | [] => none
    | (n, prompt) :: rest => { s with prompts := rest }.stepLlm deps (.prompt n prompt)
  | .llmCompleted ok => s.stepLlm deps (.completed ok)
  | .llmItem i => s.stepLlm deps (.item i)
  | .llmSend => if s.tokens.length < TOKEN_CAPACITY then s.stepLlm deps (.sent true) else none
  | .ttsToken =>
    match s.tokens with
    | [] => none
    | (n, m) :: rest => { s with tokens := rest }.stepTts deps 0 (.token n m)
  | .ttsBus =>
    match s.bus with
    | [] => none
    | item :: rest => { s with bus := rest }.stepTts deps item.raisedBy (.bus item.event)
  | .ttsIdle => s.stepTts deps 0 .idle
  | .ttsSynthesized audio => s.stepTts deps 0 (.synthesized audio)
  -- the select over the bus is biased: audio is read only when no event waits
  | .ttsAudio item => if s.bus.isEmpty then s.stepTts deps 0 (.audio item) else none
  | .ttsSend => if s.chunks.length < CHUNK_CAPACITY then s.stepTts deps 0 (.sent true) else none
  | .sinkMsg =>
    match s.chunks with
    | [] => none
    | (tags, m) :: rest =>
      (s.sink.step deps.sink (.msg m)).map (fun r =>
        ({ s with chunks := rest, sink := r.1 }, .played tags m :: r.2.map .sink))
  | .noise e =>
    if isBargeInFor deps.router.session (some e) then none
    else some ({ s with bus := s.bus ++ [⟨0, some e⟩] }, [])
  -- a receiver that lags loses the oldest events, and reads that it did
  | .lag k => some ({ s with bus := ⟨0, none⟩ :: s.bus.drop k }, [])

def machine (deps : SessionDeps) : Machine Session SessionAction SessionObs := ⟨step deps⟩

/-- The steps, by the task that takes them and what it takes. -/
inductive Step (deps : SessionDeps) (s : Session) : SessionAction → Session → List SessionObs → Prop where
  | router (a : RouterAction) (router : RouterSys) (o : List RouterObs) (attached : a.attached = true)
      (step : s.router.step deps.router a = some (router, o)) :
      Step deps s (.router a)
        { s with router := router, routerOut := s.routerOut ++ sendsIn o, bus := s.bus ++ eventsIn o }
        (o.map .router)
  | sendPrompt (n : Nat) (prompt : Text) (rest : List (Nat × Send))
      (head : s.routerOut = (n, .llm prompt) :: rest) :
      Step deps s .routerSend { s with routerOut := rest, prompts := s.prompts ++ [(n, prompt)] } []
  | sendToken (n : Nat) (m : TtsMsg) (rest : List (Nat × Send)) (head : s.routerOut = (n, .tts m) :: rest) :
      Step deps s .routerSend { s with routerOut := rest, tokens := s.tokens ++ [(n, m)] } []
  | prompt (n : Nat) (prompt : Text) (rest : List (Nat × Text)) (llm : Llm Nat) (o : List (LlmObs Nat))
      (head : s.prompts = (n, prompt) :: rest)
      (step : s.llm.step deps.router.locale (.prompt n prompt) = some (llm, o)) :
      Step deps s .llmPrompt { s with prompts := rest, llm := llm, tokens := s.tokens ++ sentBy o }
        (o.map .llm)
  | llm (a : SessionAction) (b : LlmAction Nat) (llm : Llm Nat) (o : List (LlmObs Nat))
      (own : a.takesNothing = true) (noPrompt : ∀ n prompt, b ≠ .prompt n prompt)
      (step : s.llm.step deps.router.locale b = some (llm, o)) :
      Step deps s a { s with llm := llm, tokens := s.tokens ++ sentBy o } (o.map .llm)
  | token (n : Nat) (m : TtsMsg) (rest : List (Nat × TtsMsg)) (tts : Tts Nat) (o : List (TtsObs Nat))
      (head : s.tokens = (n, m) :: rest)
      (step : s.tts.step deps.router.session (.token n m) = some (tts, o)) :
      Step deps s .ttsToken
        { s with tokens := rest, tts := tts, chunks := s.chunks ++ forwardsIn o, bus := s.bus ++ echoesIn o }
        (o.map (ttsObs 0))
  | bus (item : BusItem) (rest : List BusItem) (tts : Tts Nat) (o : List (TtsObs Nat))
      (head : s.bus = item :: rest)
      (step : s.tts.step deps.router.session (.bus item.event) = some (tts, o)) :
      Step deps s .ttsBus
        { s with tts := tts, chunks := s.chunks ++ forwardsIn o, bus := rest ++ echoesIn o }
        (o.map (ttsObs item.raisedBy))
  | tts (a : SessionAction) (b : TtsAction Nat) (tts : Tts Nat) (o : List (TtsObs Nat))
      (own : a.takesNothing = true) (noToken : ∀ n m, b ≠ .token n m) (noBus : ∀ ev, b ≠ .bus ev)
      (step : s.tts.step deps.router.session b = some (tts, o)) :
      Step deps s a { s with tts := tts, chunks := s.chunks ++ forwardsIn o, bus := s.bus ++ echoesIn o }
        (o.map (ttsObs 0))
  | played (tags : List Nat) (m : SinkMsg) (rest : List (List Nat × SinkMsg)) (sink : Sink)
      (o : List SinkObs) (head : s.chunks = (tags, m) :: rest)
      (step : s.sink.step deps.sink (.msg m) = some (sink, o)) :
      Step deps s .sinkMsg { s with chunks := rest, sink := sink } (.played tags m :: o.map .sink)
  | noise (e : Event) (other : isBargeInFor deps.router.session (some e) = false) :
      Step deps s (.noise e) { s with bus := s.bus ++ [⟨0, some e⟩] } []
  | lag (k : Nat) : Step deps s (.lag k) { s with bus := ⟨0, none⟩ :: s.bus.drop k } []

theorem stepLlm_cases {deps : SessionDeps} {s s' : Session} {a : LlmAction Nat} {o : List SessionObs}
    (h : s.stepLlm deps a = some (s', o)) : ∃ llm obs, s.llm.step deps.router.locale a = some (llm, obs) ∧
      s' = { s with llm := llm, tokens := s.tokens ++ sentBy obs } ∧ o = obs.map .llm := by
  obtain ⟨⟨llm, obs⟩, hr, he⟩ := Option.map_eq_some_iff.mp h
  cases he
  exact ⟨llm, obs, hr, rfl, rfl⟩

theorem stepTts_cases {deps : SessionDeps} {s s' : Session} {n : Nat} {a : TtsAction Nat}
    {o : List SessionObs} (h : s.stepTts deps n a = some (s', o)) :
    ∃ tts obs, s.tts.step deps.router.session a = some (tts, obs) ∧
      s' = { s with tts := tts, chunks := s.chunks ++ forwardsIn obs, bus := s.bus ++ echoesIn obs } ∧
      o = obs.map (ttsObs n) := by
  obtain ⟨⟨tts, obs⟩, hr, he⟩ := Option.map_eq_some_iff.mp h
  cases he
  exact ⟨tts, obs, hr, rfl, rfl⟩

/-- **Inversion.** -/
theorem step_cases {deps : SessionDeps} {s s' : Session} {a : SessionAction} {o : List SessionObs}
    (h : s.step deps a = some (s', o)) : Step deps s a s' o := by
  -- the actions that only drive one task, with no channel read before them
  have hllm : ∀ a b, a.takesNothing = true → (∀ n prompt, b ≠ .prompt n prompt) →
      s.stepLlm deps b = some (s', o) → Step deps s a s' o := by
    intro a b hown hprompt hs
    obtain ⟨llm, obs, hr, rfl, rfl⟩ := stepLlm_cases hs
    exact .llm a b llm obs hown hprompt hr
  have htts : ∀ a b, a.takesNothing = true → (∀ n m, b ≠ .token n m) → (∀ ev, b ≠ .bus ev) →
      s.stepTts deps 0 b = some (s', o) → Step deps s a s' o := by
    intro a b hown htoken hbus hs
    obtain ⟨tts, obs, hr, rfl, rfl⟩ := stepTts_cases hs
    exact .tts a b tts obs hown htoken hbus hr
  cases a with
  | router a =>
    simp only [step] at h
    split at h
    · rename_i hready
      obtain ⟨⟨router, obs⟩, hr, he⟩ := Option.map_eq_some_iff.mp h
      cases he
      simp only [Bool.and_eq_true] at hready
      exact .router a router obs hready.1 hr
    · cases h
  | routerSend =>
    simp only [step] at h
    split at h
    · cases h
    · rename_i n prompt rest hhead
      split at h
      · cases h
        exact .sendPrompt n prompt rest hhead
      · cases h
    · rename_i n m rest hhead
      split at h
      · cases h
        exact .sendToken n m rest hhead
      · cases h
  | llmPrompt =>
    simp only [step] at h
    split at h
    · cases h
    · rename_i n prompt rest hhead
      obtain ⟨llm, obs, hr, rfl, rfl⟩ := stepLlm_cases h
      exact .prompt n prompt rest llm obs hhead hr
  | llmCompleted ok => exact hllm _ _ rfl (by simp) h
  | llmItem i => exact hllm _ _ rfl (by simp) h
  | llmSend =>
    simp only [step] at h
    split at h
    · exact hllm _ _ rfl (by simp) h
    · cases h
  | ttsToken =>
    simp only [step] at h
    split at h
    · cases h
    · rename_i n m rest hhead
      obtain ⟨tts, obs, hr, rfl, rfl⟩ := stepTts_cases h
      exact .token n m rest tts obs hhead hr
  | ttsBus =>
    simp only [step] at h
    split at h
    · cases h
    · rename_i item rest hhead
      obtain ⟨tts, obs, hr, rfl, rfl⟩ := stepTts_cases h
      exact .bus item rest tts obs hhead hr
  | ttsIdle => exact htts _ _ rfl (by simp) (by simp) h
  | ttsSynthesized audio => exact htts _ _ rfl (by simp) (by simp) h
  | ttsAudio item =>
    simp only [step] at h
    split at h
    · exact htts _ _ rfl (by simp) (by simp) h
    · cases h
  | ttsSend =>
    simp only [step] at h
    split at h
    · exact htts _ _ rfl (by simp) (by simp) h
    · cases h
  | sinkMsg =>
    simp only [step] at h
    split at h
    · cases h
    · rename_i tags m rest hhead
      obtain ⟨⟨sink, obs⟩, hr, he⟩ := Option.map_eq_some_iff.mp h
      cases he
      exact .played tags m rest sink obs hhead hr
  | noise e =>
    simp only [step] at h
    split at h
    · cases h
    · rename_i hother
      cases h
      exact .noise e (by simpa using hother)
  | lag k =>
    cases h
    exact .lag k

end Session

/-! ## What the router sends for -/

theorem mem_sendsIn {o : List RouterObs} {n : Nat} {m : Send} : (n, m) ∈ sendsIn o ↔ .send n m ∈ o := by
  unfold sendsIn
  rw [List.mem_filterMap]
  refine ⟨?_, ?_⟩
  · intro h
    obtain ⟨x, hx, he⟩ := h
    cases x <;> cases he
    exact hx
  · intro h
    exact ⟨_, h, rfl⟩

theorem mem_eventsIn {o : List RouterObs} {item : BusItem} :
    item ∈ eventsIn o ↔ ∃ e, item.event = some e ∧ .event item.raisedBy e ∈ o := by
  unfold eventsIn
  rw [List.mem_filterMap]
  refine ⟨?_, ?_⟩
  · intro h
    obtain ⟨x, hx, he⟩ := h
    cases x <;> cases he
    exact ⟨_, rfl, hx⟩
  · intro h
    obtain ⟨e, he, hx⟩ := h
    refine ⟨_, hx, ?_⟩
    obtain ⟨n, ev⟩ := item
    simp only at he
    rw [he]

/-- Every flight is of an utterance already taken. -/
def FlightsTaken (s : RouterSys) : Prop := ∀ f ∈ s.flights, f.1 ≤ s.finals

theorem flightsTaken_step {deps : RouterDeps} {s s' : RouterSys} {a : RouterAction} {o : List RouterObs}
    (h : FlightsTaken s) (hs : s.step deps a = some (s', o)) : FlightsTaken s' := by
  obtain ⟨-, hstep⟩ := RouterSys.step_cases hs
  cases hstep with
  | partial_ t rules llmOpen hp => exact h
  | final t rules llmOpen hrx hfinal =>
    have hflights := flights_applyTurn s (onFinal deps s.router t rules (s.finals + 1) llmOpen)
    have hold : ∀ f ∈ s.flights, f.1 ≤ s.finals + 1 := fun f hf => Nat.le_succ_of_le (h f hf)
    intro f hf
    rw [applyTurn_finals]
    have hf' := hflights.mem_iff.mp hf
    cases onFinal_turn deps s.router t rules (s.finals + 1) llmOpen with
    | dispatched skill intent hnext hstate =>
      rw [hnext] at hf'
      rcases List.mem_cons.mp hf' with rfl | hf'
      · exact le_refl _
      · exact hold f hf'
    | prompted text up hnext hstate => rw [hnext] at hf'; exact hold f hf'
    | llmGone down hnext hstate => rw [hnext] at hf'; exact hold f hf'
  | closed hrx => exact h
  | report a i t result htask hby hroom => exact fun f hf => h f ((report_flights result htask).mem_iff.mp hf)
  | outcome links out rest hhead =>
    have hflights := flights_outcome hhead (handleOutcome deps links s.router out).state
      (drained (handleOutcome deps links s.router out).state)
    exact fun f hf => h f (hflights.mem_iff.mpr (List.mem_cons_of_mem _ hf))
  | cancel => exact h

/-- The router sends for an utterance taken; while the epoch counts, only for
the newest. -/
theorem router_sends {deps : RouterDeps} {s s' : RouterSys} {a : RouterAction} {o : List RouterObs}
    (h : FlightsTaken s) (hs : s.step deps a = some (s', o)) {n : Nat} {m : Send} (hm : .send n m ∈ o) :
    n ≤ s'.finals ∧ (Numbered s → n = s'.finals) := by
  obtain ⟨-, hstep⟩ := RouterSys.step_cases hs
  cases hstep with
  | final t rules llmOpen hrx hfinal =>
    have hn : n = s.finals + 1 := by
      rcases mem_turnObs hm with h | ⟨e, -, h⟩ | ⟨d, -, h⟩ | ⟨p, -, h⟩ <;> cases h
      rfl
    rw [applyTurn_finals, hn]
    exact ⟨le_refl _, fun _ => rfl⟩
  | outcome links out rest hhead =>
    have hflight : (out.token, out.epoch) ∈ s.flights :=
      (flights_outcome hhead s.router s.exited).mem_iff.mpr List.mem_cons_self
    rcases List.mem_cons.mp hm with hm | hm
    · cases hm
    · rcases List.mem_append.mp hm with hm | hm
      · obtain ⟨e, -, he⟩ := List.mem_map.mp hm
        cases he
      · obtain ⟨m', hsend, he⟩ := List.mem_map.mp hm
        cases he
        refine ⟨h _ hflight, fun N => ?_⟩
        by_contra hne
        have hown : out.epoch = out.token := (N.flights _ hflight).1
        have hstale : out.epoch ≠ s.router.epoch := by
          rw [N.epoch, hown]
          exact hne
        simp [handleOutcome, hstale] at hsend
  | partial_ t rules llmOpen hp => cases hm
  | closed hrx => cases hm
  | report a i t result htask hby hroom => cases hm
  | cancel => cases hm

theorem router_bargeIn {deps : RouterDeps} {s s' : RouterSys} {a : RouterAction} {o : List RouterObs}
    (hs : s.step deps a = some (s', o)) {n : Nat} {e : Event} (he : e.isBargeIn = true)
    (hm : .event n e ∈ o) : n = s'.finals ∧ s'.finals = s.finals + 1 ∧ s.router.hasPriorWork = true := by
  obtain ⟨-, hstep⟩ := RouterSys.step_cases hs
  cases hstep with
  | final t rules llmOpen hrx hfinal =>
    rw [applyTurn_finals]
    rcases mem_turnObs hm with h | ⟨e', he', h⟩ | ⟨d, -, h⟩ | ⟨p, -, h⟩
    · cases h
    · cases h
      rcases mem_onFinal_events he' with ⟨-, hprior⟩ | hother
      · exact ⟨rfl, rfl, hprior⟩
      · rw [hother.1] at he
        cases he
    · cases h
    · cases h
  | outcome links out rest hhead =>
    rcases List.mem_cons.mp hm with hm | hm
    · cases hm
    · rcases List.mem_append.mp hm with hm | hm
      · obtain ⟨e', hmem, h⟩ := List.mem_map.mp hm
        cases h
        have hno : ∀ e ∈ (handleOutcome deps links s.router out).events, e.isBargeIn = false := by
          unfold handleOutcome
          simp only
          split
          · simp [Event.isBargeIn]
          · unfold answer
            split
            · split <;> simp
            · simp only
              split <;> simp [Event.isBargeIn]
            all_goals simp [Event.isBargeIn]
        rw [hno e hmem] at he
        cases he
      · obtain ⟨m', -, h⟩ := List.mem_map.mp hm
        cases h
  | partial_ t rules llmOpen hp => cases hm
  | closed hrx => cases hm
  | report a i t result htask hby hroom => cases hm
  | cancel => cases hm

/-! ## The utterances downstream -/

/-- The utterances of everything on its way to the TTS task and, of its
`AnswerEnd`s, to the sink. -/
structure Queued (P : Nat → Prop) (s : Session) : Prop where
  routerOut : ∀ x ∈ s.routerOut, P x.1
  prompts : ∀ x ∈ s.prompts, P x.1
  llm : ∀ t ∈ s.llm.tags, P t
  tokens : ∀ x ∈ s.tokens, P x.1
  ends : ∀ t ∈ s.tts.endTags, P t
  dones : ∀ x ∈ s.chunks, x.2 = .answerEnd → ∀ t ∈ x.1, P t

/-- The same, and the utterances of the text the TTS task holds. -/
structure Tagged (P : Nat → Prop) (s : Session) : Prop extends Queued P s where
  text : ∀ t ∈ s.tts.textTags, P t

/-- `P` holds of the text and the ends of answers an observation shows. -/
def SessionObs.Tagged (P : Nat → Prop) : SessionObs → Prop
  | .tts o => Tts.ObsTags P P o
  | .barged _ tags => ∀ t ∈ tags, P t
  | .played tags m => m = .answerEnd → ∀ t ∈ tags, P t
  | .router _ | .llm _ | .sink _ => True

theorem SessionObs.Tagged.mono {P Q : Nat → Prop} {o : SessionObs} (h : ∀ n, P n → Q n)
    (ho : o.Tagged P) : o.Tagged Q := by
  cases o with
  | tts o => exact Tts.ObsTags.mono h h ho
  | barged n tags => exact fun t ht => h t (ho t ht)
  | played tags m => exact fun hend t ht => h t (ho hend t ht)
  | _ => trivial

theorem tagged_init (P : Nat → Prop) : Tagged P Session.init where
  routerOut := by intro x hx; cases hx
  prompts := by intro x hx; cases hx
  llm := by intro t ht; cases ht
  tokens := by intro x hx; cases hx
  ends := by intro t ht; cases ht
  dones := by intro x hx; cases hx
  text := by intro t ht; cases ht

theorem Tagged.mono {P Q : Nat → Prop} {s : Session} (T : Tagged P s) (h : ∀ n, P n → Q n) : Tagged Q s where
  routerOut := fun x hx => h _ (T.routerOut x hx)
  prompts := fun x hx => h _ (T.prompts x hx)
  llm := fun t ht => h _ (T.llm t ht)
  tokens := fun x hx => h _ (T.tokens x hx)
  ends := fun t ht => h _ (T.ends t ht)
  dones := fun x hx he t ht => h _ (T.dones x hx he t ht)
  text := fun t ht => h _ (T.text t ht)

theorem mem_forwardsIn {o : List (TtsObs Nat)} {x : List Nat × SinkMsg} (h : x ∈ forwardsIn o) :
    .sink x.1 x.2 ∈ o := by
  obtain ⟨y, hy, he⟩ := List.mem_filterMap.mp h
  cases y <;> cases he
  exact hy

theorem mem_echoesIn {o : List (TtsObs Nat)} {item : BusItem} (h : item ∈ echoesIn o) :
    ∃ e, item.event = some e ∧ .event e ∈ o := by
  obtain ⟨y, hy, he⟩ := List.mem_filterMap.mp h
  cases y <;> cases he
  exact ⟨_, rfl, hy⟩

theorem ttsObs_tagged {P : Nat → Prop} {n : Nat} {o : TtsObs Nat} (h : Tts.ObsTags P P o) :
    (ttsObs n o).Tagged P := by
  cases o <;> exact h

theorem Tagged.stepLlm {P : Nat → Prop} {locale : Text} {s : Session} {a : LlmAction Nat} {llm : Llm Nat}
    {o : List (LlmObs Nat)} (T : Tagged P s) (ha : ∀ n prompt, a = .prompt n prompt → P n)
    (hs : s.llm.step locale a = some (llm, o)) :
    Tagged P { s with llm := llm, tokens := s.tokens ++ sentBy o } ∧
      ∀ x ∈ o.map SessionObs.llm, x.Tagged P := by
  obtain ⟨hllm, hsent⟩ := Llm.step_tags T.llm ha hs
  refine ⟨{ T with llm := hllm, tokens := ?_ }, ?_⟩
  · intro x hx
    rcases List.mem_append.mp hx with hx | hx
    · exact T.tokens x hx
    · exact hsent x hx
  · intro x hx
    obtain ⟨y, -, rfl⟩ := List.mem_map.mp hx
    trivial

theorem Tagged.stepTts {P : Nat → Prop} {session : SessionId} {s : Session} {a : TtsAction Nat} {tts : Tts Nat}
    {o : List (TtsObs Nat)} (T : Tagged P s) (ha : ∀ n m, a = .token n m → P n)
    (hs : s.tts.step session a = some (tts, o)) (n : Nat) (bus : List BusItem) :
    Tagged P { s with tts := tts, chunks := s.chunks ++ forwardsIn o, bus := bus } ∧
      ∀ x ∈ o.map (ttsObs n), x.Tagged P := by
  obtain ⟨htext, hends, hobs⟩ := Tts.step_tags (P := P) (Q := P) T.text T.ends
    (fun tag t h => ha tag (.token t) h) (fun tag h => ha tag .answerEnd h) hs
  refine ⟨{ T with text := htext, ends := hends, dones := ?_ }, ?_⟩
  · intro x hx hend
    rcases List.mem_append.mp hx with hx | hx
    · exact T.dones x hx hend
    · have := hobs _ (mem_forwardsIn hx)
      rw [hend] at this
      exact this
  · intro x hx
    obtain ⟨y, hy, rfl⟩ := List.mem_map.mp hx
    exact ttsObs_tagged (hobs y hy)

/-- **One step.** What the router sends for is all there is downstream. -/
theorem Tagged.step {P : Nat → Prop} {deps : SessionDeps} {s s' : Session} {a : SessionAction}
    {o : List SessionObs} (T : Tagged P s) (hs : s.step deps a = some (s', o))
    (hsend : ∀ n m, .router (.send n m) ∈ o → P n) : Tagged P s' ∧ ∀ x ∈ o, x.Tagged P := by
  -- a channel is read at its head and written at its end
  have hall : ∀ {α : Type} (f : α → Nat) {l rest : List α} {x : α}, (∀ y ∈ l, P (f y)) → l = x :: rest →
      P (f x) ∧ ∀ y ∈ rest, P (f y) := by
    intro α f l rest x h hl
    rw [hl] at h
    exact List.forall_mem_cons.mp h
  have hsnoc : ∀ {α : Type} (f : α → Nat) {l : List α} {x : α}, (∀ y ∈ l, P (f y)) → P (f x) →
      ∀ y ∈ l ++ [x], P (f y) := by
    intro α f l x h hx y hy
    rcases List.mem_append.mp hy with hy | hy
    · exact h y hy
    · rw [List.mem_singleton.mp hy]
      exact hx
  cases Session.step_cases hs with
  | router a router obs hattached hr =>
    refine ⟨{ T with routerOut := ?_ }, ?_⟩
    · intro x hx
      rcases List.mem_append.mp hx with hx | hx
      · exact T.routerOut x hx
      · exact hsend x.1 x.2 (List.mem_map.mpr ⟨_, mem_sendsIn.mp hx, rfl⟩)
    · intro x hx
      obtain ⟨y, -, rfl⟩ := List.mem_map.mp hx
      trivial
  | sendPrompt n prompt rest hhead =>
    obtain ⟨hx, hrest⟩ := hall Prod.fst T.routerOut hhead
    exact ⟨{ T with routerOut := hrest, prompts := hsnoc Prod.fst T.prompts hx }, by simp⟩
  | sendToken n m rest hhead =>
    obtain ⟨hx, hrest⟩ := hall Prod.fst T.routerOut hhead
    exact ⟨{ T with routerOut := hrest, tokens := hsnoc Prod.fst T.tokens hx }, by simp⟩
  | prompt n prompt rest llm obs hhead hr =>
    obtain ⟨hx, hrest⟩ := hall Prod.fst T.prompts hhead
    refine Tagged.stepLlm (s := { s with prompts := rest }) { T with prompts := hrest } ?_ hr
    intro _ _ h
    cases h
    exact hx
  | llm a b llm obs hown hprompt hr => exact T.stepLlm (fun n prompt h => absurd h (hprompt n prompt)) hr
  | token n m rest tts obs hhead hr =>
    obtain ⟨hx, hrest⟩ := hall Prod.fst T.tokens hhead
    refine Tagged.stepTts (s := { s with tokens := rest }) { T with tokens := hrest } ?_ hr 0 _
    intro _ _ h
    cases h
    exact hx
  | bus item rest tts obs hhead hr => exact T.stepTts (fun _ _ h => by cases h) hr item.raisedBy _
  | tts a b tts obs hown htoken hbus hr => exact T.stepTts (fun n m h => absurd h (htoken n m)) hr 0 _
  | played tags m rest sink obs hhead hr =>
    have hdones := T.dones
    rw [hhead] at hdones
    obtain ⟨hx, hrest⟩ := List.forall_mem_cons.mp hdones
    refine ⟨{ T with dones := hrest }, ?_⟩
    intro y hy
    rcases List.mem_cons.mp hy with rfl | hy
    · exact hx
    · obtain ⟨z, -, rfl⟩ := List.mem_map.mp hy
      trivial
  | noise e hother => exact ⟨{ T with }, by simp⟩
  | lag k => exact ⟨{ T with }, by simp⟩

end AthenaVoice.Pipeline
